import RtKernel.Print.Strings
import RtKernel.Print.ZeroPadded

/-!
# The line of a log

A line is put together in a buffer of `ULOG_LINE_BUF_SIZE + 1` bytes. The pieces come from helpers
of which each has its own notion of where the buffer ends.
-/

namespace RtKernel.LogLine

open Print List

/-- What is compiled in, and where the buffers are. The address space goes on behind a buffer. -/
structure Build where
  usingColor : Bool
  usingIsrLog : Bool
  usingSoftRtc : Bool
  timeUsingTimestamp : Bool
  outputTime : Bool
  outputLevel : Bool
  outputTag : Bool
  outputThreadName : Bool
  /-- `ULOG_LINE_BUF_SIZE`. -/
  lineBufSize : Nat
  logBufTh : Nat
  logBufIsr : Nat
  more : 80 ≤ lineBufSize
  less : lineBufSize < 2 ^ 31
  thNonNull : 0 < logBufTh
  isrNonNull : 0 < logBufIsr
  thRoom : logBufTh + lineBufSize + 32 < 2 ^ 32
  isrRoom : logBufIsr + lineBufSize + 32 < 2 ^ 32

/-- A string, without its terminator. -/
abbrev CString := { s : List UInt8 // 0 ∉ s ∧ s.length < 2 ^ 32 }

/-- The name of an object, without the zeros behind it. -/
abbrev Name := { s : List UInt8 // 0 ∉ s ∧ s.length ≤ 8 }

/-- The fields of a `struct tm` that are shown. -/
structure Tm where
  tmMon : BitVec 32
  tmMday : BitVec 32
  tmHour : BitVec 32
  tmMin : BitVec 32
  tmSec : BitVec 32

/-- What a call comes upon. -/
structure Env where
  /-- `ulog.init_ok`. -/
  initOk : Bool
  /-- There is a filter, and the call does not come through it. -/
  filtered : Bool
  /-- `rt_interrupt_get_nest()`. -/
  nest : Nat
  /-- `rt_thread_self()`. -/
  self : Option Name
  /-- `rt_tick_get()`. -/
  tick : BitVec 32
  tm : Tm
  /-- `now.tv_usec / 1000`, where microseconds are supported. -/
  msec : Option (BitVec 32)

/-- `get_log_buf`. -/
def getLogBuf (b : Build) (e : Env) : Nat :=
  if e.nest = 0 then b.logBufTh else if b.usingIsrLog then b.logBufIsr else 0

/-- The memory, and `log_len`. -/
structure Line where
  mem : Nat → UInt8
  len : Nat

/-- `ulog_strcpy`: the memory, and how much is copied. -/
def ulogStrcpy (b : Build) (mem : Nat → UInt8) (curLen dst : Nat) :
    List UInt8 → (Nat → UInt8) × Nat
  | [] => (mem, 0)
  | c :: src =>
    if curLen < b.lineBufSize then
      let r := ulogStrcpy b (store8 mem dst c) (add32 curLen 1) (add32 dst 1) src
      (r.1, r.2 + 1)
    else (mem, 0)

/-- `do { s[len++] = n % 10 + '0'; } while (n /= 10);` -/
def putDigits (mem : Nat → UInt8) (s : Nat) (n : BitVec 32) : (Nat → UInt8) × Nat :=
  let mem := store8 mem s (ch '0' + .ofNat (n.toNat % 10))
  if _ : n / 10 = 0 then (mem, 1)
  else
    let r := putDigits mem (s + 1) (n / 10)
    (r.1, r.2 + 1)
termination_by n.toNat
decreasing_by
  apply divide_lt 10
  rintro rfl
  exact ‹¬ (0 : BitVec 32) / 10 = 0› rfl

/-- `ulog_ultoa`. -/
def ulogUltoa (mem : Nat → UInt8) (s : Nat) (n : BitVec 32) : (Nat → UInt8) × Nat :=
  let (mem, len) := putDigits mem s n
  let mem := store8 mem (s + len) 0
  (swapEnds mem s (s + len - 1), len)

section

variable (b : Build) (buf : Nat)

/-- `log_len += ulog_strcpy(log_len, log_buf + log_len, src);` -/
def strcpy (src : List UInt8) (s : Line) : Line :=
  let r := ulogStrcpy b s.mem s.len (add32 buf s.len) src
  { mem := r.1, len := add32 s.len r.2 }

/-- `log_buf[log_len] = '\0';` -/
def terminate (s : Line) : Line := { s with mem := store8 s.mem (add32 buf s.len) 0 }

/-- `log_len += rt_strlen(log_buf + log_len);` -/
def addStrlen (s : Line) : Line :=
  { s with len := add32 s.len (zeroTerminated s.mem (add32 buf s.len) (2 ^ 32)) }

/-- `rt_snprintf(log_buf + log_len, size, fmt, ...);` -/
def snprintf (size : Nat) (fmt : List UInt8) (args : Args) (s : Line) : Line :=
  { s with mem := (rtVsnprintf s.mem (add32 buf s.len) size fmt args).1 }

/-- The tick in brackets, with the characters behind it and a terminator. -/
def putTick (tick : BitVec 32) (behind : List UInt8) (s : Line) : Line :=
  let p := add32 buf s.len
  let mem := store8 s.mem p (ch '[')
  let (mem, tickLen) := ulogUltoa mem (p + 1) tick
  { s with mem := overwritten mem (p + 1 + tickLen) (ch ']' :: behind ++ [0]) }

end

def csiStart : List UInt8 := [27, ch '[']
def csiEnd : List UInt8 := [27, ch '[', ch '0', ch 'm']

/-- `ULOG_NEWLINE_SIGN`. -/
def newlineSign : List UInt8 := [13, 10]

/-- `level_output_info`. -/
def levelOutputInfo : Nat → Option (List UInt8)
  | 0 => some [ch 'A', ch '/']
  | 3 => some [ch 'E', ch '/']
  | 4 => some [ch 'W', ch '/']
  | 6 => some [ch 'I', ch '/']
  | 7 => some [ch 'D', ch '/']
  | _ => none

/-- `color_output_info`. -/
def colorOutputInfo : Nat → Option (List UInt8)
  | 0 => some [ch '3', ch '5', ch 'm']
  | 3 => some [ch '3', ch '1', ch 'm']
  | 4 => some [ch '3', ch '3', ch 'm']
  | 6 => some [ch '3', ch '2', ch 'm']
  | _ => none

/-- `"%02d"` -/
def twoDigits : List UInt8 := [ch '%', ch '0', ch '2', ch 'd']

/-- `"%03d"` -/
def threeDigits : List UInt8 := [ch '%', ch '0', ch '3', ch 'd']

/-- `"%02d-%02d %02d:%02d:%02d"`, and what is behind it. -/
def dateFormat (behind : List UInt8) : List UInt8 :=
  twoDigits ++ ch '-' :: (twoDigits ++ ch ' ' :: (twoDigits ++ ch ':' :: (twoDigits ++ ch ':' ::
    (twoDigits ++ behind))))

/-- Words as arguments. -/
def wordArgs (words : List (BitVec 32)) : Args := fun i => { word := words.getD i 0, text := [] }

/-- The arguments that show a date, and what is behind them. -/
def Tm.args (tm : Tm) (behind : List (BitVec 32)) : Args :=
  wordArgs ((tm.tmMon + 1) :: tm.tmMday :: tm.tmHour :: tm.tmMin :: tm.tmSec :: behind)

section

variable {b : Build} {buf : Nat} {mem mem' : Nat → UInt8} {a : Nat}

theorem ulogStrcpy_eq (mem : Nat → UInt8) (src : List UInt8) {curLen dst : Nat}
    (hdst : dst + (b.lineBufSize - curLen) < 2 ^ 32) : ulogStrcpy b mem curLen dst src =
      (overwritten mem dst (src.take (b.lineBufSize - curLen)),
        (src.take (b.lineBufSize - curLen)).length) := by
  have hsize := b.thRoom
  induction src generalizing mem curLen dst with
  | nil => rw [ulogStrcpy, take_nil, overwritten_nil]; rfl
  | cons c src ih =>
    rw [ulogStrcpy]
    split_ifs with hlt
    · have hroom : b.lineBufSize - curLen = b.lineBufSize - (curLen + 1) + 1 := by omega
      rw [add32_eq (show curLen + 1 < 2 ^ 32 by omega), add32_eq (show dst + 1 < 2 ^ 32 by omega),
        ih _ (by omega), overwritten_cons, hroom, take_succ_cons]
      rfl
    · have hroom : b.lineBufSize - curLen = 0 := by omega
      rw [hroom, take_zero, overwritten_nil]
      rfl

theorem putDigits_eq (mem : Nat → UInt8) (s : Nat) (n : BitVec 32) :
    putDigits mem s n = (overwritten mem s (tmp false 10 n), (tmp false 10 n).length) := by
  have hdigit : ∀ n : BitVec 32, digits false (n.toNat % 10) = ch '0' + .ofNat (n.toNat % 10) :=
    fun n => if_pos (Nat.mod_lt _ (by decide))
  have htmp : ∀ n : BitVec 32, tmp false 10 n =
      (ch '0' + .ofNat (n.toNat % 10)) :: if n / 10 = 0 then [] else tmp false 10 (n / 10) := by
    intro n
    by_cases hzero : n = 0
    · rw [hzero]
      rfl
    · have hrest : tmp false 10 n = convertDigits false 10 n := if_neg hzero
      rw [hrest, convertDigits, dif_neg hzero, ← hdigit]
      congr 1
      change convertDigits false 10 (n / 10) = _
      split_ifs with hlast
      · rw [hlast, convertDigits, dif_pos rfl]
      · exact (if_neg hlast).symm
  fun_induction putDigits mem s n with
  | case1 mem s n mem' hlast =>
    rw [htmp, if_pos hlast, ← store8_eq_overwritten]
    rfl
  | case2 mem s n mem' hrest r ih =>
    rw [htmp n, if_neg hrest, ← overwritten_cons]
    have hr : r = _ := ih
    rw [hr]
    rfl

/-- The decimal digits of a word. -/
def decimal (n : BitVec 32) : List UInt8 := (tmp false 10 n).reverse

theorem ulogUltoa_eq (mem : Nat → UInt8) (s : Nat) (n : BitVec 32) :
    ulogUltoa mem s n = (overwritten mem s (decimal n ++ [0]), (decimal n).length) := by
  have hlength : (decimal n).length = (tmp false 10 n).length := length_reverse
  unfold ulogUltoa
  rw [putDigits_eq]
  dsimp only
  rw [store8_eq_overwritten, overwritten_comm (.inl le_rfl), swapEnds_overwritten]
  change (overwritten (overwritten mem _ [0]) s (decimal n), _) = _
  rw [overwritten_comm (.inr (Nat.add_le_add_left hlength.le s)), ← overwritten_append, hlength]

/-- The tick in brackets. -/
def tickText (tick : BitVec 32) : List UInt8 := ch '[' :: decimal tick ++ [ch ']']

theorem putTick_eq (tick : BitVec 32) (behind : List UInt8) (s : Line) : putTick buf tick behind s =
      { s with mem := overwritten s.mem (add32 buf s.len) (tickText tick ++ behind ++ [0]) } := by
  obtain ⟨p, hp⟩ : ∃ p, p = add32 buf s.len := ⟨_, rfl⟩
  -- the terminator of the digits gives way to the bracket
  have hover : ∀ m q (t : List UInt8), overwritten (overwritten m q [0]) q (ch ']' :: t) =
      overwritten m q (ch ']' :: t) := by
    intro m q t
    funext a
    apply overwritten_congr
    by_cases hin : q ≤ a ∧ a < q + (t.length + 1)
    · exact .inl hin
    · exact .inr (overwritten_frame (by rw [length_singleton]; omega))
  have hall : tickText tick ++ behind ++ [0] =
      ch '[' :: (decimal tick ++ (ch ']' :: (behind ++ [0]))) := by
    simp [tickText]
  unfold putTick
  dsimp only
  rw [ulogUltoa_eq]
  rw [← overwritten_append (l := decimal tick), cons_append, hover, overwritten_append,
    overwritten_cons, hall]

end

/-- A line has a text so far, and nothing has been written beside the buffer. -/
structure Fills (b : Build) (buf : Nat) (mem : Nat → UInt8) (l : List UInt8) (s : Line) : Prop where
  length : s.len = l.length
  reads : ReadsAs s.mem buf l
  frame : ∀ a, a < buf ∨ buf + b.lineBufSize < a → s.mem a = mem a

section

variable {b : Build} {buf : Nat} {mem : Nat → UInt8} {l t src : List UInt8} {s : Line}

theorem strcpy_eq (hbuf : buf + b.lineBufSize + 32 < 2 ^ 32) (hlen : s.len ≤ b.lineBufSize + 32)
    (src : List UInt8) : strcpy b buf src s =
      { mem := overwritten s.mem (buf + s.len) (src.take (b.lineBufSize - s.len))
        len := s.len + (src.take (b.lineBufSize - s.len)).length } := by
  have htake := length_take_le (b.lineBufSize - s.len) src
  unfold strcpy
  rw [add32_eq (show buf + s.len < 2 ^ 32 by omega), ulogStrcpy_eq _ _ (by omega)]
  dsimp only
  rw [add32_eq (by omega)]

/-- A text, cut at `ULOG_LINE_BUF_SIZE`. -/
def clip (b : Build) (l : List UInt8) : List UInt8 := l.take b.lineBufSize

theorem length_clip_le (b : Build) (l : List UInt8) : (clip b l).length ≤ b.lineBufSize := by
  rw [clip, length_take]
  exact Nat.min_le_left ..

theorem clip_of_le (h : l.length ≤ b.lineBufSize) : clip b l = l := take_of_length_le h

namespace Fills

/-- More of the line is written, as far as it goes. -/
theorem overwritten (h : Fills b buf mem l s) (hle : l.length + t.length ≤ b.lineBufSize + 1)
    {n : Nat} (hn : n ≤ t.length) : Fills b buf mem (l ++ t.take n)
      { mem := overwritten s.mem (buf + s.len) t, len := s.len + n } := by
  refine ⟨?_, ?_, fun a ha => ?_⟩
  · rw [length_append, length_take, Nat.min_eq_left hn]
    exact congrArg (· + n) h.length
  · have happend := (h.reads.overwritten_append (m := t)).take (l.length + n)
    rw [take_length_add_append] at happend
    rw [h.length]
    exact happend
  · dsimp only
    rw [overwritten_frame, h.frame a ha]
    rw [h.length]
    omega

/-- A text that `ULOG_LINE_BUF_SIZE` cuts is continued, and cut again. -/
theorem strcpy (h : Fills b buf mem (clip b l) s) (hbuf : buf + b.lineBufSize + 32 < 2 ^ 32)
    (src : List UInt8) : Fills b buf mem (clip b (l ++ src)) (LogLine.strcpy b buf src s) := by
  obtain ⟨t, ht⟩ : ∃ t, t = src.take (b.lineBufSize - s.len) := ⟨_, rfl⟩
  have hlen := h.length
  have hclip := length_clip_le b l
  have htake : t.length ≤ b.lineBufSize - s.len := by
    rw [ht, length_take]
    exact Nat.min_le_left ..
  have hboth : clip b (l ++ src) = clip b l ++ t.take t.length := by
    rw [take_length, ht, hlen, clip, clip, take_append, length_take]
    congr 2
    omega
  rw [strcpy_eq hbuf (by omega), ← ht, hboth]
  exact h.overwritten (by omega) le_rfl

section

variable (h : Fills b buf mem l s)
include h

section

variable (hbuf : buf + b.lineBufSize + 32 < 2 ^ 32)
include hbuf

theorem terminate (hle : l.length ≤ b.lineBufSize) : Fills b buf mem l (terminate buf s) := by
  have hend := h.overwritten (t := [0]) (n := 0) (by rw [length_singleton]; omega) (by simp)
  have hat : add32 buf s.len = buf + s.len := add32_eq (by rw [h.length]; omega)
  rw [take_zero, append_nil] at hend
  unfold LogLine.terminate
  rw [hat, store8_eq_overwritten]
  exact hend

/-- A string is written behind the text, and its length is added. -/
theorem addStrlen (ht : 0 ∉ t) (hle : l.length + t.length ≤ b.lineBufSize) :
    Fills b buf mem (l ++ t) (addStrlen buf
      { s with mem := RtKernel.overwritten s.mem (add32 buf s.len) (t ++ [0]) }) := by
  have hlen := h.length
  have hat : add32 buf s.len = buf + s.len := add32_eq (by omega)
  have hstring := (overwritten_stringAt s.mem (buf + s.len) ht).zeroTerminated
    (show t.length < 2 ^ 32 by omega)
  have hmore := h.overwritten (t := t ++ [0]) (n := t.length)
    (by rw [length_append, length_singleton]; omega) (by simp)
  rw [take_left] at hmore
  unfold LogLine.addStrlen
  dsimp only
  rw [hat, hstring, add32_eq (by omega)]
  exact hmore

end

theorem truncate {n : Nat} (hn : n ≤ l.length) : Fills b buf mem (l.take n) { s with len := n } :=
  ⟨(length_take_of_le hn).symm, h.reads.take n, h.frame⟩

end

end Fills

theorem terminate_mem (s : Line) (hat : buf + s.len < 2 ^ 32) :
    (terminate buf s).mem (buf + s.len) = 0 := by
  unfold terminate
  rw [add32_eq hat]
  exact if_pos rfl

/-- Two lines are equally long, and have the same at an address. -/
def Line.Alike (a : Nat) (s s' : Line) : Prop := s.len = s'.len ∧ s.mem a = s'.mem a

namespace Line.Alike

variable {a : Nat} {s' : Line}

theorem terminate (h : Line.Alike a s s') :
    Line.Alike a (LogLine.terminate buf s) (LogLine.terminate buf s') := by
  refine ⟨h.1, ?_⟩
  unfold LogLine.terminate
  rw [h.1]
  exact store8_alike h.2

theorem ulogStrcpy {mem mem' : Nat → UInt8} (h : mem a = mem' a) (curLen dst : Nat)
    (src : List UInt8) :
    (ulogStrcpy b mem curLen dst src).1 a = (ulogStrcpy b mem' curLen dst src).1 a ∧
      (ulogStrcpy b mem curLen dst src).2 = (ulogStrcpy b mem' curLen dst src).2 := by
  induction src generalizing mem mem' curLen dst with
  | nil => exact ⟨h, rfl⟩
  | cons c src ih =>
    rw [LogLine.ulogStrcpy, LogLine.ulogStrcpy]
    split_ifs
    · obtain ⟨hmem, hcount⟩ := ih (store8_alike h) (add32 curLen 1) (add32 dst 1)
      exact ⟨hmem, congrArg (· + 1) hcount⟩
    · exact ⟨h, rfl⟩

theorem strcpy (h : Line.Alike a s s') (b : Build) (buf : Nat) (src : List UInt8) :
    Line.Alike a (LogLine.strcpy b buf src s) (LogLine.strcpy b buf src s') := by
  obtain ⟨hmem, hcount⟩ := Line.Alike.ulogStrcpy (b := b) h.2 s.len (add32 buf s.len) src
  unfold LogLine.strcpy
  rw [← h.1]
  exact ⟨congrArg (add32 s.len) hcount, hmem⟩

end Line.Alike

end

end RtKernel.LogLine

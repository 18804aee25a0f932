import RtKernel.Ulog.Line

/-!
# A formatted line

The colour, the time, the level, the tag and the name of the thread come before the message, the
newline and the end of the colour behind it. All of them are cut at the size of the line, but for
the name.
-/

open List

namespace RtKernel.LogLine

open Print

section

variable (b : Build) (e : Env) (buf : Nat)

/-- "add CSI start sign and color info" -/
def addColor (level : Nat) (s : Line) : Line :=
  if b.usingColor then
    match colorOutputInfo level with
    | some color => strcpy b buf color (strcpy b buf csiStart s)
    | none => s
  else s

/-- "add time info" -/
def addTime (s : Line) : Line :=
  if b.timeUsingTimestamp then
    let s := snprintf buf (sub32 b.lineBufSize s.len) (dateFormat []) (e.tm.args []) s
    let s :=
      match e.msec with
      | some msec =>
        let s := addStrlen buf s
        snprintf buf (sub32 b.lineBufSize s.len) (ch '.' :: threeDigits) (wordArgs [msec]) s
      | none => s
    addStrlen buf s
  else addStrlen buf (putTick buf e.tick [] s)

/-- "add level info", which is asserted to be there. -/
def addLevel (level : Nat) (s : Line) : Option Line :=
  if b.outputLevel then
    (levelOutputInfo level).map fun info =>
      strcpy b buf info (if b.outputTime then strcpy b buf [ch ' '] s else s)
  else some s

/-- "add tag info" -/
def addTag (tag : CString) (s : Line) : Line :=
  if b.outputTag then
    strcpy b buf tag.1 (if !b.outputLevel && b.outputTime then strcpy b buf [ch ' '] s else s)
  else s

/-- `thread_name`. -/
def threadName : List UInt8 :=
  match e.self with
  | some name => name.1
  | none => [ch 'N', ch '/', ch 'A']

/-- "add thread info", where the name is copied whether it fits or not. -/
def addThread (s : Line) : Line :=
  if b.outputThreadName then
    let s := if b.outputTime || b.outputLevel || b.outputTag then strcpy b buf [ch ' '] s else s
    if e.nest = 0 then
      { mem := overwritten s.mem (add32 buf s.len) (threadName e)
        len := add32 s.len (threadName e).length }
    else strcpy b buf [ch 'I', ch 'S', ch 'R'] s
  else s

/-- "calculate log length" -/
def logLen (s : Line) (fmtResult : Int) : Nat :=
  let sum := ((s.len + fmtResult) % 2 ^ 32).toNat
  if sum ≤ b.lineBufSize ∧ -1 < fmtResult then sum else b.lineBufSize

/-- The space "for CSI end sign, newline sign and string end sign". -/
def reserved : Nat := (if b.usingColor then csiEnd.length else 0) + newlineSign.length + 1

/-- "overflow check and reserve some space" -/
def reserve (logLen : Nat) : Nat :=
  if b.lineBufSize < logLen + reserved b then b.lineBufSize - reserved b else logLen

/-- The newline sign, the CSI end sign and the string end sign. -/
def finish (level : Nat) (newline : Bool) (s : Line) : Line :=
  let s := if newline then strcpy b buf newlineSign s else s
  let s := if b.usingColor && (colorOutputInfo level).isSome then strcpy b buf csiEnd s else s
  terminate buf s

def addMessage (level : Nat) (newline : Bool) (fmt : List UInt8) (args : Args) (s : Line) : Line :=
  let s := strcpy b buf [ch ':', ch ' '] s
  let r := rtVsnprintf s.mem (add32 buf s.len) (sub32 b.lineBufSize s.len) fmt args
  finish b buf level newline { mem := r.1, len := reserve b (logLen b s r.2) }

/-- `ulog_formater`, which does not come back where it asserts what is not so. -/
def ulogFormater (mem : Nat → UInt8) (level : Nat) (tag : CString) (newline : Bool)
    (fmt : List UInt8) (args : Args) : Option Line :=
  if buf = 0 ∨ 7 < level then none
  else
    let s := terminate buf (addColor b buf level { mem, len := 0 })
    let s := if b.outputTime then addTime b e buf s else s
    (addLevel b buf level s).map fun s =>
      addMessage b buf level newline fmt args (addThread b e buf (addTag b buf tag s))

/-- `ulog_raw`. -/
def ulogRaw (mem : Nat → UInt8) (fmt : List UInt8) (args : Args) : Option Line :=
  if e.initOk then
    let r := rtVsnprintf mem buf b.lineBufSize fmt args
    some { mem := r.1
           len := if -1 < r.2 ∧ r.2 ≤ b.lineBufSize then r.2.toNat else b.lineBufSize }
  else none

end

section

variable (b : Build) (e : Env) (level : Nat) (tag : CString)

def colorText : List UInt8 :=
  if b.usingColor then
    match colorOutputInfo level with
    | some color => csiStart ++ color
    | none => []
  else []

def twoText (word : BitVec 32) : List UInt8 := padded word 10 2 zeroSigned

def dateText (tm : Tm) : List UInt8 :=
  twoText (tm.tmMon + 1) ++ ch '-' :: (twoText tm.tmMday ++ ch ' ' :: (twoText tm.tmHour ++
    ch ':' :: (twoText tm.tmMin ++ ch ':' :: twoText tm.tmSec)))

def msecText (msec : BitVec 32) : List UInt8 := ch '.' :: padded msec 10 3 zeroSigned

def stampText : List UInt8 :=
  if b.timeUsingTimestamp then
    match e.msec with
    | some msec => dateText e.tm ++ msecText msec
    | none => dateText e.tm
  else tickText e.tick

def timeText : List UInt8 := if b.outputTime then stampText b e else []

def levelText : List UInt8 :=
  if b.outputLevel then
    (if b.outputTime then [ch ' '] else []) ++ (levelOutputInfo level).getD []
  else []

def tagText : List UInt8 :=
  if b.outputTag then (if !b.outputLevel && b.outputTime then [ch ' '] else []) ++ tag.1 else []

/-- What comes before the name. -/
def beforeName : List UInt8 :=
  colorText b level ++ timeText b e ++ levelText b level ++ tagText b tag ++
    if b.outputThreadName && (b.outputTime || b.outputLevel || b.outputTag) then [ch ' '] else []

/-- What comes before the message, up to the name. -/
def named : List UInt8 :=
  if b.outputThreadName then
    if e.nest = 0 then clip b (beforeName b e level tag) ++ threadName e
    else clip b (beforeName b e level tag ++ [ch 'I', ch 'S', ch 'R'])
  else clip b (beforeName b e level tag)

/-- What comes before the message. -/
def head : List UInt8 := clip b (named b e level tag ++ [ch ':', ch ' '])

end

theorem text_dateFormat (tm : Tm) (behind : List UInt8) (words : List (BitVec 32)) :
    text (dateFormat behind) (tm.args words) = dateText tm ++ text behind (wordArgs words) := by
  have htwo : ∀ rest w ws, text (twoDigits ++ rest) (wordArgs (w :: ws)) =
      twoText w ++ text rest (wordArgs ws) := fun rest w ws => text_zeropad rest _ (.inl rfl)
  unfold dateFormat Tm.args dateText
  rw [htwo, text_literal (by decide) (by decide), htwo, text_literal (by decide) (by decide), htwo,
    text_literal (by decide) (by decide), htwo, text_literal (by decide) (by decide), htwo]
  simp only [append_assoc, cons_append]

theorem text_msec (msec : BitVec 32) :
    text (ch '.' :: threeDigits) (wordArgs [msec]) = msecText msec := by
  have hthree : text threeDigits (wordArgs [msec]) = padded msec 10 3 zeroSigned ++ [] := by
    rw [← text_nil (wordArgs [])]
    exact text_zeropad [] _ (.inr rfl)
  rw [text_literal (by decide) (by decide), hthree, append_nil]
  rfl

theorem dateText_ne_zero (tm : Tm) : 0 ∉ dateText tm := by
  have htwo : ∀ w, 0 ∉ twoText w := fun w => padded_ne_zero w 10 2 zeroSigned
  have hdash : 0 ≠ ch '-' := by decide
  have hblank : 0 ≠ ch ' ' := by decide
  have hcolon : 0 ≠ ch ':' := by decide
  simp [dateText, htwo, hdash, hblank, hcolon]

theorem length_dateText (tm : Tm) : (dateText tm).length ≤ 59 := by
  have htwo : ∀ w, (twoText w).length ≤ 11 := fun w => length_padded_le w 10 (by decide) zeroSigned
  have h₀ := htwo (tm.tmMon + 1)
  have h₁ := htwo tm.tmMday
  have h₂ := htwo tm.tmHour
  have h₃ := htwo tm.tmMin
  have h₄ := htwo tm.tmSec
  simp only [dateText, length_append, length_cons]
  omega

theorem msecText_ne_zero (msec : BitVec 32) : 0 ∉ msecText msec := by
  have hpoint : 0 ≠ ch '.' := by decide
  rw [msecText, mem_cons, not_or]
  exact ⟨hpoint, padded_ne_zero msec 10 3 zeroSigned⟩

theorem length_msecText (msec : BitVec 32) : (msecText msec).length ≤ 12 :=
  Nat.succ_le_succ (length_padded_le msec 10 (by decide) zeroSigned)

theorem tickText_ne_zero (tick : BitVec 32) : 0 ∉ tickText tick := by
  have hopen : 0 ≠ ch '[' := by decide
  have hclose : 0 ≠ ch ']' := by decide
  have hdigits : 0 ∉ decimal tick := fun h => tmp_ne_zero false 10 tick (mem_reverse.mp h)
  simp [tickText, hopen, hclose, hdigits]

theorem length_tickText (tick : BitVec 32) : (tickText tick).length ≤ 12 := by
  have hdigits : (decimal tick).length ≤ 10 := by
    rw [decimal, length_reverse]
    exact length_tmp_le ..
  simp only [tickText, length_append, length_cons, length_nil]
  omega

theorem stampText_ne_zero (b : Build) (e : Env) : 0 ∉ stampText b e := by
  unfold stampText
  split_ifs
  · cases e.msec with
    | some msec =>
      rw [mem_append, not_or]
      exact ⟨dateText_ne_zero e.tm, msecText_ne_zero msec⟩
    | none => exact dateText_ne_zero e.tm
  · exact tickText_ne_zero e.tick

theorem length_stampText (b : Build) (e : Env) : (stampText b e).length ≤ 71 := by
  unfold stampText
  split_ifs
  · have hdate := length_dateText e.tm
    cases e.msec with
    | some msec =>
      have hmsec := length_msecText msec
      rw [length_append]
      omega
    | none => exact hdate.trans (by decide)
  · exact (length_tickText e.tick).trans (by decide)

theorem colorOutputInfo_spec {level : Nat} {color : List UInt8}
    (h : colorOutputInfo level = some color) : 0 ∉ color ∧ color.length = 3 := by
  unfold colorOutputInfo at h
  split at h
  all_goals
    cases h
  all_goals
    exact ⟨by decide, rfl⟩

theorem levelOutputInfo_ne_zero (level : Nat) : 0 ∉ (levelOutputInfo level).getD [] := by
  unfold levelOutputInfo
  split
  all_goals decide

theorem colorText_spec (b : Build) (level : Nat) :
    0 ∉ colorText b level ∧ (colorText b level).length ≤ 5 := by
  unfold colorText
  split_ifs
  · cases hcolor : colorOutputInfo level with
    | some color =>
      obtain ⟨hzero, hlen⟩ := colorOutputInfo_spec hcolor
      have hstart : 0 ∉ csiStart := by decide
      refine ⟨?_, ?_⟩
      · rw [mem_append, not_or]
        exact ⟨hstart, hzero⟩
      · rw [length_append, hlen]
        exact le_rfl
    | none => exact ⟨not_mem_nil, Nat.zero_le _⟩
  · exact ⟨not_mem_nil, Nat.zero_le _⟩

theorem head_ne_zero (b : Build) (e : Env) (level : Nat) (tag : CString) :
    0 ∉ head b e level tag := by
  have hname : 0 ∉ threadName e := by
    unfold threadName
    cases e.self with
    | some name => exact name.2.1
    | none => decide
  have hblank : ∀ c : Bool, 0 ∉ if c then [ch ' '] else [] := by decide
  have htime : 0 ∉ timeText b e := by
    unfold timeText
    split_ifs
    · exact stampText_ne_zero b e
    · exact not_mem_nil
  have hlevel : 0 ∉ levelText b level := by
    unfold levelText
    by_cases h : b.outputLevel = true
    · rw [if_pos h, mem_append, not_or]
      exact ⟨hblank b.outputTime, levelOutputInfo_ne_zero level⟩
    · rw [if_neg h]
      exact not_mem_nil
  have htag : 0 ∉ tagText b tag := by
    unfold tagText
    by_cases h : b.outputTag = true
    · rw [if_pos h, mem_append, not_or]
      exact ⟨hblank (!b.outputLevel && b.outputTime), tag.2.1⟩
    · rw [if_neg h]
      exact not_mem_nil
  have hbefore : 0 ∉ beforeName b e level tag := by
    unfold beforeName
    simp only [mem_append, not_or]
    exact ⟨⟨⟨⟨(colorText_spec b level).1, htime⟩, hlevel⟩, htag⟩, hblank _⟩
  have hclip : ∀ l, 0 ∉ l → 0 ∉ clip b l := fun l hl h => hl (mem_of_mem_take h)
  have hnamed : 0 ∉ named b e level tag := by
    unfold named
    split_ifs
    · rw [mem_append, not_or]
      exact ⟨hclip _ hbefore, hname⟩
    · apply hclip
      rw [mem_append, not_or]
      exact ⟨hbefore, by decide⟩
    · exact hclip _ hbefore
  apply hclip
  rw [mem_append, not_or]
  exact ⟨hnamed, by decide⟩

theorem length_threadName (e : Env) : (threadName e).length ≤ 8 := by
  unfold threadName
  cases e.self with
  | some name => exact name.2.2
  | none => decide

section

variable {b : Build} {e : Env} {buf level : Nat} {tag : CString} {mem : Nat → UInt8}
  {l t fmt : List UInt8} {args : Args} {s : Line}

/-- What is formatted fits into what is left of the line. -/
theorem snprintf_eq (hbuf : buf + b.lineBufSize + 32 < 2 ^ 32) (ht : text fmt args = t)
    (hle : s.len + t.length < b.lineBufSize) : snprintf buf (sub32 b.lineBufSize s.len) fmt args s =
      { s with mem := overwritten s.mem (add32 buf s.len) (t ++ [0]) } := by
  have hat : add32 buf s.len = buf + s.len := add32_eq (by omega)
  have hsize : sub32 b.lineBufSize s.len = b.lineBufSize - s.len := sub32_eq (by omega) (by omega)
  have hcut : cut (b.lineBufSize - s.len) t = t ++ [0] :=
    congrArg (· ++ [0]) (take_of_length_le (by omega))
  unfold snprintf
  rw [hsize, rtVsnprintf_fst _ (by omega) (by omega) (by rw [ht]; omega), ht, hcut]

theorem Fills.snprintf (h : Fills b buf mem l s) (hbuf : buf + b.lineBufSize + 32 < 2 ^ 32)
    (ht : text fmt args = t) (hzero : 0 ∉ t) (hle : l.length + t.length < b.lineBufSize) :
    Fills b buf mem (l ++ t) (LogLine.addStrlen buf
        (LogLine.snprintf buf (sub32 b.lineBufSize s.len) fmt args s)) := by
  rw [snprintf_eq hbuf ht (by rw [h.length]; exact hle)]
  exact h.addStrlen hbuf hzero (by omega)

theorem Fills.addTime (h : Fills b buf mem l s) (hbuf : buf + b.lineBufSize + 32 < 2 ^ 32)
    (hl : l.length ≤ 5) : Fills b buf mem (l ++ stampText b e) (LogLine.addTime b e buf s) := by
  have hmore := b.more
  have hdate := length_dateText e.tm
  have htext : text (dateFormat []) (e.tm.args []) = dateText e.tm := by
    rw [text_dateFormat, text_nil, append_nil]
  have hdated := h.snprintf hbuf htext (dateText_ne_zero e.tm) (by omega)
  unfold LogLine.addTime stampText
  split_ifs
  · cases e.msec with
    | some msec =>
      have hmsec := length_msecText msec
      rw [← append_assoc]
      refine hdated.snprintf hbuf (text_msec msec) (msecText_ne_zero msec) ?_
      rw [length_append]
      omega
    | none => exact hdated
  · have htick := length_tickText e.tick
    have hput := h.addStrlen hbuf (tickText_ne_zero e.tick) (by omega)
    rw [putTick_eq, append_nil]
    exact hput

theorem Fills.addColor (h : Fills b buf mem (clip b []) s)
    (hbuf : buf + b.lineBufSize + 32 < 2 ^ 32) (level : Nat) :
    Fills b buf mem (clip b (colorText b level)) (LogLine.addColor b buf level s) := by
  unfold LogLine.addColor colorText
  split_ifs
  · cases colorOutputInfo level with
    | some color => exact (h.strcpy hbuf csiStart).strcpy hbuf color
    | none => exact h
  · exact h

section

variable (h : Fills b buf mem (clip b l) s)
include h

section

variable (hbuf : buf + b.lineBufSize + 32 < 2 ^ 32)
include hbuf

/-- A blank comes before a piece, where there is something to set it off from. -/
theorem Fills.blank (c : Bool) : Fills b buf mem (clip b (l ++ if c then [ch ' '] else []))
      (if c then LogLine.strcpy b buf [ch ' '] s else s) := by
  cases c with
  | true => exact h.strcpy hbuf [ch ' ']
  | false =>
    rw [if_neg Bool.false_ne_true, if_neg Bool.false_ne_true, append_nil]
    exact h

theorem Fills.addLevel (hinfo : b.outputLevel = true → (levelOutputInfo level).isSome = true) :
    ∃ s', LogLine.addLevel b buf level s = some s' ∧
      Fills b buf mem (clip b (l ++ levelText b level)) s' := by
  unfold LogLine.addLevel levelText
  by_cases hlevel : b.outputLevel = true
  · obtain ⟨info, heq⟩ := Option.isSome_iff_exists.mp (hinfo hlevel)
    rw [if_pos hlevel, if_pos hlevel, heq, ← append_assoc]
    exact ⟨_, rfl, (h.blank hbuf b.outputTime).strcpy hbuf info⟩
  · rw [if_neg hlevel, if_neg hlevel, append_nil]
    exact ⟨s, rfl, h⟩

theorem Fills.addTag (tag : CString) :
    Fills b buf mem (clip b (l ++ tagText b tag)) (LogLine.addTag b buf tag s) := by
  unfold LogLine.addTag tagText
  by_cases htag : b.outputTag = true
  · rw [if_pos htag, if_pos htag, ← append_assoc]
    exact (h.blank hbuf (!b.outputLevel && b.outputTime)).strcpy hbuf tag.1
  · rw [if_neg htag, if_neg htag, append_nil]
    exact h

end

end

/-- The name is taken in full: what has come before the message may be longer than the line. -/
theorem Fills.addThread
    (h : Fills b buf mem (clip b (colorText b level ++ timeText b e ++ levelText b level ++
      tagText b tag)) s) (hbuf : buf + b.lineBufSize + 32 < 2 ^ 32) :
    (LogLine.addThread b e buf s).len = (named b e level tag).length ∧
      ((named b e level tag).length ≤ b.lineBufSize →
        Fills b buf mem (named b e level tag) (LogLine.addThread b e buf s)) := by
  have hsep := h.blank hbuf (b.outputTime || b.outputLevel || b.outputTag)
  unfold LogLine.addThread named beforeName
  by_cases hthread : b.outputThreadName = true
  · rw [if_pos hthread, if_pos hthread, hthread, Bool.true_and]
    by_cases hnest : e.nest = 0
    · have hname := length_threadName e
      have hclip := length_clip_le b (colorText b level ++ timeText b e ++ levelText b level ++
        tagText b tag ++ if b.outputTime || b.outputLevel || b.outputTag then [ch ' '] else [])
      have hlen := hsep.length
      rw [if_pos hnest, if_pos hnest, length_append, ← hlen]
      rw [add32_eq (by omega), add32_eq (by omega)]
      refine ⟨rfl, fun hle => ?_⟩
      have hmore := hsep.overwritten (t := threadName e) (by omega) le_rfl
      rw [take_length] at hmore
      exact hmore
    · rw [if_neg hnest, if_neg hnest]
      have hisr := hsep.strcpy hbuf [ch 'I', ch 'S', ch 'R']
      exact ⟨hisr.length, fun _ => hisr⟩
  · rw [if_neg hthread, if_neg hthread, Bool.eq_false_iff.mpr hthread, Bool.false_and,
      if_neg Bool.false_ne_true, append_nil]
    exact ⟨h.length, fun _ => h⟩

theorem reserved_bounds (b : Build) : 3 ≤ reserved b ∧ reserved b ≤ 7 := by
  unfold reserved
  split_ifs
  all_goals exact ⟨by decide, by decide⟩

theorem reserve_logLen (hlen : s.len ≤ b.lineBufSize) {n : Nat} (hn : n < 2 ^ 32) :
    reserve b (logLen b s (int32 n)) = min (s.len + n) (b.lineBufSize - reserved b) := by
  have hless := b.less
  have hsum : logLen b s (int32 n) = min (s.len + n) b.lineBufSize := by
    unfold logLen
    dsimp only
    rcases Nat.lt_or_ge n (2 ^ 31) with hsmall | hlarge
    · rw [int32_of_lt hsmall]
      split_ifs with h
      · omega
      · omega
    · have hneg := int32_neg hlarge hn
      rw [if_neg (by omega)]
      omega
  unfold reserve
  split_ifs with h
  · omega
  · omega

/-- Where the message comes to, it does not come round. -/
def Placed (b : Build) (buf p n : Nat) : Prop :=
  buf + p + n < 2 ^ 32 ∨ p = b.lineBufSize ∧ buf + p + n ≤ 2 ^ 32

instance (b : Build) (buf p n : Nat) : Decidable (Placed b buf p n) :=
  inferInstanceAs (Decidable (_ ∨ _))

/-- A message behind a text, cut before the end of the line. -/
theorem Fills.message (h : Fills b buf mem l s) (hbuf : buf + b.lineBufSize + 32 < 2 ^ 32)
    (hle : l.length ≤ b.lineBufSize) (hplaced : Placed b buf l.length (text fmt args).length)
    {q : Nat} (hq : q ≤ l.length + (text fmt args).length) (hlast : q < b.lineBufSize) :
    Fills b buf mem ((l ++ text fmt args).take q)
      { mem := (rtVsnprintf s.mem (add32 buf s.len) (sub32 b.lineBufSize s.len) fmt args).1
        len := q } := by
  have hlen := h.length
  have hat : add32 buf s.len = buf + s.len := add32_eq (by omega)
  have hsize : sub32 b.lineBufSize s.len = b.lineBufSize - s.len := sub32_eq (by omega) (by omega)
  rw [hat, hsize]
  rcases Nat.lt_or_eq_of_le hle with hlt | hfull
  · have hend : buf + l.length + (text fmt args).length < 2 ^ 32 := by
      rcases hplaced with hp | hp
      · exact hp
      · exact absurd hp.1 (by omega)
    rw [rtVsnprintf_fst _ (by omega) (by omega) (by omega)]
    obtain ⟨t, ht⟩ : ∃ t, t = text fmt args := ⟨_, rfl⟩
    rw [← ht] at hq ⊢
    have hcut : (cut (b.lineBufSize - s.len) t).length =
        min (b.lineBufSize - s.len - 1) t.length + 1 := by
      rw [cut, length_append, length_take, length_singleton]
    have hmore := h.overwritten (t := cut (b.lineBufSize - s.len) t)
      (n := min (b.lineBufSize - s.len - 1) t.length) (by omega) (by omega)
    have htaken : (cut (b.lineBufSize - s.len) t).take (min (b.lineBufSize - s.len - 1) t.length) =
        t.take (b.lineBufSize - s.len - 1) := take_left' length_take
    rw [htaken] at hmore
    have hcutted := hmore.truncate (n := q) (by
      rw [length_append, length_take]
      omega)
    have hsame : (l ++ t.take (b.lineBufSize - s.len - 1)).take q = (l ++ t).take q := by
      rw [take_append, take_append, take_take]
      congr 2
      omega
    rw [hsame] at hcutted
    exact hcutted
  · have hnone := rtVsnprintf_none s.mem (buf + s.len) fmt args (by omega)
      (by rcases hplaced with hp | hp <;> omega)
    have hzero : b.lineBufSize - s.len = 0 := by omega
    have htake : (l ++ text fmt args).take q = l.take q :=
      take_append_of_le_length (by omega)
    rw [hzero, hnone, htake]
    exact h.truncate (by omega)

/-- What comes behind the message. -/
def behind (b : Build) (level : Nat) (newline : Bool) : List UInt8 :=
  (if newline then newlineSign else []) ++
    if b.usingColor && (colorOutputInfo level).isSome then csiEnd else []

theorem behind_ne_zero (b : Build) (level : Nat) (newline : Bool) : 0 ∉ behind b level newline := by
  have hnewline : ∀ c : Bool, 0 ∉ if c then newlineSign else [] := by decide
  have hcolor : ∀ c : Bool, 0 ∉ if c then csiEnd else [] := by decide
  rw [behind, mem_append, not_or]
  exact ⟨hnewline newline, hcolor _⟩

theorem length_behind (b : Build) (level : Nat) (newline : Bool) :
    (behind b level newline).length + 1 ≤ reserved b := by
  have hall : ∀ color newline info : Bool,
      ((if newline then newlineSign else []) ++ if color && info then csiEnd else []).length + 1 ≤
        (if color then csiEnd.length else 0) + newlineSign.length + 1 := by decide
  exact hall b.usingColor newline (colorOutputInfo level).isSome

theorem Fills.optional (h : Fills b buf mem (clip b l) s) (hbuf : buf + b.lineBufSize + 32 < 2 ^ 32)
    (c : Bool) (src : List UInt8) : Fills b buf mem (clip b (l ++ if c then src else []))
      (if c then LogLine.strcpy b buf src s else s) := by
  cases c with
  | true => exact h.strcpy hbuf src
  | false =>
    rw [if_neg Bool.false_ne_true, if_neg Bool.false_ne_true, append_nil]
    exact h

theorem Fills.finish (h : Fills b buf mem l s) (hbuf : buf + b.lineBufSize + 32 < 2 ^ 32)
    (hle : l.length ≤ b.lineBufSize - reserved b) (level : Nat) (newline : Bool) :
    Fills b buf mem (l ++ behind b level newline) (LogLine.finish b buf level newline s) ∧
      (LogLine.finish b buf level newline s).mem
        (buf + (l ++ behind b level newline).length) = 0 := by
  have hmore := b.more
  have hreserved := reserved_bounds b
  have hbehind := length_behind b level newline
  have hall : (l ++ behind b level newline).length ≤ b.lineBufSize := by
    rw [length_append]
    omega
  have hclip : Fills b buf mem (clip b l) s := by
    rw [clip_of_le (by omega)]
    exact h
  have hpieces := (hclip.optional hbuf newline newlineSign).optional hbuf
    (b.usingColor && (colorOutputInfo level).isSome) csiEnd
  rw [append_assoc] at hpieces
  change Fills b buf mem (clip b (l ++ behind b level newline)) _ at hpieces
  rw [clip_of_le hall] at hpieces
  refine ⟨hpieces.terminate hbuf hall, ?_⟩
  rw [← hpieces.length]
  exact terminate_mem _ (by rw [hpieces.length]; omega)

/-- The line that is put together, where what comes before the message fits. -/
def line (b : Build) (e : Env) (level : Nat) (tag : CString) (newline : Bool) (t : List UInt8) :
    List UInt8 :=
  (head b e level tag ++ t).take (b.lineBufSize - reserved b) ++ behind b level newline

theorem Fills.addMessage (h : Fills b buf mem (named b e level tag) s)
    (hbuf : buf + b.lineBufSize + 32 < 2 ^ 32)
    (hle : (named b e level tag).length ≤ b.lineBufSize) (newline : Bool)
    (hplaced : Placed b buf (head b e level tag).length (text fmt args).length) :
    let s' := LogLine.addMessage b buf level newline fmt args s
    Fills b buf mem (line b e level tag newline (text fmt args)) s' ∧
      s'.mem (buf + (line b e level tag newline (text fmt args)).length) = 0 := by
  have hmore := b.more
  have hreserved := reserved_bounds b
  have hclip : Fills b buf mem (clip b (named b e level tag)) s := by
    rw [clip_of_le hle]
    exact h
  have hhead := hclip.strcpy hbuf [ch ':', ch ' ']
  have hlen := hhead.length
  have hheadle : (head b e level tag).length ≤ b.lineBufSize := length_clip_le b _
  change Fills b buf mem (head b e level tag) _ at hhead
  change _ = (head b e level tag).length at hlen
  have hn : (text fmt args).length < 2 ^ 32 := by
    rcases hplaced with hp | hp <;> omega
  have hbody := hhead.message hbuf hheadle hplaced
    (q := min ((head b e level tag).length + (text fmt args).length) (b.lineBufSize - reserved b))
    (Nat.min_le_left ..) (by omega)
  have htake : (head b e level tag ++ text fmt args).take
      (min ((head b e level tag).length + (text fmt args).length) (b.lineBufSize - reserved b)) =
      (head b e level tag ++ text fmt args).take (b.lineBufSize - reserved b) := by
    rw [Nat.min_comm, ← length_append]
    exact take_eq_take_min.symm
  rw [htake, hlen] at hbody
  have hat : add32 buf (LogLine.strcpy b buf [ch ':', ch ' '] s).len < 2 ^ 32 := add32_lt ..
  unfold LogLine.addMessage
  dsimp only
  rw [rtVsnprintf_snd _ hat, reserve_logLen (by omega) hn, hlen]
  exact hbody.finish hbuf (by rw [length_take]; omega) level newline

theorem finish_alike {a : Nat} {s' : Line} (h : Line.Alike a s s') (level : Nat) (newline : Bool) :
    Line.Alike a (finish b buf level newline s) (finish b buf level newline s') := by
  have hpiece : ∀ (c : Bool) (src : List UInt8) {s s' : Line}, Line.Alike a s s' →
      Line.Alike a (if c then strcpy b buf src s else s)
        (if c then strcpy b buf src s' else s') := by
    intro c src s s' h
    cases c with
    | true => exact h.strcpy b buf src
    | false => exact h
  exact (hpiece _ csiEnd (hpiece newline newlineSign h)).terminate

/-- Lines of one length are alike where the message leaves them alike. -/
theorem addMessage_alike {a p : Nat} {s' : Line} (newline : Bool)
    (hs : (strcpy b buf [ch ':', ch ' '] s).len = p)
    (hs' : (strcpy b buf [ch ':', ch ' '] s').len = p)
    (h : ∀ mem mem', (rtVsnprintf mem (add32 buf p) (sub32 b.lineBufSize p) fmt args).1 a =
      (rtVsnprintf mem' (add32 buf p) (sub32 b.lineBufSize p) fmt args).1 a) :
    Line.Alike a (addMessage b buf level newline fmt args s)
      (addMessage b buf level newline fmt args s') := by
  unfold addMessage
  dsimp only
  rw [hs, hs', rtVsnprintf_snd _ (add32_lt ..), rtVsnprintf_snd _ (add32_lt ..)]
  apply finish_alike
  refine ⟨?_, h _ _⟩
  unfold logLen
  rw [hs, hs']

end

end RtKernel.LogLine

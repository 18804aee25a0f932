import RtKernel.Mem.Copy
import RtKernel.Ulog.Ends

/-!
# Dumping bytes into the log

`ulog_hexdump` passes on one line for each `width` bytes. The first line begins with the time and
the tag, the others with as many blanks.
-/

open List

namespace RtKernel.LogLine

open Print

/-- The arguments of `ulog_hexdump`. -/
structure Dump where
  tag : CString
  width : Nat
  buf : Nat → UInt8
  size : Nat
  widthLt : width < 2 ^ 32
  sizeLt : size < 2 ^ 32

/-- The line, `time_head_len`, and what has been passed on. -/
structure Hex where
  line : Line
  timeHeadLen : Nat
  passed : List Line

/-- `"%04X"` -/
def fourDigits : List UInt8 := [ch '%', ch '0', ch '4', ch 'X']

/-- `"%04X-%04X: "` -/
def addressFormat : List UInt8 := fourDigits ++ ch '-' :: (fourDigits ++ [ch ':', ch ' '])

/-- The string in `dump_string[8]`. -/
def dumpString (fmt : List UInt8) (args : Args) : List UInt8 :=
  ((text fmt args).take 7).takeWhile fun c => c ≠ 0

/-- `__is_print`. -/
def isPrint (c : UInt8) : Bool := sub32 c.toNat 32 < 127 - 32

section

variable (b : Build) (e : Env) (buf : Nat) (d : Dump)

/-- The time before the first line. -/
def hexTime (s : Line) : Line :=
  if b.timeUsingTimestamp then
    if b.usingSoftRtc then
      snprintf buf (sub32 b.lineBufSize s.len) (dateFormat (ch '.' :: (threeDigits ++ [ch ' '])))
        (e.tm.args [e.tick % 1000]) s
    else snprintf buf (sub32 b.lineBufSize s.len) (dateFormat [ch ' ']) (e.tm.args []) s
  else putTick buf e.tick [ch ' '] s

/-- `"D/HEX "` -/
def hexSign : List UInt8 := [ch 'D', ch '/', ch 'H', ch 'E', ch 'X', ch ' ']

/-- "package header", in the first line. -/
def firstHead (h : Hex) : Hex :=
  let h :=
    if b.outputTime then
      let s := hexTime b e buf h.line
      let timeHeadLen := zeroTerminated s.mem (add32 buf s.len) (2 ^ 32)
      { h with line := { s with len := add32 s.len timeHeadLen }, timeHeadLen }
    else h
  let s := strcpy b buf d.tag.1 (strcpy b buf hexSign h.line)
  { h with line := strcpy b buf [ch ':', ch ' '] s }

/-- "package header", in the other lines. -/
def nextHead (h : Hex) : Hex :=
  let len := add32 (add32 6 d.tag.1.length) 2
  let len := if b.outputTime then add32 len h.timeHeadLen else len
  { h with line := { mem := Kservice.rtMemset h.line.mem buf 32 len, len } }

/-- The words that the addresses of a line are. -/
def addressArgs (i : Nat) : Args := wordArgs [.ofNat 32 i, .ofNat 32 i + .ofNat 32 d.width - 1]

/-- The addresses of a line, for which `ULOG_LINE_BUF_SIZE` bytes are taken to be there. -/
def addAddresses (i : Nat) (s : Line) : Line :=
  let r := rtVsnprintf s.mem (add32 buf s.len) b.lineBufSize addressFormat (addressArgs d i)
  { mem := r.1
    len := if -1 < r.2 ∧ r.2 ≤ b.lineBufSize then add32 s.len r.2.toNat else b.lineBufSize }

/-- "dump hex" -/
def addHex (i j : Nat) (s : Line) : Line :=
  let dump :=
    if add32 i j < d.size then
      dumpString [ch '%', ch '0', ch '2', ch 'X', ch ' ']
        (wordArgs [.ofNat 32 (d.buf (add32 i j)).toNat])
    else [ch ' ', ch ' ', ch ' ']
  let s := strcpy b buf dump s
  if (j + 1) % 8 = 0 then strcpy b buf [ch ' '] s else s

/-- "dump char for hex" -/
def addChar (i j : Nat) (s : Line) : Line :=
  if add32 i j < d.size then
    let c := d.buf (add32 i j)
    strcpy b buf
      (dumpString [ch '%', ch 'c'] (wordArgs [.ofNat 32 (if isPrint c then c else ch '.').toNat])) s
  else s

/-- What comes behind the addresses. -/
def addBytes (i : Nat) (s : Line) : Line :=
  let s := (List.range d.width).foldl (fun s j => addHex b buf d i j s) s
  let s := strcpy b buf [ch ' ', ch ' '] s
  let s := (List.range d.width).foldl (fun s j => addChar b buf d i j s) s
  let len := if b.lineBufSize < add32 s.len 2 then b.lineBufSize - 2 else s.len
  terminate buf (strcpy b buf newlineSign { s with len })

/-- One turn of the loop. -/
def hexLine (i : Nat) (h : Hex) : Hex :=
  let h := if i = 0 then firstHead b e buf d h else nextHead b buf d h
  let s := addBytes b buf d i (addAddresses b buf d i h.line)
  { h with line := s, passed := h.passed ++ [s] }

/-- The loop, for so many turns at most. -/
def hexLoop : Nat → Nat → Hex → Option Hex
  | 0, i, h => if i < d.size then none else some h
  | fuel + 1, i, h =>
    if i < d.size then hexLoop fuel (add32 i d.width) (hexLine b e buf d i h) else some h

/-- `ulog_hexdump`. -/
def ulogHexdump (fuel : Nat) (mem : Nat → UInt8) : Option Hex :=
  let h : Hex := { line := { mem, len := 0 }, timeHeadLen := 0, passed := [] }
  if e.initOk then if e.filtered then some h else hexLoop b e buf d fuel 0 h else none

end

/-- The time before the first line. -/
def hexTimeText (b : Build) (e : Env) : List UInt8 :=
  if b.timeUsingTimestamp then
    if b.usingSoftRtc then dateText e.tm ++ (msecText (e.tick % 1000) ++ [ch ' '])
    else dateText e.tm ++ [ch ' ']
  else tickText e.tick ++ [ch ' ']

/-- The time, where lines begin with it. -/
def hexTimeHead (b : Build) (e : Env) : List UInt8 := if b.outputTime then hexTimeText b e else []

/-- The head of the first line. -/
def hexHead (b : Build) (e : Env) (tag : CString) : List UInt8 :=
  hexTimeHead b e ++ hexSign ++ tag.1 ++ [ch ':', ch ' ']

/-- The addresses of a line. -/
def addressText (d : Dump) (i : Nat) : List UInt8 :=
  padded (.ofNat 32 i) 16 4 zeroLarge ++ ch '-' ::
    (padded (.ofNat 32 i + .ofNat 32 d.width - 1) 16 4 zeroLarge ++ [ch ':', ch ' '])

section

variable {b : Build} {e : Env} {buf : Nat} {d : Dump} {mem : Nat → UInt8} {l : List UInt8}
  {s : Line} {h : Hex} {i : Nat}

theorem text_addressFormat (d : Dump) (i : Nat) :
    text addressFormat (addressArgs d i) = addressText d i := by
  have hfour : ∀ rest w ws, text (fourDigits ++ rest) (wordArgs (w :: ws)) =
      padded w 16 4 zeroLarge ++ text rest (wordArgs ws) := fun rest w ws => text_04X rest _
  unfold addressFormat addressArgs addressText
  rw [hfour, text_literal (by decide) (by decide), hfour, text_literal (by decide) (by decide),
    text_literal (by decide) (by decide), text_nil]

theorem addressText_ne_zero (d : Dump) (i : Nat) : 0 ∉ addressText d i := by
  have hfour : ∀ w, 0 ∉ padded w 16 4 zeroLarge := fun w => padded_ne_zero w 16 4 zeroLarge
  have hdash : 0 ≠ ch '-' := by decide
  have hcolon : 0 ≠ ch ':' := by decide
  have hblank : 0 ≠ ch ' ' := by decide
  simp [addressText, hfour, hdash, hcolon, hblank]

theorem length_addressText (d : Dump) (i : Nat) :
    3 ≤ (addressText d i).length ∧ (addressText d i).length ≤ 25 := by
  have hfour : ∀ w, (padded w 16 4 zeroLarge).length ≤ 11 :=
    fun w => length_padded_le w 16 (by decide) zeroLarge
  have h₀ := hfour (.ofNat 32 i)
  have h₁ := hfour (.ofNat 32 i + .ofNat 32 d.width - 1)
  simp only [addressText, length_append, length_cons, length_nil]
  omega

theorem hexTimeText_spec (b : Build) (e : Env) :
    0 ∉ hexTimeText b e ∧ (hexTimeText b e).length ≤ 72 := by
  have hdate := length_dateText e.tm
  have hmsec := length_msecText (e.tick % 1000)
  have htick := length_tickText e.tick
  have hblank : 0 ≠ ch ' ' := by decide
  unfold hexTimeText
  split_ifs
  · refine ⟨?_, ?_⟩
    · simp [dateText_ne_zero, msecText_ne_zero, hblank]
    · simp only [length_append, length_singleton]
      omega
  · refine ⟨?_, ?_⟩
    · simp [dateText_ne_zero, hblank]
    · simp only [length_append, length_singleton]
      omega
  · refine ⟨?_, ?_⟩
    · simp [tickText_ne_zero, hblank]
    · simp only [length_append, length_singleton]
      omega

theorem hexHead_ne_zero (b : Build) (e : Env) (tag : CString) : 0 ∉ hexHead b e tag := by
  have htime : 0 ∉ hexTimeHead b e := by
    unfold hexTimeHead
    split_ifs
    · exact (hexTimeText_spec b e).1
    · exact not_mem_nil
  have hsign : 0 ∉ hexSign := by decide
  have hcolon : 0 ≠ ch ':' := by decide
  have hblank : 0 ≠ ch ' ' := by decide
  have htag := tag.2.1
  simp [hexHead, htime, hsign, htag, hcolon, hblank]

theorem length_hexHead (b : Build) (e : Env) (tag : CString) :
    (hexHead b e tag).length = (hexTimeHead b e).length + 6 + tag.1.length + 2 := by
  have hsign : hexSign.length = 6 := rfl
  simp only [hexHead, length_append, hsign, length_cons, length_nil]

section

variable (hbuf : buf + b.lineBufSize + 32 < 2 ^ 32)
include hbuf

theorem hexTime_eq (hlen : s.len = 0) : hexTime b e buf s =
      { s with mem := overwritten s.mem (add32 buf s.len) (hexTimeText b e ++ [0]) } := by
  have hmore := b.more
  have hspec := (hexTimeText_spec b e).2
  unfold hexTime hexTimeText at *
  split_ifs at hspec ⊢
  · apply snprintf_eq hbuf
    · have hthree : text (threeDigits ++ [ch ' ']) (wordArgs [e.tick % 1000]) =
          padded (e.tick % 1000) 10 3 zeroSigned ++ text [ch ' '] (wordArgs []) := text_zeropad _ _ (.inr rfl)
      rw [text_dateFormat, text_literal (by decide) (by decide), hthree,
        text_literal (by decide) (by decide), text_nil]
      rfl
    · rw [hlen]
      omega
  · apply snprintf_eq hbuf
    · rw [text_dateFormat, text_literal (by decide) (by decide), text_nil]
    · rw [hlen]
      omega
  · exact putTick_eq e.tick [ch ' '] s

/-- The head of the first line, which is cut at the end of the line. -/
theorem firstHead_fills (hfills : Fills b buf mem [] h.line) (hnone : h.timeHeadLen = 0) :
    Fills b buf mem (clip b (hexHead b e d.tag)) (firstHead b e buf d h).line ∧
      (firstHead b e buf d h).passed = h.passed ∧
      (firstHead b e buf d h).timeHeadLen = (hexTimeHead b e).length := by
  have hmore := b.more
  have hspec := hexTimeText_spec b e
  have hlen : h.line.len = 0 := hfills.length
  obtain ⟨h₁, hh₁⟩ : ∃ h₁, h₁ = if b.outputTime then
      ({ h with
          line := addStrlen buf (hexTime b e buf h.line)
          timeHeadLen := zeroTerminated (hexTime b e buf h.line).mem
            (add32 buf (hexTime b e buf h.line).len) (2 ^ 32) } : Hex) else h := ⟨_, rfl⟩
  have htime : Fills b buf mem (clip b (hexTimeHead b e)) h₁.line ∧ h₁.passed = h.passed ∧
      h₁.timeHeadLen = (hexTimeHead b e).length := by
    by_cases houtput : b.outputTime = true
    · have htext : hexTimeHead b e = hexTimeText b e := if_pos houtput
      rw [hh₁, if_pos houtput, htext, hexTime_eq hbuf hlen,
        clip_of_le (show (hexTimeText b e).length ≤ b.lineBufSize by omega)]
      have hadd := hfills.addStrlen (t := hexTimeText b e) hbuf hspec.1
        (by rw [length_nil]; omega)
      exact ⟨hadd, rfl, (overwritten_stringAt _ _ hspec.1).zeroTerminated (by omega)⟩
    · have hempty : hexTimeHead b e = [] := if_neg houtput
      rw [hh₁, if_neg houtput, hempty, clip, take_nil]
      exact ⟨hfills, rfl, hnone⟩
  have hfirst : firstHead b e buf d h = { h₁ with
      line := strcpy b buf [ch ':', ch ' ']
        (strcpy b buf d.tag.1 (strcpy b buf hexSign h₁.line)) } := by
    rw [hh₁]
    rfl
  rw [hfirst]
  refine ⟨?_, htime.2⟩
  exact ((htime.1.strcpy hbuf hexSign).strcpy hbuf d.tag.1).strcpy hbuf [ch ':', ch ' ']

end

/-- The head of the other lines: blanks, as many as the head of the first has characters. -/
theorem nextHead_fills (buf : Nat) (hle : (hexHead b e d.tag).length ≤ b.lineBufSize)
    (htime : h.timeHeadLen = (hexTimeHead b e).length)
    (hframe : ∀ a, a < buf ∨ buf + b.lineBufSize < a → h.line.mem a = mem a) :
    Fills b buf mem (List.replicate (hexHead b e d.tag).length (ch ' '))
      (nextHead b buf d h).line := by
  have hless := b.less
  have hhead := length_hexHead b e d.tag
  have hlen : (if b.outputTime then add32 (add32 (add32 6 d.tag.1.length) 2) h.timeHeadLen
      else add32 (add32 6 d.tag.1.length) 2) = (hexHead b e d.tag).length := by
    have hsum : add32 (add32 6 d.tag.1.length) 2 = 6 + d.tag.1.length + 2 := by
      rw [add32_eq (show 6 + d.tag.1.length < 2 ^ 32 by omega), add32_eq (by omega)]
    rw [hsum]
    split_ifs with houtput
    · rw [htime, add32_eq (by omega)]
      omega
    · have hnone : hexTimeHead b e = [] := if_neg houtput
      rw [hhead, hnone, length_nil]
  unfold nextHead
  dsimp only
  rw [hlen, Kservice.rtMemset_eq]
  refine ⟨length_replicate.symm, fun k hk => ?_, fun a ha => ?_⟩
  · rw [length_replicate] at hk
    rw [getElem_replicate]
    exact if_pos ⟨by omega, by omega⟩
  · rw [← hframe a ha]
    apply if_neg
    omega

section

variable (hbuf : buf + b.lineBufSize + 32 < 2 ^ 32)
include hbuf

/-- The addresses are written as a whole, whatever there is room for. -/
theorem addAddresses_eq (hle : s.len ≤ b.lineBufSize) : addAddresses b buf d i s =
      { mem := overwritten s.mem (buf + s.len) (addressText d i ++ [0])
        len := s.len + (addressText d i).length } := by
  have hmore := b.more
  have haddress := length_addressText d i
  have hat : add32 buf s.len = buf + s.len := add32_eq (by omega)
  have haddressable : Addressable (buf + s.len) b.lineBufSize
      (text addressFormat (addressArgs d i)).length := by
    rw [text_addressFormat]
    unfold Addressable
    omega
  have hwhole := rtVsnprintf_whole s.mem haddressable (by omega) (by omega)
    (by rw [text_addressFormat]; omega)
  rw [text_addressFormat] at hwhole
  unfold addAddresses
  rw [hat, hwhole]
  dsimp only
  rw [if_pos (by omega), Int.toNat_natCast, add32_eq (by omega)]

theorem addAddresses_fills (hfills : Fills b buf mem l s)
    (hle : l.length + (addressText d i).length ≤ b.lineBufSize) :
    Fills b buf mem (l ++ addressText d i) (addAddresses b buf d i s) := by
  have hlen := hfills.length
  have hmore := hfills.overwritten (t := addressText d i ++ [0]) (n := (addressText d i).length)
    (by rw [length_append, length_singleton]; omega) (by simp)
  rw [take_left] at hmore
  rw [addAddresses_eq hbuf (by omega)]
  exact hmore

theorem addAddresses_end {s' : Line} (hlen : s.len = s'.len) (hle : s.len ≤ b.lineBufSize) :
    Line.Alike (buf + s.len + (addressText d i).length) (addAddresses b buf d i s)
      (addAddresses b buf d i s') := by
  rw [addAddresses_eq hbuf hle, addAddresses_eq hbuf (hlen ▸ hle), ← hlen]
  refine ⟨rfl, overwritten_congr (.inl ⟨Nat.le_add_right _ _, ?_⟩)⟩
  rw [length_append, length_singleton]
  omega

end

/-- A line has some text, cut at its end, without a terminator. -/
def Clean (b : Build) (buf : Nat) (mem : Nat → UInt8) (s : Line) : Prop :=
  ∃ l, 0 ∉ l ∧ Fills b buf mem (clip b l) s

theorem Clean.strcpy (h : Clean b buf mem s) (hbuf : buf + b.lineBufSize + 32 < 2 ^ 32)
    {src : List UInt8} (hsrc : 0 ∉ src) : Clean b buf mem (strcpy b buf src s) := by
  obtain ⟨l, hl, hfills⟩ := h
  refine ⟨l ++ src, ?_, hfills.strcpy hbuf src⟩
  rw [mem_append, not_or]
  exact ⟨hl, hsrc⟩

theorem dumpString_ne_zero (fmt : List UInt8) (args : Args) : 0 ∉ dumpString fmt args := by
  intro hmem
  simpa using mem_takeWhile_imp hmem

theorem Clean.addHex (h : Clean b buf mem s) (hbuf : buf + b.lineBufSize + 32 < 2 ^ 32)
    (i j : Nat) : Clean b buf mem (addHex b buf d i j s) := by
  have hblanks : 0 ∉ [ch ' ', ch ' ', ch ' '] := by decide
  have hblank : 0 ∉ [ch ' '] := by decide
  unfold LogLine.addHex
  dsimp only
  split_ifs
  · exact (h.strcpy hbuf (dumpString_ne_zero _ _)).strcpy hbuf hblank
  · exact (h.strcpy hbuf hblanks).strcpy hbuf hblank
  · exact h.strcpy hbuf (dumpString_ne_zero _ _)
  · exact h.strcpy hbuf hblanks

theorem Clean.addChar (h : Clean b buf mem s) (hbuf : buf + b.lineBufSize + 32 < 2 ^ 32)
    (i j : Nat) : Clean b buf mem (addChar b buf d i j s) := by
  unfold LogLine.addChar
  split_ifs
  · exact h.strcpy hbuf (dumpString_ne_zero _ _)
  · exact h

/-- The bytes, the newline and the terminator behind the addresses. -/
theorem Clean.addBytes (h : Clean b buf mem s) (hbuf : buf + b.lineBufSize + 32 < 2 ^ 32)
    (i : Nat) : ∃ l, 0 ∉ l ∧ Fills b buf mem l (addBytes b buf d i s) ∧
      (addBytes b buf d i s).mem (buf + l.length) = 0 := by
  have hmore := b.more
  have hblanks : 0 ∉ [ch ' ', ch ' '] := by decide
  have hsign : 0 ∉ newlineSign := by decide
  have hhex := List.foldlRecOn (motive := Clean b buf mem) (List.range d.width)
    (fun s j => LogLine.addHex b buf d i j s) h fun s hs j _ => hs.addHex hbuf i j
  have hchars := List.foldlRecOn (motive := Clean b buf mem) (List.range d.width)
    (fun s j => LogLine.addChar b buf d i j s) (hhex.strcpy hbuf hblanks)
    fun s hs j _ => hs.addChar hbuf i j
  obtain ⟨s₁, hs₁⟩ : ∃ s₁, s₁ =
      (List.range d.width).foldl (fun s j => LogLine.addChar b buf d i j s)
        (LogLine.strcpy b buf [ch ' ', ch ' ']
          ((List.range d.width).foldl (fun s j => LogLine.addHex b buf d i j s) s)) := ⟨_, rfl⟩
  rw [← hs₁] at hchars
  obtain ⟨l, hl, hfills⟩ := hchars
  have hlen := hfills.length
  have hclip := length_clip_le b l
  obtain ⟨n, hn⟩ : ∃ n, n = if b.lineBufSize < add32 s₁.len 2 then b.lineBufSize - 2 else s₁.len :=
    ⟨_, rfl⟩
  have hadd : add32 s₁.len 2 = s₁.len + 2 := add32_eq (by omega)
  have hcut := hfills.truncate (n := n) (by rw [hn]; split_ifs <;> omega)
  have hshort : ((clip b l).take n).length + 2 ≤ b.lineBufSize := by
    rw [length_take, hn]
    split_ifs <;> omega
  have hzero : 0 ∉ (clip b l).take n ++ newlineSign := by
    rw [mem_append, not_or]
    exact ⟨fun hmem => hl (mem_of_mem_take (mem_of_mem_take hmem)), hsign⟩
  have hall : ((clip b l).take n ++ newlineSign).length ≤ b.lineBufSize := by
    rw [length_append]
    exact hshort
  rw [← clip_of_le (show ((clip b l).take n).length ≤ b.lineBufSize by omega)] at hcut
  have hnewline := hcut.strcpy hbuf newlineSign
  rw [clip_of_le hall] at hnewline
  have hend := terminate_mem (LogLine.strcpy b buf newlineSign { s₁ with len := n })
    (show buf + _ < 2 ^ 32 by rw [hnewline.length]; omega)
  rw [hnewline.length] at hend
  have hbytes : LogLine.addBytes b buf d i s =
      terminate buf (LogLine.strcpy b buf newlineSign { s₁ with len := n }) := by
    rw [hn, hs₁]
    rfl
  rw [hbytes]
  exact ⟨_, hzero, hnewline.terminate hbuf hall, hend⟩

theorem Line.Alike.withLen {a : Nat} {s' : Line} (h : Line.Alike a s s') (f : Nat → Nat) :
    Line.Alike a { s with len := f s.len } { s' with len := f s'.len } :=
  ⟨congrArg f h.1, h.2⟩

theorem addBytes_alike {a : Nat} {s' : Line} (h : Line.Alike a s s') (i : Nat) :
    Line.Alike a (addBytes b buf d i s) (addBytes b buf d i s') := by
  have hhex := foldl_rel (l := List.range d.width) (r := Line.Alike a) h
    (f := fun s j => addHex b buf d i j s) (g := fun s j => addHex b buf d i j s) (by
      intro j _ s s' h
      unfold addHex
      dsimp only
      split_ifs
      · exact (h.strcpy ..).strcpy ..
      · exact (h.strcpy ..).strcpy ..
      · exact h.strcpy ..
      · exact h.strcpy ..)
  have hchars := foldl_rel (l := List.range d.width) (r := Line.Alike a)
    (hhex.strcpy b buf [ch ' ', ch ' '])
    (f := fun s j => addChar b buf d i j s) (g := fun s j => addChar b buf d i j s) (by
      intro j _ s s' h
      unfold addChar
      split_ifs
      · exact h.strcpy ..
      · exact h)
  have hcut := hchars.withLen fun len =>
    if b.lineBufSize < add32 len 2 then b.lineBufSize - 2 else len
  exact (hcut.strcpy b buf newlineSign).terminate

end

end RtKernel.LogLine

import Mathlib.Data.List.TakeDrop
import Mathlib.Data.List.TakeWhile
import RtKernel.Core.Decimal
import RtKernel.Mem.Strings

/-!
# The window size of a terminal

The shell asks its terminal for the window size and takes the answer apart, between the first
two semicolons and from there to the `t`. There is no result where an array is accessed outside
its bounds.
-/

open List Option

namespace RtKernel.Serial

open Decimal Kservice.Chars

/-- `struct winsize`. -/
structure Winsize where
  wsRow : Nat
  wsCol : Nat
  wsXpixel : Nat
  wsYpixel : Nat
  deriving DecidableEq

namespace Winsize

/-- `_TIO_BUFLEN`. -/
def tioBuflen : Nat := 20

def semicolon : UInt8 := 59

def letterT : UInt8 := 116

/-- The characters that come in are stored up to a `t`, with the cursor `i` afterwards. -/
def receive (getchar : Nat → UInt8) : Nat → Nat → List UInt8 → List UInt8 × Nat
  | 0, i, buf => (buf, i)
  | n + 1, i, buf =>
    let buf := buf.set i (getchar i)
    if getchar i ≠ letterT then receive getchar n (i + 1) buf else (buf, i)

/-- The cursor goes on to a semicolon; the character is read before the bound is tested. -/
def skipTo (buf : List UInt8) (cnt : Nat) : Option Nat :=
  if hcnt : cnt < buf.length then
    if buf[cnt] ≠ semicolon ∧ cnt < tioBuflen then skipTo buf (cnt + 1) else some cnt
  else none
termination_by buf.length - cnt

/-- So many characters from the cursor on are copied to the place `p` of an array of four. -/
def copyField (buf : List UInt8) : Nat → Nat → Nat → List UInt8 → Option (List UInt8)
  | 0, _, _, field => some field
  | n + 1, cnt, p, field =>
    match buf[cnt]? with
    | none => none
    | some c => if p < 4 then copyField buf n (cnt + 1) (p + 1) (field.set p c) else none

def isSpace (c : UInt8) : Bool := c = 32 || 9 ≤ c && c ≤ 13

/-- The sign of a number, and what comes after it. -/
def sign : List UInt8 → Bool × List UInt8
  | [] => (false, [])
  | c :: cells =>
    if c = 45 then (true, cells) else if c = 43 then (false, cells) else (false, c :: cells)

/-- What `atoi` stops at, with the rest. -/
def afterNumber (cells : List UInt8) : List UInt8 :=
  (sign (cells.dropWhile isSpace)).2.dropWhile isDigit

/-- `atoi` of an array, as an `unsigned short`. -/
def atoi (cells : List UInt8) : Option Nat :=
  if afterNumber cells = [] then none
  else
    let (minus, rest) := sign (cells.dropWhile isSpace)
    let n := decimal (rest.takeWhile isDigit)
    some (if minus then (2 ^ 16 - n % 2 ^ 16) % 2 ^ 16 else n % 2 ^ 16)

def zeros (n : Nat) : List UInt8 := List.replicate n 0

/-- `rt_serial_control` with `TIOCGWINSZ`. -/
def tiocgwinsz (tshell : Bool) (getchar : Nat → UInt8) (size : Winsize) : Option Winsize :=
  if tshell = false then some { wsCol := 80, wsRow := 24, wsXpixel := 0, wsYpixel := 0 }
  else
    let (buf, i) := receive getchar tioBuflen 0 (zeros tioBuflen)
    if i = tioBuflen then some { size with wsCol := 80, wsRow := 24 }
    else
      (skipTo buf 0).bind fun cnt1 =>
      (skipTo buf (cnt1 + 1)).bind fun cnt2 =>
      (copyField buf (cnt2 - (cnt1 + 1)) (cnt1 + 1) 0 (zeros 4)).bind fun rowS =>
      (rtStrlen buf).bind fun len =>
      -- the length of an empty string, less one, is 255 as an `unsigned char`
      let cnt3 := (len + 255) % 256
      (copyField buf (cnt3 - (cnt2 + 1)) (cnt2 + 1) 0 (zeros 4)).bind fun colS =>
      (atoi colS).bind fun col =>
      (atoi rowS).map fun row =>
        { wsCol := col, wsRow := row, wsXpixel := 0, wsYpixel := 0 }

/-- What the terminal sends before the first `t`, as far as the buffer goes. -/
def response (getchar : Nat → UInt8) : List UInt8 :=
  ((List.range tioBuflen).map getchar).takeWhile (· ≠ letterT)

/-- What is copied as columns from a place on: up to the last character of the string. -/
def columns (text : List UInt8) (start : Nat) : List UInt8 :=
  ((text ++ [letterT]).takeWhile (· ≠ 0)).dropLast.drop start

/-- A field that fits into an array of four, where `atoi` stops before the end of the array. -/
def Fits (field : List UInt8) : Prop :=
  field.length < 4 ∨ field.length = 4 ∧ afterNumber field ≠ []

/-- Answers that are taken apart within the bounds. -/
structure Parts (text head row rest : List UInt8) : Prop where
  split : text = head ++ semicolon :: (row ++ semicolon :: rest)
  head : semicolon ∉ head
  row : semicolon ∉ row

/-- Without a `t` in time; or with two semicolons before it, fields that fit, a first character, and
room for the NUL after the `t` unless there is one before. -/
def Harmless (text : List UInt8) : Prop :=
  text.length = tioBuflen ∨
    ∃ head row rest, Parts text head row rest ∧ Fits row ∧
      (text.length + 1 < tioBuflen ∨ 0 ∈ text) ∧ text.head? ≠ some 0 ∧
      Fits (columns text (head.length + row.length + 2))

variable {text : List UInt8}

/-- What is received is stored, with the `t` and zeros behind it where there is room. -/
theorem receive_eq (getchar : Nat → UInt8) (n i : Nat) (pre : List UInt8) (hpre : pre.length = i)
    (htext : ((List.range' i n).map getchar).takeWhile (· ≠ letterT) = text) :
    receive getchar n i (pre ++ zeros n) =
      (pre ++ text ++ (if text.length < n then letterT :: zeros (n - text.length - 1) else []),
        i + text.length) := by
  induction n generalizing i pre text with
  | zero =>
    rw [← htext]
    simp [receive, zeros]
  | succ n ih =>
    have hset : (pre ++ zeros (n + 1)).set i (getchar i) = pre ++ getchar i :: zeros n := by
      rw [← hpre]
      simp [zeros, replicate_succ]
    rw [receive, hset]
    rw [range'_succ, map_cons, takeWhile_cons] at htext
    by_cases hc : getchar i = letterT
    · rw [if_neg (by simp [hc])] at htext
      rw [← htext, hc]
      simp
    · rw [if_pos (by simp [hc])] at htext
      have hlength : (pre ++ [getchar i]).length = i + 1 := by
        rw [length_append, hpre]
        rfl
      have hnext := ih (i + 1) (pre ++ [getchar i]) hlength rfl
      rw [append_assoc, singleton_append] at hnext
      rw [if_pos hc, hnext, ← htext]
      simp [Nat.add_assoc, Nat.add_comm 1]

variable {getchar : Nat → UInt8}

theorem receive_response
    (htext : response getchar = text) (hshort : text.length < tioBuflen) :
    receive getchar tioBuflen 0 (zeros tioBuflen) =
      (text ++ letterT :: zeros (tioBuflen - text.length - 1), text.length) := by
  have hreceive := receive_eq getchar tioBuflen 0 [] rfl htext
  rw [if_pos hshort, Nat.zero_add] at hreceive
  exact hreceive

theorem length_response_le (getchar : Nat → UInt8) : (response getchar).length ≤ tioBuflen := by
  rw [response]
  generalize hl : (List.range tioBuflen).map getchar = l
  have hlength := congrArg List.length hl
  rw [length_map, length_range] at hlength
  exact hlength ▸ (takeWhile_sublist _).length_le

theorem skipTo_semicolon (pre mid post : List UInt8) (hmid : semicolon ∉ mid)
    (hlength : (pre ++ (mid ++ semicolon :: post)).length ≤ tioBuflen) :
    skipTo (pre ++ (mid ++ semicolon :: post)) pre.length = some (pre.length + mid.length) := by
  induction mid generalizing pre with
  | nil =>
    rw [skipTo, dif_pos (by simp), if_neg (by simp)]
    rfl
  | cons c mid ih =>
    obtain ⟨hc, hmid⟩ := ne_and_not_mem_of_not_mem_cons hmid
    have hpos : pre.length < (pre ++ (c :: mid ++ semicolon :: post)).length := by simp
    have hget : (pre ++ (c :: mid ++ semicolon :: post))[pre.length] = c := by simp
    rw [skipTo, dif_pos hpos, if_pos ⟨hget.trans_ne hc.symm, Nat.lt_of_lt_of_le hpos hlength⟩]
    have hassoc : pre ++ (c :: mid ++ semicolon :: post) =
        (pre ++ [c]) ++ (mid ++ semicolon :: post) := by simp
    have hnext := ih (pre ++ [c]) hmid (by rwa [hassoc] at hlength)
    rw [length_append, length_singleton] at hnext
    rw [hassoc, hnext, length_cons, Nat.add_assoc, Nat.add_comm 1]

/-- Without a semicolon a cursor leaves the buffer. -/
theorem skipTo_outside (pre rest : List UInt8) (hrest : semicolon ∉ rest)
    (hlength : (pre ++ rest).length ≤ tioBuflen) : skipTo (pre ++ rest) pre.length = none := by
  induction rest generalizing pre with
  | nil => rw [skipTo, dif_neg (by simp)]
  | cons c rest ih =>
    obtain ⟨hc, hrest⟩ := ne_and_not_mem_of_not_mem_cons hrest
    have hpos : pre.length < (pre ++ c :: rest).length := by simp
    have hget : (pre ++ c :: rest)[pre.length] = c := by simp
    rw [skipTo, dif_pos hpos, if_pos ⟨hget.trans_ne hc.symm, Nat.lt_of_lt_of_le hpos hlength⟩]
    have hassoc : pre ++ c :: rest = (pre ++ [c]) ++ rest := by simp
    have hnext := ih (pre ++ [c]) hrest (by rwa [hassoc] at hlength)
    rw [length_append, length_singleton] at hnext
    rw [hassoc, hnext]

variable {buf : List UInt8} {field : List UInt8} {l : List UInt8}

theorem copyField_eq (n cnt p : Nat) (field : List UInt8)
    (hfield : field.length = 4) (hin : cnt + n ≤ buf.length) (hp : p + n ≤ 4) :
    copyField buf n cnt p field =
      some (field.take p ++ (buf.drop cnt).take n ++ field.drop (p + n)) := by
  induction n generalizing cnt p field with
  | zero => simp [copyField]
  | succ n ih =>
    have hcnt : cnt < buf.length := by omega
    rw [copyField, List.getElem?_eq_getElem hcnt]
    dsimp only
    rw [if_pos (by omega), ih (cnt + 1) (p + 1) _ (by simpa using hfield) (by omega) (by omega)]
    rw [drop_eq_getElem_cons hcnt, take_succ_cons]
    have htake : (field.set p buf[cnt]).take (p + 1) = field.take p ++ [buf[cnt]] := by
      rw [take_set, take_add_one, List.getElem?_eq_getElem (by omega)]
      rw [set_append_right _ _ (length_take_le p field)]
      simp [Nat.min_eq_left (by omega : p ≤ field.length)]
    have hdrop : (field.set p buf[cnt]).drop (p + 1 + n) = field.drop (p + (n + 1)) := by
      rw [drop_set_of_lt (by omega), Nat.add_assoc, Nat.add_comm 1]
    rw [htake, hdrop]
    simp

theorem copyField_long {n cnt p : Nat} (hp : p ≤ 4)
    (hlong : 4 < p + n) : copyField buf n cnt p field = none := by
  induction n generalizing cnt p field with
  | zero => omega
  | succ n ih =>
    rw [copyField]
    cases buf[cnt]? with
    | none => rfl
    | some c =>
      dsimp only
      split
      · exact ih (by omega) (by omega)
      · rfl

theorem copyField_zeros (n cnt : Nat) (hin : cnt + n ≤ buf.length ∨ 4 < n) :
    copyField buf n cnt 0 (zeros 4) =
      if n ≤ 4 then some ((buf.drop cnt).take n ++ zeros (4 - n)) else none := by
  by_cases hn : n ≤ 4
  · rw [if_pos hn, copyField_eq n cnt 0 _ rfl (hin.resolve_right (by omega)) (by omega)]
    simp only [zeros, take_zero, nil_append, Nat.zero_add, drop_replicate]
  · rw [if_neg hn, copyField_long (by omega) (by omega)]

theorem idxOf_nul (text : List UInt8) (k : Nat) (h : 0 ∈ text ++ zeros k) :
    (text ++ zeros k).idxOf 0 = (text.takeWhile (· ≠ 0)).length := by
  induction text with
  | nil =>
    obtain ⟨k, rfl⟩ := Nat.exists_eq_succ_of_ne_zero fun hk : k = 0 => by simp [hk, zeros] at h
    simp [zeros, replicate_succ]
  | cons c text ih =>
    rw [cons_append] at h ⊢
    by_cases hc : c = 0
    · simp [hc]
    · rw [idxOf_cons_ne _ hc, takeWhile_cons_of_pos (by simpa using hc)]
      exact congrArg Nat.succ (ih (mem_of_ne_of_mem (Ne.symm hc) h))

/-- `rt_strlen` counts what is before the first NUL. -/
theorem rtStrlen_eq (text : List UInt8) (k : Nat) : rtStrlen (text ++ letterT :: zeros k) =
      if 0 < k ∨ 0 ∈ text then some ((text ++ [letterT]).takeWhile (· ≠ 0)).length else none := by
  have hmem : (0 : UInt8) ∈ text ++ letterT :: zeros k ↔ 0 < k ∨ 0 ∈ text := by
    have hT : (0 : UInt8) ≠ letterT := by decide
    simp [zeros, hT, Nat.pos_iff_ne_zero, or_comm]
  rw [rtStrlen]
  simp only [hmem]
  split
  · next hnul =>
    rw [← hmem] at hnul
    have hassoc : text ++ letterT :: zeros k = (text ++ [letterT]) ++ zeros k := by simp
    rw [hassoc] at hnul ⊢
    rw [idxOf_nul _ _ hnul]
  · rfl

theorem zero_mem_afterNumber {cells : List UInt8} (h : 0 ∈ cells) : 0 ∈ afterNumber cells := by
  have hdrop : ∀ {p : UInt8 → Bool} {l : List UInt8}, p 0 = false → 0 ∈ l → 0 ∈ l.dropWhile p := by
    intro p l hp hl
    induction l with
    | nil => exact hl
    | cons c l ih =>
      rw [dropWhile_cons]
      split
      · next hc =>
        rcases mem_cons.mp hl with rfl | hl
        · rw [hp] at hc
          cases hc
        · exact ih hl
      · exact hl
  have hsign : ∀ {l : List UInt8}, 0 ∈ l → 0 ∈ (sign l).2 := by
    intro l hl
    cases l with
    | nil => exact hl
    | cons c l =>
      rw [sign]
      split
      · next hc =>
        subst hc
        simpa using hl
      · split
        · next hc =>
          subst hc
          simpa using hl
        · exact hl
  exact hdrop (by decide) (hsign (hdrop (by decide) h))

/-- `atoi` stops within an array of four just when the field leaves room, or has something after the
number. -/
theorem atoi_isSome_iff (hfield : field.length ≤ 4) :
    (atoi (field ++ zeros (4 - field.length))).isSome = true ↔ Fits field := by
  have hsome : (atoi (field ++ zeros (4 - field.length))).isSome = true ↔
      afterNumber (field ++ zeros (4 - field.length)) ≠ [] := by
    rw [atoi]
    split
    · next hnil => simp [hnil]
    · next hnil => simp [hnil]
  rw [hsome, Fits]
  rcases Nat.lt_or_eq_of_le hfield with hlt | heq
  · refine iff_of_true ?_ (.inl hlt)
    apply ne_nil_of_mem (zero_mem_afterNumber _)
    rw [mem_append, zeros, mem_replicate]
    exact .inr ⟨by omega, rfl⟩
  · rw [heq, zeros]
    simp

section Handler

variable {getchar : Nat → UInt8} {text head row rest : List UInt8}

/-- Without a `t` in time the size is the default one. -/
theorem tiocgwinsz_overlong (htext : (response getchar).length = tioBuflen) (size : Winsize) :
    tiocgwinsz true getchar size = some { size with wsCol := 80, wsRow := 24 } := by
  have hreceive := receive_eq getchar tioBuflen 0 [] rfl rfl
  have hresponse := htext
  rw [response, range_eq_range'] at hresponse
  rw [hresponse] at hreceive
  have hcursor : (receive getchar tioBuflen 0 (zeros tioBuflen)).2 = tioBuflen :=
    congrArg Prod.snd hreceive
  rw [tiocgwinsz, if_neg (by decide)]
  dsimp only
  rw [if_pos hcursor]

/-- Without two semicolons the cursors leave the buffer. -/
theorem tiocgwinsz_outside (htext : response getchar = text) (hshort : text.length < tioBuflen)
    (hparts : ∀ head row rest, ¬ Parts text head row rest) (size : Winsize) :
    tiocgwinsz true getchar size = none := by
  have hT : ∀ {l : List UInt8} {k : Nat}, semicolon ∉ l → semicolon ∉ l ++ letterT :: zeros k := by
    intro l k hl
    have hne : semicolon ≠ letterT := by decide
    have hzero : semicolon ≠ 0 := by decide
    simp [hl, hne, hzero, zeros]
  have hlength : (text ++ letterT :: zeros (tioBuflen - text.length - 1)).length ≤ tioBuflen := by
    simp [zeros]
    omega
  rw [tiocgwinsz, if_neg (by decide), receive_response htext hshort]
  dsimp only
  rw [if_neg (Nat.ne_of_lt hshort)]
  by_cases hfirst : semicolon ∈ text
  · obtain ⟨head, tail, rfl, hhead⟩ := eq_append_cons_of_mem hfirst
    rw [append_assoc, cons_append] at hlength ⊢
    have hcnt1 := skipTo_semicolon [] head _ hhead hlength
    rw [nil_append, length_nil, Nat.zero_add] at hcnt1
    rw [hcnt1, bind_some]
    by_cases hsecond : semicolon ∈ tail
    · obtain ⟨row, rest, rfl, hrow⟩ := eq_append_cons_of_mem hsecond
      exact absurd ⟨rfl, hhead, hrow⟩ (hparts head row rest)
    · have hassoc : ∀ l : List UInt8, head ++ semicolon :: l = (head ++ [semicolon]) ++ l := by simp
      rw [hassoc] at hlength
      have hcnt2 := skipTo_outside (head ++ [semicolon]) _ (hT hsecond) hlength
      have hlength1 : (head ++ [semicolon]).length = head.length + 1 := by simp
      rw [hlength1] at hcnt2
      rw [hassoc, hcnt2, bind_none]
  · have hcnt1 := skipTo_outside [] _ (hT hfirst) hlength
    rw [nil_append, length_nil] at hcnt1
    rw [hcnt1, bind_none]

/-- The string that is in the buffer. -/
def visible (text : List UInt8) : List UInt8 := (text ++ [letterT]).takeWhile (· ≠ 0)

theorem visible_eq_nil_iff : visible text = [] ↔ text.head? = some 0 := by
  have hT : letterT ≠ 0 := by decide
  unfold visible
  cases text with
  | nil => simp [hT]
  | cons c text => simp [takeWhile_cons]

theorem length_columns (text : List UInt8) (start : Nat) :
    (columns text start).length = (visible text).length - 1 - start := by
  rw [columns, length_drop, length_dropLast, visible]

/-- What lies in the buffer where the columns are copied from. -/
theorem take_drop_columns (text : List UInt8) (start k : Nat) :
    ((text ++ letterT :: zeros k).drop start).take ((visible text).length - 1 - start) =
      columns text start := by
  have hassoc : text ++ letterT :: zeros k = (text ++ [letterT]) ++ zeros k := by simp
  have hprefix : visible text <+: (text ++ [letterT]) ++ zeros k :=
    (List.takeWhile_prefix _).trans (prefix_append _ _)
  have htake : visible text = ((text ++ [letterT]) ++ zeros k).take (visible text).length :=
    prefix_iff_eq_take.mp hprefix
  have hlast : (visible text).dropLast =
      ((text ++ [letterT]) ++ zeros k).take ((visible text).length - 1) := by
    have hshorter := congrArg (List.take ((visible text).length - 1)) htake
    rw [take_take, Nat.min_eq_left (Nat.sub_le _ _)] at hshorter
    rw [dropLast_eq_take, hshorter]
  rw [hassoc, columns, ← visible, hlast, drop_take]

theorem tiocgwinsz_parts (htext : response getchar = text) (hshort : text.length < tioBuflen)
    (hparts : Parts text head row rest) (size : Winsize) : tiocgwinsz true getchar size =
      let cols := columns text (head.length + row.length + 2)
      if row.length ≤ 4 ∧ (text.length + 1 < tioBuflen ∨ 0 ∈ text) ∧ text.head? ≠ some 0 ∧
          cols.length ≤ 4 then
        (atoi (cols ++ zeros (4 - cols.length))).bind fun col =>
          (atoi (row ++ zeros (4 - row.length))).map fun row =>
            { wsCol := col, wsRow := row, wsXpixel := 0, wsYpixel := 0 }
      else none := by
  obtain ⟨hsplit, hhead, hrow⟩ := hparts
  have hlengths : text.length = head.length + row.length + 2 + rest.length := by
    rw [hsplit]
    simp
    omega
  have hvisible : (visible text).length ≤ text.length + 1 := by
    have hle := (takeWhile_sublist (· ≠ 0) (l := text ++ [letterT])).length_le
    rwa [length_append] at hle
  generalize hk : tioBuflen - text.length - 1 = k
  have hlength : (text ++ letterT :: zeros k).length = tioBuflen := by
    simp [zeros]
    omega
  -- the cursors stop at the two semicolons
  have hbuf1 : text ++ letterT :: zeros k =
      [] ++ (head ++ semicolon :: (row ++ semicolon :: (rest ++ letterT :: zeros k))) := by
    rw [hsplit]
    simp
  have hcnt1 : skipTo (text ++ letterT :: zeros k) 0 = some head.length := by
    have hskip := skipTo_semicolon [] head _ hhead (hbuf1 ▸ Nat.le_of_eq hlength)
    rwa [← hbuf1, length_nil, Nat.zero_add] at hskip
  have hbuf2 : text ++ letterT :: zeros k =
      (head ++ [semicolon]) ++ (row ++ semicolon :: (rest ++ letterT :: zeros k)) := by
    rw [hsplit]
    simp
  have hcnt2 : skipTo (text ++ letterT :: zeros k) (head.length + 1) =
      some (head.length + 1 + row.length) := by
    have hskip := skipTo_semicolon (head ++ [semicolon]) row _ hrow (hbuf2 ▸ Nat.le_of_eq hlength)
    rwa [← hbuf2, length_append, length_singleton] at hskip
  -- what is between them is copied
  have hrowS : copyField (text ++ letterT :: zeros k) row.length (head.length + 1) 0 (zeros 4) =
      if row.length ≤ 4 then some (row ++ zeros (4 - row.length)) else none := by
    have hin : head.length + 1 + row.length ≤ (text ++ letterT :: zeros k).length := by omega
    have hdrop : (text ++ letterT :: zeros k).drop (head.length + 1) =
        row ++ semicolon :: (rest ++ letterT :: zeros k) := by
      rw [hbuf2]
      simp
    rw [copyField_zeros _ _ (.inl hin), hdrop, take_left']
    rfl
  have hkpos : 0 < k ↔ text.length + 1 < tioBuflen := by omega
  rw [tiocgwinsz, if_neg (by decide), receive_response htext hshort]
  dsimp only
  rw [if_neg (Nat.ne_of_lt hshort), hk, hcnt1, bind_some, hcnt2, bind_some,
    Nat.add_sub_cancel_left, hrowS, rtStrlen_eq, ← visible]
  simp only [hkpos]
  by_cases hfit : row.length ≤ 4
  · rw [if_pos hfit, bind_some]
    by_cases hnul : text.length + 1 < tioBuflen ∨ 0 ∈ text
    · rw [if_pos hnul, bind_some]
      have hstart : head.length + 1 + row.length + 1 = head.length + row.length + 2 := by omega
      rw [hstart]
      by_cases hempty : visible text = []
      · have hlong : copyField (text ++ letterT :: zeros k) (255 - (head.length + row.length + 2))
            (head.length + row.length + 2) 0 (zeros 4) = none :=
          copyField_long (Nat.zero_le 4) (by simp only [tioBuflen] at hshort; omega)
        rw [hempty, if_neg fun hno => hno.2.2.1 (visible_eq_nil_iff.mp hempty)]
        show (copyField _ (255 - _) _ _ _).bind _ = none
        rw [hlong, bind_none]
      · have hpos : 0 < (visible text).length := length_pos_iff.mpr hempty
        have hcnt3 : ((visible text).length + 255) % 256 = (visible text).length - 1 := by
          simp only [tioBuflen] at hshort
          omega
        rw [hcnt3, copyField_zeros _ _ (.inl (by omega)), take_drop_columns, ← length_columns]
        have hhead0 : text.head? ≠ some 0 := fun hno => hempty (visible_eq_nil_iff.mpr hno)
        by_cases hcols : (columns text (head.length + row.length + 2)).length ≤ 4
        · rw [if_pos hcols, if_pos ⟨hfit, hnul, hhead0, hcols⟩, bind_some]
        · rw [if_neg hcols, if_neg fun hno => hcols hno.2.2.2, bind_none]
    · rw [if_neg hnul, bind_none, if_neg fun hno => hnul hno.2.1]
  · rw [if_neg hfit, bind_none, if_neg fun hno => hfit hno.1]

/-- The handler stays within its arrays just for harmless answers. -/
theorem isSome_tiocgwinsz_iff (getchar : Nat → UInt8) (size : Winsize) :
    (tiocgwinsz true getchar size).isSome = true ↔ Harmless (response getchar) := by
  generalize htext : response getchar = text
  have hle := length_response_le getchar
  rw [htext] at hle
  rcases Nat.lt_or_eq_of_le hle with hshort | hlong
  · by_cases hparts : ∃ head row rest, Parts text head row rest
    · constructor
      · intro hsome
        obtain ⟨head, row, rest, hparts⟩ := hparts
        rw [tiocgwinsz_parts htext hshort hparts] at hsome
        dsimp only at hsome
        split at hsome
        · next hfit =>
          obtain ⟨hrow, hnul, hhead, hcols⟩ := hfit
          rw [Option.isSome_bind] at hsome
          obtain ⟨col, hcol, hmap⟩ := (Option.any_eq_true ..).mp hsome
          rw [Option.isSome_map] at hmap
          have hcolS := Option.isSome_iff_exists.mpr ⟨col, hcol⟩
          exact .inr ⟨head, row, rest, hparts, (atoi_isSome_iff hrow).mp hmap, hnul, hhead,
            (atoi_isSome_iff hcols).mp hcolS⟩
        · cases hsome
      · intro hharmless
        obtain hlong | ⟨head, row, rest, hparts, hrow, hnul, hhead, hcols⟩ := hharmless
        · exact absurd hlong (Nat.ne_of_lt hshort)
        · have hfour : ∀ {field : List UInt8}, Fits field → field.length ≤ 4 := by
            intro field hfield
            obtain hlt | ⟨heq, -⟩ := hfield
            · exact Nat.le_of_lt hlt
            · exact Nat.le_of_eq heq
          obtain ⟨col, hcol⟩ :=
            Option.isSome_iff_exists.mp ((atoi_isSome_iff (hfour hcols)).mpr hcols)
          obtain ⟨r, hr⟩ := Option.isSome_iff_exists.mp ((atoi_isSome_iff (hfour hrow)).mpr hrow)
          rw [tiocgwinsz_parts htext hshort hparts]
          rw [if_pos ⟨hfour hrow, hnul, hhead, hfour hcols⟩, hcol, hr]
          rfl
    · have hnone : ∀ head row rest, ¬ Parts text head row rest := fun head row rest hno =>
        hparts ⟨head, row, rest, hno⟩
      rw [tiocgwinsz_outside htext hshort hnone]
      refine iff_of_false Bool.false_ne_true fun hharmless => ?_
      obtain hlong | ⟨head, row, rest, hyes, -⟩ := hharmless
      · exact absurd hlong (Nat.ne_of_lt hshort)
      · exact hnone head row rest hyes
  · rw [tiocgwinsz_overlong (htext ▸ hlong)]
    exact iff_of_true rfl (.inl hlong)

end Handler

/-- `ESC [ 8`. -/
def escape : List UInt8 := [27, 91, 56]

/-- `ESC [ 8 ; rows ; cols t`. -/
def answer (rows cols : List UInt8) : List UInt8 :=
  escape ++ semicolon :: (rows ++ semicolon :: (cols ++ [letterT]))

theorem not_space_of_isDigit {c : UInt8} (h : isDigit c = true) :
    isSpace c = false ∧ c ≠ 45 ∧ c ≠ 43 := by
  have hlow := (isDigit_iff.mp h).1
  refine ⟨?_, ?_, ?_⟩
  · simp only [isSpace, Bool.or_eq_false_iff, Bool.and_eq_false_iff, decide_eq_false_iff_not,
      UInt8.le_iff_toNat_le]
    refine ⟨fun hc => ?_, .inr fun hc => ?_⟩
    · rw [hc] at hlow
      exact absurd hlow (by decide)
    · exact absurd (hlow.trans hc) (by decide)
  all_goals
    rintro rfl
    exact absurd hlow (by decide)

/-- There is nothing before the digits of a number. -/
theorem sign_digits (h : Digits l) (k : Nat) :
    sign ((l ++ zeros k).dropWhile isSpace) = (false, l ++ zeros k) := by
  cases l with
  | nil =>
    cases k with
    | zero => rfl
    | succ k => rfl
  | cons c l =>
    obtain ⟨hspace, hminus, hplus⟩ := not_space_of_isDigit (h c (.head _))
    rw [cons_append, dropWhile_cons_of_neg (by simp [hspace]), sign, if_neg hminus,
      if_neg hplus]

theorem atoi_digits (h : Digits l) (hlength : l.length ≤ 4) :
    atoi (l ++ zeros (4 - l.length)) = if l.length ≤ 3 then some (decimal l) else none := by
  have hzeros : ∀ k, (zeros k).takeWhile isDigit = [] ∧ (zeros k).dropWhile isDigit = zeros k := by
    intro k
    cases k with
    | zero | succ k => exact ⟨rfl, rfl⟩
  have hdrop : (l ++ zeros (4 - l.length)).dropWhile isDigit = zeros (4 - l.length) := by
    rw [dropWhile_append_of_pos h, (hzeros _).2]
  have htake : (l ++ zeros (4 - l.length)).takeWhile isDigit = l := by
    rw [takeWhile_append_of_pos h, (hzeros _).1, append_nil]
  rw [atoi, afterNumber, sign_digits h]
  dsimp only
  rw [hdrop, htake]
  by_cases hroom : l.length ≤ 3
  · have hsmall : decimal l < 2 ^ 16 :=
      (decimal_lt h).trans_le ((Nat.pow_le_pow_right (by decide) hroom).trans (by decide))
    have hne : zeros (4 - l.length) ≠ [] := by
      rw [zeros, Ne, replicate_eq_nil_iff]
      omega
    rw [if_neg hne, if_pos hroom, if_neg Bool.false_ne_true, Nat.mod_eq_of_lt hsmall]
  · have heq : 4 - l.length = 0 := by omega
    have hnil : zeros (4 - l.length) = [] := by
      rw [heq]
      rfl
    rw [if_pos hnil, if_neg hroom]

/-- What the handler makes of a well-formed answer. -/
theorem tiocgwinsz_answer {rows cols : List UInt8} (hrows : Digits rows)
    (hcols : Digits cols) (hanswer : answer rows cols <+: (List.range tioBuflen).map getchar)
    (size : Winsize) : tiocgwinsz true getchar size =
      if rows.length ≤ 3 ∧ cols.length ≤ 3 then
        some { wsRow := decimal rows, wsCol := decimal cols, wsXpixel := 0, wsYpixel := 0 }
      else none := by
  have htext : ∀ c ∈ escape ++ semicolon :: (rows ++ semicolon :: cols),
      c ≠ letterT ∧ c ≠ 0 := by
    have hdigits : ∀ {l : List UInt8}, Digits l → ∀ c ∈ l, c ≠ letterT ∧ c ≠ 0 := by
      intro l hl c hc
      refine ⟨?_, ?_⟩
      all_goals
        rintro rfl
        exact hl.notMem (by decide) hc
    intro c hc
    rw [mem_append, mem_cons, mem_append, mem_cons] at hc
    obtain hc | rfl | hc | rfl | hc := hc
    · have hT : letterT ∉ escape := by decide
      have hnul : (0 : UInt8) ∉ escape := by decide
      exact ⟨fun h => hT (h ▸ hc), fun h => hnul (h ▸ hc)⟩
    · decide
    · exact hdigits hrows c hc
    · decide
    · exact hdigits hcols c hc
  have hassoc : answer rows cols =
      (escape ++ semicolon :: (rows ++ semicolon :: cols)) ++ [letterT] := by simp [answer]
  generalize hsplit : escape ++ semicolon :: (rows ++ semicolon :: cols) = text at htext hassoc
  obtain ⟨tail, htail⟩ := hanswer
  rw [hassoc, append_assoc, singleton_append] at htail
  have hresponse : response getchar = text := by
    rw [response, ← htail, takeWhile_append_of_pos (by simpa using fun c hc => (htext c hc).1),
      takeWhile_cons_of_neg (by simp), append_nil]
  have hshort : text.length < tioBuflen := by
    have hlength := congrArg List.length htail
    rw [length_append, length_map, length_range, length_cons] at hlength
    omega
  have hparts : Parts text escape rows cols :=
    ⟨hsplit.symm, by decide, hrows.notMem (by decide)⟩
  have hcolumns : columns text (escape.length + rows.length + 2) = cols := by
    have hall : ∀ c ∈ text ++ [letterT], decide (c ≠ 0) = true := by
      intro c hc
      rw [decide_eq_true_eq]
      rcases mem_append.mp hc with hc | hc
      · exact (htext c hc).2
      · rw [mem_singleton.mp hc]
        decide
    rw [columns, takeWhile_eq_self_iff.mpr hall, dropLast_concat, ← hsplit]
    have hfields : escape ++ semicolon :: (rows ++ semicolon :: cols) =
        (escape ++ semicolon :: (rows ++ [semicolon])) ++ cols := by simp
    rw [hfields]
    apply drop_left'
    simp
    omega
  have hlength : text.length = rows.length + cols.length + 5 := by
    rw [← hsplit]
    simp [escape]
    omega
  have hhead : text.head? ≠ some 0 := by
    rw [← hsplit]
    exact fun hno => absurd (some.inj hno) (by decide)
  rw [tiocgwinsz_parts hresponse hshort hparts]
  dsimp only
  rw [hcolumns]
  by_cases hfit : rows.length ≤ 3 ∧ cols.length ≤ 3
  · obtain ⟨hrow, hcol⟩ := hfit
    have hroom : text.length + 1 < tioBuflen := by
      rw [tioBuflen]
      omega
    rw [if_pos ⟨by omega, .inl hroom, hhead, by omega⟩, atoi_digits hcols (by omega),
      atoi_digits hrows (by omega), if_pos hcol, if_pos hrow, if_pos ⟨hrow, hcol⟩]
    rfl
  · rw [if_neg hfit]
    split
    · next hin =>
      rw [atoi_digits hcols hin.2.2.2, atoi_digits hrows hin.1]
      by_cases hcol : cols.length ≤ 3
      · rw [if_pos hcol, if_neg fun hrow => hfit ⟨hrow, hcol⟩]
        rfl
      · rw [if_neg hcol]
        rfl
    · rfl

/-- The handler stays within its arrays just for harmless answers, and it stores the rows and the
columns of a well-formed answer that fits into the buffer just when neither has more than three
digits. -/
theorem tiocgwinsz_correct_iff (getchar : Nat → UInt8) (size : Winsize) :
    ((tiocgwinsz true getchar size).isSome = true ↔ Harmless (response getchar)) ∧
      ∀ rows cols, Digits rows → Digits cols →
        answer rows cols <+: (List.range tioBuflen).map getchar →
          (tiocgwinsz true getchar size =
              some { wsRow := decimal rows, wsCol := decimal cols, wsXpixel := 0, wsYpixel := 0 } ↔
            rows.length ≤ 3 ∧ cols.length ≤ 3) := by
  refine ⟨isSome_tiocgwinsz_iff getchar size, fun rows cols hrows hcols hanswer => ?_⟩
  rw [tiocgwinsz_answer hrows hcols hanswer]
  split
  · next hfit => exact iff_of_true rfl hfit
  · next hfit => exact iff_of_false (fun hno => by cases hno) hfit

/-- A terminal that answers with these characters. -/
def typed (text : List UInt8) : Nat → UInt8 := fun i => text.getD i 0

/-- A terminal with 24 rows and 80 columns. -/
theorem tiocgwinsz_correct_small :
    tiocgwinsz true (typed (answer [50, 52] [56, 48])) ⟨0, 0, 0, 0⟩ =
      some { wsRow := 24, wsCol := 80, wsXpixel := 0, wsYpixel := 0 } := by
  have hrows : Digits [50, 52] := by decide
  have hcols : Digits [56, 48] := by decide
  have hprefix : answer [50, 52] [56, 48] <+:
      (List.range tioBuflen).map (typed (answer [50, 52] [56, 48])) := by decide
  exact ((tiocgwinsz_correct_iff _ ⟨0, 0, 0, 0⟩).2 [50, 52] [56, 48] hrows hcols hprefix).mpr
    (by decide)

/-- With a `t` alone the first cursor reads behind the buffer. -/
theorem bare_outside :
    ¬ ∀ getchar size, (tiocgwinsz true getchar size).isSome = true := by
  intro hall
  have hsome := hall (typed [letterT]) ⟨0, 0, 0, 0⟩
  rw [tiocgwinsz_outside (show response (typed [letterT]) = [] by decide) (by decide)] at hsome
  · cases hsome
  · rintro head row rest ⟨hsplit, -, -⟩
    exact absurd hsplit.symm (List.append_ne_nil_of_right_ne_nil _ (List.cons_ne_nil _ _))

end Winsize

end RtKernel.Serial

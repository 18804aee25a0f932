import RtKernel.Core.Cells
import Mathlib.Data.UInt

/-!
# Commands of the shell

`msh_auto_complete` and `msh_exec` on the line of the shell, without `DFS_USING_POSIX`. What
a command does is left out, and so is what is printed; but a string that is printed is read
to its end. There is no result where the line is read or written outside its array.
-/

open List Option

namespace RtKernel.Finsh

/-- An entry of the command table. -/
structure FinshSyscall where
  name : List UInt8
  nul : 0 ∉ name

def finshCmdSize : Nat := 80

def finshArgMax : Nat := 10

/-- `' '`, `'\t'`, `'"'` and `'\\'`. -/
def space : UInt8 := 0x20
def tab : UInt8 := 0x09
def quote : UInt8 := 0x22
def backslash : UInt8 := 0x5c

def isBlank (c : UInt8) : Bool := c = space ∨ c = tab

def strCommon : List UInt8 → List UInt8 → Nat
  | a :: str1, b :: str2 => if a = b then strCommon str1 str2 + 1 else 0
  | _, _ => 0

/-- What `name_ptr` and `min_length` are after an entry; `name_ptr` is `NULL` where there is none. -/
def complete (word : List UInt8) (found : Option (List UInt8 × Nat)) (cmdName : List UInt8) :
    Option (List UInt8 × Nat) :=
  if word <+: cmdName then
    let first :=
      match found with
      | some (namePtr, minLength) =>
        if minLength = 0 then (cmdName, cmdName.length) else (namePtr, minLength)
      | none => (cmdName, cmdName.length)
    some (first.1, min first.2 (strCommon first.1 cmdName))
  else found

def mshAutoComplete (table : List FinshSyscall) (text : List UInt8) : Option (List UInt8) :=
  (Cells.string text 0).bind fun word =>
    if word = [] then some text
    else
      match (table.map FinshSyscall.name).foldl (complete word) none with
      | some (namePtr, minLength) => Cells.writeBlock text 0 (namePtr.take minLength)
      | none => some text

/-- Blanks are overwritten; `n` bytes are left of the command. -/
def strip : (n : Nat) → (text : List UInt8) → (ptr : Nat) → Option (List UInt8 × Nat)
  | 0, text, ptr => text[ptr]?.map fun _ => (text, ptr)
  | n + 1, text, ptr =>
    text[ptr]?.bind fun c =>
      if isBlank c then (Cells.write text ptr 0).bind fun text => strip n text (ptr + 1)
      else some (text, ptr)

/-- Where a string in quotes ends. -/
def skipString (text : List UInt8) : (n : Nat) → (ptr : Nat) → Option Nat
  | 0, ptr => text[ptr]?.map fun _ => ptr
  | n + 1, ptr =>
    text[ptr]?.bind fun c =>
      if c = quote then some ptr
      else if c = backslash then
        text[ptr + 1]?.bind fun d =>
          if d = quote then
            match n with
            | 0 => text[ptr + 2]?.map fun _ => ptr + 2
            | n + 1 => skipString text n (ptr + 2)
          else skipString text n (ptr + 1)
      else skipString text n (ptr + 1)

/-- Where a word ends. -/
def skipWord (text : List UInt8) : (n : Nat) → (ptr : Nat) → Option Nat
  | 0, ptr => text[ptr]?.map fun _ => ptr
  | n + 1, ptr =>
    text[ptr]?.bind fun c => if isBlank c then some ptr else skipWord text n (ptr + 1)

/-- `msh_split` up to the byte `stop`, with `free` more arguments allowed: the line, and where the
arguments begin. -/
def mshSplit : (free stop : Nat) → (text : List UInt8) → (ptr : Nat) → (argv : List Nat) →
    Option (List UInt8 × List Nat)
  | 0, stop, text, ptr, argv =>
    if ptr < stop then
      (strip (stop - ptr) text ptr).bind fun r =>
        (argv.mapM (Cells.string r.1)).map fun _ => (r.1, argv)
    else some (text, argv)
  | free + 1, stop, text, ptr, argv =>
    if ptr < stop then
      (strip (stop - ptr) text ptr).bind fun r =>
        if stop ≤ r.2 then some (r.1, argv)
        else
          r.1[r.2]?.bind fun c =>
            if c = quote then
              (skipString r.1 (stop - (r.2 + 1)) (r.2 + 1)).bind fun ptr =>
                if stop ≤ ptr then some (r.1, argv ++ [r.2 + 1])
                else
                  (Cells.write r.1 ptr 0).bind fun text =>
                    mshSplit free stop text (ptr + 1) (argv ++ [r.2 + 1])
            else
              (skipWord r.1 (stop - r.2) r.2).bind fun ptr =>
                if stop ≤ ptr then some (r.1, argv ++ [r.2])
                else mshSplit free stop r.1 ptr (argv ++ [r.2])
    else some (text, argv)

/-- `_msh_exec_cmd` for the bytes from `cmd` up to `stop`: whether a command was found, and the line. -/
def mshExecCmd (table : List FinshSyscall) (text : List UInt8) (cmd stop : Nat) :
    Option (Bool × List UInt8) :=
  (skipWord text (stop - cmd) cmd).bind fun ptr =>
    if ptr = cmd then some (false, text)
    else if (text.drop cmd).take (ptr - cmd) ∈ table.map FinshSyscall.name then
      (mshSplit finshArgMax stop text cmd []).map fun r => (r.2 ≠ [], r.1)
    else some (false, text)

/-- Where the command begins. -/
def trim (text : List UInt8) : (n : Nat) → (cmd : Nat) → Option Nat
  | 0, cmd => some cmd
  | n + 1, cmd => text[cmd]?.bind fun c => if isBlank c then trim text n (cmd + 1) else some cmd

def mshExec (table : List FinshSyscall) (text : List UInt8) (length : Nat) : Option (List UInt8) :=
  (trim text length 0).bind fun cmd =>
    if length ≤ cmd then some text
    else
      (mshExecCmd table text cmd length).bind fun r =>
        if r.1 then some r.2
        else
          ((r.2.drop cmd).findIdx? fun c => c = space ∨ c = 0).bind fun size =>
            (Cells.write r.2 (cmd + size) 0).bind fun text =>
              (Cells.string text cmd).map fun _ => text

/-- The commands that begin with `word`, of which there are some, have `n` first bytes in common. -/
def Shared (names : List (List UInt8)) (word : List UInt8) (n : Nat) : Prop :=
  (∃ name ∈ names, word <+: name) ∧
    ∃ common : List UInt8, common.length = n ∧ ∀ name ∈ names, word <+: name → common <+: name

theorem le_strCommon {a b : List UInt8} {n : Nat} :
    n ≤ strCommon a b ↔ n ≤ a.length ∧ a.take n <+: b := by
  induction a generalizing b n with
  | nil =>
    cases n with
    | zero => simp
    | succ n => simp [strCommon]
  | cons x a ih =>
    cases n with
    | zero => simp
    | succ n =>
      cases b with
      | nil => simp [strCommon]
      | cons y b =>
        by_cases hxy : x = y
        · simp [strCommon, hxy, cons_prefix_cons, ih]
        · simp [strCommon, hxy, cons_prefix_cons]

/-- What has been found after some entries. -/
structure Found (names : List (List UInt8)) (word namePtr : List UInt8) (minLength : Nat) : Prop where
  mem : namePtr ∈ names
  starts : word <+: namePtr
  common : ∀ n, n ≤ minLength ↔
    n ≤ namePtr.length ∧ ∀ name ∈ names, word <+: name → namePtr.take n <+: name

namespace Found

variable {names : List (List UInt8)} {word namePtr cmdName : List UInt8} {minLength : Nat}

section

variable (h : Found names word namePtr minLength)
include h

theorem take_word : namePtr.take word.length = word :=
  (prefix_iff_eq_take.mp h.starts).symm

theorem length_le : word.length ≤ minLength := by
  refine (h.common _).mpr ⟨h.starts.length_le, fun name _ hname => ?_⟩
  rw [h.take_word]
  exact hname

/-- What is found is as long as what the commands have in common. -/
theorem le_iff_shared (n : Nat) : n ≤ minLength ↔ Shared names word n := by
  rw [h.common]
  constructor
  · rintro ⟨hlen, hall⟩
    exact ⟨⟨namePtr, h.mem, h.starts⟩, namePtr.take n, length_take_of_le hlen, hall⟩
  · rintro ⟨-, common, rfl, hall⟩
    have hcommon := hall namePtr h.mem h.starts
    refine ⟨hcommon.length_le, fun name hname hword => ?_⟩
    rw [← prefix_iff_eq_take.mp hcommon]
    exact hall name hname hword

/-- An entry that does not begin with the word changes nothing. -/
theorem skip (hcmd : ¬ word <+: cmdName) : Found (names ++ [cmdName]) word namePtr minLength := by
  refine ⟨mem_append_left _ h.mem, h.starts, fun n => ?_⟩
  rw [h.common]
  refine and_congr_right fun _ => ⟨fun hall name hname hword => ?_, fun hall name hname => ?_⟩
  · rcases mem_append.mp hname with hname | hname
    · exact hall name hname hword
    · obtain rfl := mem_singleton.mp hname
      exact absurd hword hcmd
  · exact hall name (mem_append_left _ hname)

theorem add (hcmd : word <+: cmdName) :
    Found (names ++ [cmdName]) word namePtr (min minLength (strCommon namePtr cmdName)) := by
  refine ⟨mem_append_left _ h.mem, h.starts, fun n => ?_⟩
  rw [Nat.le_min, h.common, le_strCommon]
  constructor
  · rintro ⟨⟨hlen, hall⟩, -, hnew⟩
    refine ⟨hlen, fun name hname hword => ?_⟩
    rcases mem_append.mp hname with hname | hname
    · exact hall name hname hword
    · rw [mem_singleton.mp hname]
      exact hnew
  · rintro ⟨hlen, hall⟩
    exact ⟨⟨hlen, fun name hname => hall name (mem_append_left _ hname)⟩, hlen,
      hall cmdName (mem_append_right _ (mem_singleton_self _)) hcmd⟩

end

end Found

variable {word : List UInt8}

theorem foldl_complete (hword : word ≠ []) (names : List (List UInt8)) :
    match names.foldl (complete word) none with
    | some (namePtr, minLength) => Found names word namePtr minLength
    | none => ∀ name ∈ names, ¬ word <+: name := by
  induction names using List.reverseRecOn with
  | nil => exact fun name hname => absurd hname not_mem_nil
  | append_singleton names cmdName ih =>
    rw [foldl_append, foldl_cons]
    cases hfound : names.foldl (complete word) none with
    | none =>
      rw [hfound] at ih
      unfold complete
      split_ifs with hcmd
      · have hself : strCommon cmdName cmdName = cmdName.length := by
          refine le_antisymm (le_strCommon.mp le_rfl).1 (le_strCommon.mpr ⟨le_rfl, ?_⟩)
          exact take_prefix _ _
        refine ⟨mem_append_right _ (mem_singleton_self _), hcmd, fun n => ?_⟩
        rw [hself, min_self]
        refine (and_iff_left_of_imp fun _ name hname hstart => ?_).symm
        rcases mem_append.mp hname with hname | hname
        · exact absurd hstart (ih name hname)
        · rw [mem_singleton.mp hname]
          exact take_prefix _ _
      · intro name hname
        rcases mem_append.mp hname with hname | hname
        · exact ih name hname
        · rw [mem_singleton.mp hname]
          exact hcmd
    | some found =>
      obtain ⟨namePtr, minLength⟩ := found
      rw [hfound] at ih
      have hlength := ih.length_le
      have hpos := length_pos_iff.mpr hword
      unfold complete
      split_ifs with hcmd
      · dsimp only
        rw [if_neg (by omega)]
        exact ih.add hcmd
      · exact ih.skip hcmd

/-- The last byte of the array ends every string. -/
def Ends (text : List UInt8) : Prop := text[finshCmdSize]? = some 0

namespace Ends

variable {text : List UInt8} {ptr n stop : Nat}

section

variable (h : Ends text) {argv : List Nat}
include h

theorem lt_length : finshCmdSize < text.length := (List.getElem?_eq_some_iff.mp h).1

theorem read (ptr : Nat) (hptr : ptr ≤ finshCmdSize) : ∃ c, text[ptr]? = some c :=
  ⟨_, List.getElem?_eq_getElem (Nat.lt_of_le_of_lt hptr h.lt_length)⟩

theorem clear (ptr : Nat) (hptr : ptr ≤ finshCmdSize) :
    ∃ text', Cells.write text ptr 0 = some text' ∧ Ends text' := by
  refine ⟨_, Cells.write_of_lt (Nat.lt_of_le_of_lt hptr h.lt_length), ?_⟩
  unfold Ends
  rw [List.getElem?_set]
  split_ifs with heq hlt
  · rfl
  · exact absurd (heq ▸ h.lt_length) hlt
  · exact h

theorem string (ptr : Nat) (hptr : ptr ≤ finshCmdSize) : ∃ w, Cells.string text ptr = some w ∧
    ptr + w.length ≤ finshCmdSize := Cells.string_of_zero h hptr

theorem strip (n ptr : Nat) (hn : ptr + n ≤ finshCmdSize) : ∃ text' ptr',
    Finsh.strip n text ptr = some (text', ptr') ∧ Ends text' ∧ ptr ≤ ptr' ∧ ptr' ≤ ptr + n := by
  induction n generalizing text ptr with
  | zero =>
    obtain ⟨c, hc⟩ := h.read ptr hn
    exact ⟨text, ptr, by simp [Finsh.strip, hc], h, le_rfl, le_rfl⟩
  | succ n ih =>
    obtain ⟨c, hc⟩ := h.read ptr (by omega)
    by_cases hblank : isBlank c
    · obtain ⟨text', hwrite, hends⟩ := h.clear ptr (by omega)
      obtain ⟨text'', ptr', hstrip, hends', hle, hle'⟩ := ih hends (ptr + 1) (by omega)
      exact ⟨text'', ptr', by simp [Finsh.strip, hc, hblank, hwrite, hstrip], hends', by omega, by omega⟩
    · exact ⟨text, ptr, by simp [Finsh.strip, hc, hblank], h, le_rfl, by omega⟩

theorem skipWord (n ptr : Nat) (hn : ptr + n ≤ finshCmdSize) : ∃ ptr',
    Finsh.skipWord text n ptr = some ptr' ∧ ptr ≤ ptr' ∧ ptr' ≤ ptr + n := by
  induction n generalizing ptr with
  | zero =>
    obtain ⟨c, hc⟩ := h.read ptr hn
    exact ⟨ptr, by simp [Finsh.skipWord, hc], le_rfl, le_rfl⟩
  | succ n ih =>
    obtain ⟨c, hc⟩ := h.read ptr (by omega)
    by_cases hblank : isBlank c
    · exact ⟨ptr, by simp [Finsh.skipWord, hc, hblank], le_rfl, by omega⟩
    · obtain ⟨ptr', hskip, hle, hle'⟩ := ih (ptr + 1) (by omega)
      exact ⟨ptr', by simp [Finsh.skipWord, hc, hblank, hskip], by omega, by omega⟩

theorem trim (n ptr : Nat) (hn : ptr + n ≤ finshCmdSize) : ∃ cmd,
    Finsh.trim text n ptr = some cmd ∧ cmd ≤ ptr + n := by
  induction n generalizing ptr with
  | zero => exact ⟨ptr, rfl, le_rfl⟩
  | succ n ih =>
    obtain ⟨c, hc⟩ := h.read ptr (by omega)
    by_cases hblank : isBlank c
    · obtain ⟨cmd, htrim, hle⟩ := ih (ptr + 1) (by omega)
      exact ⟨cmd, by simp [Finsh.trim, hc, hblank, htrim], by omega⟩
    · exact ⟨ptr, by simp [Finsh.trim, hc, hblank], by omega⟩

/-- A backslash may take the scan past the command, but a quote is not the last byte of the array. -/
theorem skipString (n ptr : Nat) (hn : ptr + n ≤ finshCmdSize) :
    ∃ ptr', Finsh.skipString text n ptr = some ptr' := by
  induction n using Nat.strong_induction_on generalizing ptr with
  | h n ih =>
    cases n with
    | zero =>
      obtain ⟨c, hc⟩ := h.read ptr hn
      exact ⟨ptr, by simp [Finsh.skipString, hc]⟩
    | succ n =>
      obtain ⟨c, hc⟩ := h.read ptr (by omega)
      obtain ⟨d, hd⟩ := h.read (ptr + 1) (by omega)
      have hnext := ih n (by omega) (ptr + 1) (by omega)
      unfold Finsh.skipString
      rw [hc, bind_some, hd, bind_some]
      split_ifs with hquote hback hdquote
      · exact ⟨_, rfl⟩
      · have hptr : ptr + 1 ≠ finshCmdSize := by
          intro heq
          rw [heq, show text[finshCmdSize]? = some 0 from h] at hd
          cases hd
          exact absurd hdquote (by decide)
        cases n with
        | zero =>
          obtain ⟨b, hb⟩ := h.read (ptr + 2) (by omega)
          exact ⟨ptr + 2, by simp [hb]⟩
        | succ n => exact ih n (by omega) _ (by omega)
      · exact hnext
      · exact hnext

theorem strings (hargv : ∀ ptr ∈ argv, ptr ≤ finshCmdSize) :
    ∃ words, argv.mapM (Cells.string text) = some words := by
  induction argv with
  | nil => exact ⟨[], rfl⟩
  | cons ptr argv ih =>
    obtain ⟨w, hw, -⟩ := h.string ptr (hargv ptr (.head _))
    obtain ⟨words, hwords⟩ := ih fun p hp => hargv p (.tail _ hp)
    exact ⟨w :: words, by simp [mapM_cons, hw, hwords]⟩

theorem mshSplit (free ptr : Nat) (hstop : stop ≤ finshCmdSize)
    (hargv : ∀ ptr ∈ argv, ptr ≤ finshCmdSize) :
    ∃ text' argv', Finsh.mshSplit free stop text ptr argv = some (text', argv') ∧ Ends text' := by
  have hadd : ∀ {argv : List Nat} {p : Nat}, (∀ ptr ∈ argv, ptr ≤ finshCmdSize) → p < stop →
      ∀ q ≤ p + 1, ∀ ptr ∈ argv ++ [q], ptr ≤ finshCmdSize := by
    intro argv p hargv hp q hq ptr hptr
    rcases mem_append.mp hptr with hptr | hptr
    · exact hargv ptr hptr
    · obtain rfl := mem_singleton.mp hptr
      omega
  induction free generalizing text ptr argv with
  | zero =>
    unfold Finsh.mshSplit
    split_ifs with hlt
    · obtain ⟨text', ptr', hstrip, hends, -, -⟩ := h.strip (stop - ptr) ptr (by omega)
      obtain ⟨words, hwords⟩ := hends.strings hargv
      exact ⟨text', argv, by simp [hstrip, hwords], hends⟩
    · exact ⟨text, argv, rfl, h⟩
  | succ free ih =>
    unfold Finsh.mshSplit
    split_ifs with hlt
    · obtain ⟨text', p, hstrip, hends, -, hle⟩ := h.strip (stop - ptr) ptr (by omega)
      rw [hstrip, bind_some]
      split_ifs with hend
      · exact ⟨text', argv, rfl, hends⟩
      obtain ⟨c, hc⟩ := hends.read p (by omega)
      rw [hc, bind_some]
      split_ifs with hquote
      · obtain ⟨q, hq⟩ := hends.skipString (stop - (p + 1)) (p + 1) (by omega)
        rw [hq, bind_some]
        split_ifs with hend'
        · exact ⟨_, _, rfl, hends⟩
        · obtain ⟨text'', hwrite, hends'⟩ := hends.clear q (by omega)
          rw [hwrite]
          exact ih hends' _ (hadd hargv (by omega) (p + 1) le_rfl)
      · obtain ⟨q, hq, -⟩ := hends.skipWord (stop - p) p (by omega)
        rw [hq, bind_some]
        split_ifs with hend'
        · exact ⟨_, _, rfl, hends⟩
        · exact ih hends _ (hadd hargv (by omega) p (Nat.le_succ p))
    · exact ⟨text, argv, rfl, h⟩

theorem mshExecCmd (table : List FinshSyscall) (cmd : Nat) (hcmd : cmd ≤ stop)
    (hstop : stop ≤ finshCmdSize) :
    ∃ r, Finsh.mshExecCmd table text cmd stop = some r ∧ Ends r.2 := by
  obtain ⟨q, hq, -⟩ := h.skipWord (stop - cmd) cmd (by omega)
  unfold Finsh.mshExecCmd
  rw [hq, bind_some]
  split_ifs with hnone hfound
  · exact ⟨_, rfl, h⟩
  · obtain ⟨text', argv, hsplit, hends⟩ := h.mshSplit finshArgMax cmd hstop
      fun p hp => absurd hp not_mem_nil
    exact ⟨_, by rw [hsplit]; rfl, hends⟩
  · exact ⟨_, rfl, h⟩

theorem mshExec (table : List FinshSyscall) {length : Nat}
    (hlength : length ≤ finshCmdSize) : ∃ text', Finsh.mshExec table text length = some text' := by
  obtain ⟨cmd, htrim, hcmd⟩ := h.trim length 0 (by omega)
  unfold Finsh.mshExec
  rw [htrim, bind_some]
  split_ifs with hempty
  · exact ⟨text, rfl⟩
  obtain ⟨r, hr, hends⟩ := h.mshExecCmd table cmd (by omega) hlength
  rw [hr, bind_some]
  split_ifs with hdone
  · exact ⟨_, rfl⟩
  cases hsize : (r.2.drop cmd).findIdx? fun c => c = space ∨ c = 0 with
  | none =>
    have hzero : (0 : UInt8) ∈ r.2.drop cmd := by
      refine mem_of_getElem? (show (r.2.drop cmd)[finshCmdSize - cmd]? = some 0 from ?_)
      rw [List.getElem?_drop, Nat.add_sub_cancel' (by omega)]
      exact hends
    have hnot := List.findIdx?_eq_none_iff.mp hsize 0 hzero
    simp at hnot
  | some size =>
    have hle : cmd + size ≤ finshCmdSize := by
      by_contra hgt
      have hfirst := (List.findIdx?_eq_some_iff_getElem.mp hsize).2.2 (finshCmdSize - cmd) (by omega)
      have hcell : (r.2.drop cmd)[finshCmdSize - cmd]? = some 0 := by
        rw [List.getElem?_drop, Nat.add_sub_cancel' (by omega)]
        exact hends
      obtain ⟨hlt, hget⟩ := List.getElem?_eq_some_iff.mp hcell
      rw [hget] at hfirst
      simp at hfirst
    obtain ⟨text', hwrite, hends'⟩ := hends.clear _ hle
    obtain ⟨w, hw, -⟩ := hends'.string cmd (by omega)
    exact ⟨text', by simp [hwrite, hw]⟩

end

end Ends

/-- Not all the commands that begin with the line have more in common than fits. -/
def Fits (table : List FinshSyscall) (text : List UInt8) : Prop :=
  ∀ word ∈ Cells.string text 0, word ≠ [] →
    ¬ Shared (table.map FinshSyscall.name) word (finshCmdSize + 1)

variable {table : List FinshSyscall} {text text' : List UInt8}

theorem shared_iff {names : List (List UInt8)} (hword : word ≠ []) (n : Nat) :
    Shared names word n ↔ ∃ found ∈ names.foldl (complete word) none, n ≤ found.2 := by
  have hfound := foldl_complete hword names
  cases hfold : names.foldl (complete word) none with
  | none =>
    rw [hfold] at hfound
    constructor
    · rintro ⟨⟨name, hname, hstart⟩, -⟩
      exact absurd hstart (hfound name hname)
    · rintro ⟨found, hmem, -⟩
      cases hmem
  | some found =>
    rw [hfold] at hfound
    rw [← hfound.le_iff_shared]
    simp

instance decidableFits (table : List FinshSyscall) (text : List UInt8) : Decidable (Fits table text) :=
  decidable_of_iff (∀ word ∈ Cells.string text 0, word ≠ [] →
      ∀ found ∈ (table.map FinshSyscall.name).foldl (complete word) none, ¬ finshCmdSize + 1 ≤ found.2) <| by
    refine forall₂_congr fun word _ => forall_congr' fun hword => ?_
    rw [shared_iff hword]
    simp

theorem Ends.mshAutoComplete (h : Ends text) (hfits : Fits table text) : ∃ text',
    mshAutoComplete table text = some text' ∧ text'.length = text.length ∧ Ends text' := by
  obtain ⟨word, hstring, -⟩ := h.string 0 (Nat.zero_le _)
  unfold Finsh.mshAutoComplete
  rw [hstring, bind_some]
  split_ifs with hword
  · exact ⟨text, rfl, rfl, h⟩
  have hshared := mt (shared_iff hword _).mpr (hfits word hstring hword)
  cases hfold : (table.map FinshSyscall.name).foldl (complete word) none with
  | none => exact ⟨text, rfl, rfl, h⟩
  | some found =>
    have hmin : found.2 ≤ finshCmdSize := by
      by_contra hgt
      exact hshared ⟨found, hfold, by omega⟩
    have hlen := length_take_le found.2 found.1
    obtain ⟨text', hwrite, hlength, hafter, -⟩ :=
      Cells.writeBlock_of_le text 0 (found.1.take found.2)
        (by have := h.lt_length; omega)
    exact ⟨text', hwrite, hlength, (hafter _ (by omega)).trans h⟩

/-- More is written than fits, or up to the last byte of the array. -/
theorem string_of_not_fits (hlength : text.length = finshCmdSize + 1) (hfits : ¬ Fits table text)
    (hcomplete : mshAutoComplete table text = some text') : Cells.string text' 0 = none := by
  simp only [Fits, not_forall, not_not] at hfits
  obtain ⟨word, hstring, hword, hshared⟩ := hfits
  have hfound := foldl_complete hword (table.map FinshSyscall.name)
  obtain ⟨found, hfold, hmin⟩ := (shared_iff hword _).mp hshared
  rw [hfold] at hfound
  unfold mshAutoComplete at hcomplete
  rw [show Cells.string text 0 = some word from hstring, bind_some, if_neg hword, hfold] at hcomplete
  dsimp only at hcomplete
  have hlen : (found.1.take found.2).length = found.2 :=
    length_take_of_le ((hfound.common found.2).mp le_rfl).1
  by_cases hlt : text.length < found.2
  · rw [Cells.writeBlock_of_lt (by omega)] at hcomplete
    cases hcomplete
  · have hall : found.1.take found.2 = text' := by
      unfold Cells.writeBlock at hcomplete
      rw [if_pos (by omega)] at hcomplete
      have hrest : text.drop (0 + (found.1.take found.2).length) = [] := drop_eq_nil_of_le (by omega)
      rw [hrest, append_nil] at hcomplete
      exact some.inj hcomplete
    refine Cells.string_of_not_mem fun hzero => ?_
    rw [← hall] at hzero
    obtain ⟨index, -, hname⟩ := mem_map.mp hfound.mem
    refine index.nul ?_
    rw [hname]
    exact mem_of_mem_take hzero

end RtKernel.Finsh

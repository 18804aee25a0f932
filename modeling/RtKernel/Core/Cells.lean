import Mathlib.Data.List.TakeWhile

/-!
# Checked access to an array

An array is the list of its cells. Cells and blocks of cells are read and written only
where they lie in the array, and a string is read up to the first cell that is zero:
there is no result where an access is outside.
-/

open List Option

namespace RtKernel.Cells

variable {α : Type*}

/-- Write one cell. -/
def write (cells : List α) (i : Nat) (x : α) : Option (List α) :=
  if i < cells.length then some (cells.set i x) else none

/-- Read the `n` cells from `i` on. -/
def readBlock (cells : List α) (i n : Nat) : Option (List α) :=
  if i + n ≤ cells.length then some ((cells.drop i).take n) else none

/-- Write the cells from `i` on. -/
def writeBlock (cells : List α) (i : Nat) (xs : List α) : Option (List α) :=
  if i + xs.length ≤ cells.length then some (cells.take i ++ xs ++ cells.drop (i + xs.length))
  else none

/-- Move `n` cells inside an array. -/
def move (cells : List α) (dst src n : Nat) : Option (List α) :=
  (readBlock cells src n).bind (writeBlock cells dst)

variable {cells cells' xs : List α} {i j n : Nat} {x : α}

theorem write_of_lt (h : i < cells.length) : write cells i x = some (cells.set i x) := if_pos h

theorem readBlock_of_le (h : i + n ≤ cells.length) :
    readBlock cells i n = some ((cells.drop i).take n) := if_pos h

theorem length_block (h : i + n ≤ cells.length) : ((cells.drop i).take n).length = n := by
  rw [length_take, length_drop]
  omega

/-- A block that fits is written, and the cells around it stay as they are. -/
theorem writeBlock_of_le (cells : List α) (i : Nat) (xs : List α)
    (h : i + xs.length ≤ cells.length) : ∃ cells',
    writeBlock cells i xs = some cells' ∧ cells'.length = cells.length ∧
    (∀ j, i + xs.length ≤ j → cells'[j]? = cells[j]?) ∧
    ∀ j < xs.length, cells'[i + j]? = xs[j]? := by
  refine ⟨_, if_pos h, ?_, fun j hj => ?_, fun j hj => ?_⟩
  · simp only [length_append, length_take, length_drop]
    omega
  · have hstart : (cells.take i ++ xs).length = i + xs.length := by
      rw [length_append, length_take]
      omega
    rw [List.getElem?_append_right (by omega), List.getElem?_drop]
    congr 1
    omega
  · have hstart : (cells.take i).length = i := by
      rw [length_take]
      omega
    rw [append_assoc, List.getElem?_append_right (by omega), hstart,
      List.getElem?_append_left (by omega)]
    congr 1
    omega

theorem writeBlock_of_lt (h : cells.length < i + xs.length) : writeBlock cells i xs = none :=
  if_neg (Nat.not_le_of_gt h)

/-- Cells are moved where both blocks lie in the array. -/
theorem move_of_le (cells : List α) (i j n : Nat) (hsrc : j + n ≤ cells.length)
    (hdst : i + n ≤ cells.length) : ∃ cells',
    move cells i j n = some cells' ∧ cells'.length = cells.length ∧
    ∀ k, i + n ≤ k → cells'[k]? = cells[k]? := by
  have hlen := length_block hsrc
  obtain ⟨cells', hwrite, hlength, hafter, -⟩ :=
    writeBlock_of_le cells i ((cells.drop j).take n) (by omega)
  rw [hlen] at hafter
  refine ⟨cells', ?_, hlength, hafter⟩
  unfold move
  rw [readBlock_of_le hsrc]
  exact hwrite

/-- Nothing new comes into an array when cells are moved in it. -/
theorem mem_of_move (h : move cells i j n = some cells') : ∀ x ∈ cells', x ∈ cells := by
  obtain ⟨xs, hread, hwrite⟩ := bind_eq_some_iff.mp h
  obtain ⟨-, hread⟩ := ite_none_right_eq_some.mp hread
  obtain ⟨-, hwrite⟩ := ite_none_right_eq_some.mp hwrite
  cases hread
  cases hwrite
  intro x hx
  rcases mem_append.mp hx with hx | hx
  · rcases mem_append.mp hx with hx | hx
    · exact mem_of_mem_take hx
    · exact mem_of_mem_drop (mem_of_mem_take hx)
  · exact mem_of_mem_drop hx

section Pieces

variable {block : List α}

theorem write_append (before : List α) (y x : α) (after : List α) :
    write (before ++ y :: after) before.length x = some (before ++ x :: after) := by
  have hlt : before.length < (before ++ y :: after).length := by
    rw [length_append, length_cons]
    omega
  rw [write_of_lt hlt, set_append_right _ _ (Nat.le_refl _), Nat.sub_self, set_cons_zero]

theorem readBlock_append (before block after : List α) :
    readBlock (before ++ (block ++ after)) before.length block.length = some block := by
  rw [readBlock_of_le (by simp only [length_append]; omega), drop_left, take_left]

theorem writeBlock_append (before : List α) (after : List α) (h : xs.length = block.length) :
    writeBlock (before ++ (block ++ after)) before.length xs = some (before ++ (xs ++ after)) := by
  have hle : before.length + xs.length ≤ (before ++ (block ++ after)).length := by
    simp only [length_append]
    omega
  rw [writeBlock, if_pos hle, take_left, ← drop_drop, drop_left, h, drop_left,
    append_assoc]

/-- A block is moved by one to the right: the first cell keeps what it has. -/
theorem move_right (before block : List α) (x : α) (after : List α) : ∃ y,
    move (before ++ (block ++ x :: after)) (before.length + 1) before.length block.length =
      some (before ++ y :: (block ++ after)) := by
  obtain ⟨y, rest, hrest⟩ : ∃ y rest, block ++ [x] = y :: rest :=
    exists_cons_of_ne_nil (by simp)
  have hlength := congrArg List.length hrest
  rw [length_append] at hlength
  have hcells : before ++ (block ++ x :: after) = before ++ [y] ++ (rest ++ after) := by
    rw [← singleton_append, ← append_assoc block, hrest]
    simp
  have hat : before.length + 1 = (before ++ [y]).length :=
    show before.length + [y].length = _ from length_append.symm
  refine ⟨y, ?_⟩
  rw [move, readBlock_append, bind_some, hcells, hat,
    writeBlock_append _ _ (Nat.succ.inj hlength), append_assoc]
  rfl

/-- A block is moved by one to the left: the last cell keeps what it has. -/
theorem move_left (before block : List α) (x : α) (after : List α) : ∃ y,
    move (before ++ x :: (block ++ after)) before.length (before.length + 1) block.length =
      some (before ++ (block ++ y :: after)) := by
  obtain ⟨rest, y, hrest⟩ : ∃ rest y, x :: block = rest ++ [y] :=
    ⟨_, _, (dropLast_concat_getLast (cons_ne_nil _ _)).symm⟩
  have hlength := congrArg List.length hrest
  rw [length_append] at hlength
  have hcells : before ++ x :: (block ++ after) = before ++ (rest ++ y :: after) := by
    rw [← cons_append, hrest, append_assoc]
    rfl
  have hread := readBlock_append (before ++ [x]) block after
  rw [append_assoc, singleton_append, length_append, length_singleton] at hread
  refine ⟨y, ?_⟩
  rw [move, hread, bind_some, hcells, writeBlock_append _ _ (Nat.succ.inj hlength)]

end Pieces

section Strings

variable [Zero α] [DecidableEq α]

/-- The string that begins at `i`, without its end. -/
def string (cells : List α) (i : Nat) : Option (List α) :=
  if 0 ∈ cells.drop i then some ((cells.drop i).takeWhile (· ≠ 0)) else none

/-- A string that begins before a zero ends there at the latest. -/
theorem string_of_zero (h : cells[j]? = some 0) (hij : i ≤ j) : ∃ w, string cells i = some w ∧
    i + w.length ≤ j := by
  have hzero : (cells.drop i)[j - i]? = some 0 := by
    rw [List.getElem?_drop, Nat.add_sub_cancel' hij]
    exact h
  refine ⟨_, if_pos (mem_of_getElem? hzero), ?_⟩
  by_contra hlt
  have hmem : (0 : α) ∈ (cells.drop i).takeWhile (· ≠ 0) := by
    obtain ⟨rest, hrest⟩ := takeWhile_prefix (· ≠ (0 : α)) (l := cells.drop i)
    rw [← hrest, List.getElem?_append_left (by omega)] at hzero
    exact mem_of_getElem? hzero
  simpa using mem_takeWhile_imp hmem

theorem string_append (before : List α) {w : List α} (hw : 0 ∉ w) (after : List α) :
    string (before ++ (w ++ 0 :: after)) before.length = some w := by
  unfold string
  rw [drop_left, takeWhile_append_of_pos]
  · simp
  · intro c hc
    exact decide_eq_true fun hno => hw (hno ▸ hc)

theorem string_of_not_mem (h : (0 : α) ∉ cells.drop i) : string cells i = none := if_neg h

end Strings

end RtKernel.Cells

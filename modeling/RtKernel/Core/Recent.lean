import Mathlib.Data.List.Destutter

/-!
# The last items of a list

A bounded history of a list: repeated items count once, and only the last `n` are kept.
-/

open List

namespace RtKernel

variable {α : Type*} [DecidableEq α] {n : Nat} {l : List α} {a x : α}

/-- The last `n` items, of those that are the same in a row only one. -/
def recent (n : Nat) (l : List α) : List α :=
  (l.destutter (· ≠ ·)).drop ((l.destutter (· ≠ ·)).length - n)

theorem destutter'_concat (a : α) (l : List α) (x : α) : (l ++ [x]).destutter' (· ≠ ·) a =
      if l.getLastD a = x then l.destutter' (· ≠ ·) a else l.destutter' (· ≠ ·) a ++ [x] := by
  induction l generalizing a with
  | nil =>
    rw [nil_append, destutter'_singleton, getLastD_nil, destutter'_nil]
    by_cases hax : a = x
    · rw [if_neg (not_not.mpr hax), if_pos hax]
    · rw [if_pos hax, if_neg hax]
      rfl
  | cons b l ih =>
    rw [cons_append, getLastD_cons]
    by_cases hab : a ≠ b
    · rw [destutter'_cons_pos _ hab, destutter'_cons_pos _ hab, ih]
      split_ifs <;> rfl
    · obtain rfl := not_not.mp hab
      rw [destutter'_cons_neg _ hab, destutter'_cons_neg _ hab, ih]

/-- An item is added unless it is the last one already. -/
theorem destutter_concat (l : List α) (x : α) : (l ++ [x]).destutter (· ≠ ·) =
      if l.getLast? = some x then l.destutter (· ≠ ·) else l.destutter (· ≠ ·) ++ [x] := by
  cases l with
  | nil => rfl
  | cons a l =>
    have hlast : (a :: l).getLast? = some x ↔ l.getLastD a = x := by
      rw [List.getLast?_cons, Option.some_inj, getLastD_eq_getLast?]
    rw [cons_append, destutter_cons', destutter'_concat]
    exact if_congr hlast.symm rfl rfl

theorem getLast?_destutter (l : List α) : (l.destutter (· ≠ ·)).getLast? = l.getLast? := by
  induction l using List.reverseRecOn with
  | nil => rfl
  | append_singleton l x ih =>
    rw [destutter_concat, List.getLast?_concat]
    split_ifs with hlast
    · rw [ih, hlast]
    · exact List.getLast?_concat

theorem length_recent : (recent n l).length = min (l.destutter (· ≠ ·)).length n := by
  rw [recent, length_drop]
  omega

theorem length_recent_le (l : List α) : (recent n l).length ≤ n :=
  length_recent.trans_le (Nat.min_le_right _ _)

theorem mem_of_mem_recent (h : x ∈ recent n l) : x ∈ l :=
  (destutter_sublist _ l).subset (mem_of_mem_drop h)

theorem getLast?_recent (hn : 0 < n) : (recent n l).getLast? = l.getLast? := by
  rw [recent, List.getLast?_drop, getLast?_destutter]
  split_ifs with hle
  · have hempty : l.destutter (· ≠ ·) = [] := length_eq_zero_iff.mp (by omega)
    rw [(destutter_eq_nil _).mp hempty]
    rfl
  · rfl

theorem recent_concat (hn : 0 < n) (l : List α) (x : α) : recent n (l ++ [x]) =
      if (recent n l).getLast? = some x then recent n l
      else if (recent n l).length < n then recent n l ++ [x]
      else (recent n l).tail ++ [x] := by
  rw [getLast?_recent hn, length_recent]
  by_cases hlast : l.getLast? = some x
  · rw [if_pos hlast, recent, destutter_concat, if_pos hlast]
    rfl
  · rw [if_neg hlast, recent, destutter_concat, if_neg hlast, length_append,
      length_singleton, recent]
    generalize l.destutter (· ≠ ·) = items
    rcases Nat.lt_or_ge items.length n with hroom | hfull
    · rw [if_pos (by omega), Nat.sub_eq_zero_of_le hroom, Nat.sub_eq_zero_of_le hroom.le]
      rfl
    · have hstart : items.length + 1 - n = items.length - n + 1 := by omega
      rw [if_neg (by omega), tail_drop, hstart, drop_append_of_le_length (by omega)]

end RtKernel

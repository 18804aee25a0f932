import Mathlib.Data.List.Sort

/-!
# Lists through embedded nodes

A doubly linked list of the kernel runs through one node of each of its members,
so a member can be unlinked without naming the list. Here a list is the sequence
of its members from the head.
-/

open List

namespace RtKernel

variable {α : Type*} [DecidableEq α] {l : List α}

/-- `rt_list_remove`, seen from one list the node may be in. -/
def rtListRemove (l : List α) (n : α) : List α := l.filter (· ≠ n)

@[simp] theorem mem_rtListRemove {n x : α} : x ∈ rtListRemove l n ↔ x ∈ l ∧ x ≠ n := by
  simp [rtListRemove]

@[simp] theorem rtListRemove_nil (n : α) : rtListRemove [] n = [] := rfl

theorem rtListRemove_sublist (n : α) : (rtListRemove l n).Sublist l :=
  filter_sublist

theorem rtListRemove_of_notMem {n : α} (h : n ∉ l) : rtListRemove l n = l :=
  filter_eq_self.mpr fun _ hx => decide_eq_true fun he => h (he ▸ hx)

theorem rtListRemove_cons_self {n : α} (h : n ∉ l) : rtListRemove (n :: l) n = l := by
  rw [rtListRemove, filter_cons_of_neg (by simp)]
  exact rtListRemove_of_notMem h

omit [DecidableEq α] in
/-- Insertion stops at the first element that is after the new one. -/
theorem orderedInsert_split (r : α → α → Prop) [DecidableRel r] (a : α) (l : List α) :
    ∃ pre post, l = pre ++ post ∧ l.orderedInsert r a = pre ++ a :: post ∧
      (∀ x ∈ pre, ¬ r a x) ∧ ∀ x ∈ post.head?, r a x := by
  induction l with
  | nil => exact ⟨[], [], rfl, rfl, fun _ h => absurd h not_mem_nil, fun _ h => by cases h⟩
  | cons b l ih =>
    by_cases hb : r a b
    · refine ⟨[], b :: l, rfl, orderedInsert_cons_of_le r l hb,
        fun _ h => absurd h not_mem_nil, ?_⟩
      intro x hx
      cases hx
      exact hb
    · obtain ⟨pre, post, hl, hins, hpre, hpost⟩ := ih
      refine ⟨b :: pre, post, by rw [hl]; rfl, ?_, ?_, hpost⟩
      · rw [orderedInsert_of_not_le r l hb, hins]
        rfl
      · intro x hx
        rcases mem_cons.mp hx with rfl | hx
        · exact hb
        · exact hpre x hx

end RtKernel

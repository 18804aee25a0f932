import Mathlib.Data.List.Perm.Basic

/-!
# Blocks that are released once

Blocks are numbered as they are allocated. One of them may be in hand; every other one has
been released, and only once.
-/

open Option

namespace RtKernel

structure Ledger (blocks : Nat) (released : List Nat) (held : Option Nat) : Prop where
  held_lt : ∀ id ∈ held, id < blocks
  count : ∀ id, released.count id = if id < blocks ∧ held ≠ some id then 1 else 0

namespace Ledger

variable {blocks id : Nat} {released released' : List Nat} {held : Option Nat}

theorem start : Ledger 0 [] none :=
  ⟨fun _ h => (not_mem_none _ h).elim, fun id => by simp⟩

/-- In which order the blocks were released does not matter. -/
theorem perm (h : Ledger blocks released held) (hperm : released'.Perm released) :
    Ledger blocks released' held :=
  ⟨h.held_lt, fun id => by rw [hperm.count_eq, h.count]⟩

theorem alloc (h : Ledger blocks released none) : Ledger (blocks + 1) released (some blocks) := by
  refine ⟨fun id hid => ?_, fun id => ?_⟩
  · obtain rfl := mem_some_iff.mp hid
    exact Nat.lt_succ_self _
  · rw [h.count]
    refine if_congr ?_ rfl rfl
    simp only [ne_eq, some_inj, reduceCtorEq, not_false_eq_true, and_true]
    omega

theorem release (h : Ledger blocks released (some id)) : Ledger blocks (id :: released) none := by
  refine ⟨fun _ hid => (not_mem_none _ hid).elim, fun x => ?_⟩
  have hlt := h.held_lt id rfl
  rw [List.count_cons, h.count]
  by_cases hx : x = id
  · simp [hx, hlt]
  · simp [Ne.symm hx]

theorem not_mem (h : Ledger blocks released held) (hid : held = some id ∨ blocks ≤ id) :
    id ∉ released := by
  refine List.count_eq_zero.mp ((h.count id).trans (if_neg ?_))
  rintro ⟨hlt, hheld⟩
  exact hid.elim hheld (Nat.not_le_of_gt hlt)

/-- A block that is not in hand has been released. -/
theorem mem (h : Ledger blocks released held) (hlt : id < blocks) (hheld : held ≠ some id) :
    id ∈ released := by
  refine List.count_pos_iff.mp ?_
  rw [h.count, if_pos ⟨hlt, hheld⟩]
  exact Nat.one_pos

end Ledger

end RtKernel

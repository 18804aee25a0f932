import Mathlib.Algebra.BigOperators.Group.Finset.Piecewise
import Mathlib.Data.Fintype.Card

/-!
# Counting the members of a finite type

How the number of those that satisfy a predicate changes with one of them.
-/

namespace RtKernel

variable {τ : Type*} [Fintype τ]

/-- The number of those that satisfy `p`. -/
def count (p : τ → Prop) [DecidablePred p] : Nat := (Finset.univ.filter p).card

variable {p q : τ → Prop} [DecidablePred p] [DecidablePred q]

theorem count_congr (h : ∀ x, q x ↔ p x) : count q = count p := by
  congr 1
  ext x
  simp [h]

theorem count_eq_zero (h : ∀ x, ¬ p x) : count p = 0 := by
  rw [count, Finset.card_eq_zero, Finset.filter_eq_empty_iff]
  exact fun x _ => h x

theorem count_pos {t : τ} (h : p t) : 0 < count p := by
  rw [count, Finset.card_pos]
  exact ⟨t, by simp [h]⟩

/-- When the others keep what they satisfy, the number changes with `t` alone. -/
theorem count_change [DecidableEq τ] (t : τ) (ho : ∀ x ≠ t, q x ↔ p x) :
    count q + (if p t then 1 else 0) = count p + if q t then 1 else 0 := by
  have hsplit : ∀ (r : τ → Prop) [DecidablePred r],
      count r = (if r t then 1 else 0) + ((Finset.univ.erase t).filter r).card := by
    intro r _
    rw [count, Finset.card_filter, Finset.card_filter]
    exact (Finset.add_sum_erase _ (fun i => if r i then 1 else 0) (Finset.mem_univ t)).symm
  have hrest : (Finset.univ.erase t).filter q = (Finset.univ.erase t).filter p := by
    apply Finset.filter_congr
    intro x hx
    exact ho x (Finset.ne_of_mem_erase hx)
  rw [hsplit q, hsplit p, hrest]
  omega

theorem sum_change [DecidableEq τ] {f g : τ → Nat} (t : τ) (ho : ∀ x ≠ t, g x = f x) :
    ∑ x, g x + f t = ∑ x, f x + g t := by
  have hf : f t + ∑ x ∈ Finset.univ.erase t, f x = ∑ x, f x :=
    Finset.add_sum_erase _ f (Finset.mem_univ t)
  have hg : g t + ∑ x ∈ Finset.univ.erase t, g x = ∑ x, g x :=
    Finset.add_sum_erase _ g (Finset.mem_univ t)
  have hsame : ∑ x ∈ Finset.univ.erase t, g x = ∑ x ∈ Finset.univ.erase t, f x :=
    Finset.sum_congr rfl fun x hx => ho x (Finset.ne_of_mem_erase hx)
  omega

end RtKernel

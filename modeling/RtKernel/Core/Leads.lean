import RtKernel.Core.Run

/-!
# What every run comes to

A state leads to a property when the property holds in it, or when a run can go on from it and
every step leads to the property. Where a measure decreases, every run comes to where it cannot go
on.
-/

namespace RtKernel

variable {σ α : Type*}

inductive Leads (step : σ → α → σ → Prop) (P : σ → Prop) : σ → Prop
  | now {s : σ} (h : P s) : Leads step P s
  | later {s : σ} (hgo : ∃ a t, step s a t) (hall : ∀ a t, step s a t → Leads step P t) :
    Leads step P s

namespace Leads

variable {step : σ → α → σ → Prop} {I P : σ → Prop}

/-- An invariant that has a next step where the property does not hold yet, and a measure that
every step decreases. -/
theorem of_measure (m : σ → Nat) (hgo : ∀ s, I s → ¬P s → ∃ a t, step s a t)
    (hless : ∀ s a t, I s → step s a t → I t ∧ m t < m s) {s : σ} (h : I s) : Leads step P s := by
  generalize hn : m s = n
  induction n using Nat.strongRecOn generalizing s with
  | ind n ih =>
    by_cases hp : P s
    · exact now hp
    · refine later (hgo s h hp) fun a t hstep => ?_
      obtain ⟨ht, hlt⟩ := hless s a t h hstep
      exact ih (m t) (hn ▸ hlt) ht rfl

end Leads

end RtKernel

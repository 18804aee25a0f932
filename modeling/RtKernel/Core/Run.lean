import Mathlib.Algebra.GroupWithZero.Nat
import Mathlib.Logic.Relation

/-!
# Runs of a transition system

A system is a set of initial states and a labelled step relation. What every
step preserves holds in every state that a run reaches.
-/

open Option

namespace RtKernel

variable {σ α : Type*} {step : σ → α → σ → Prop} {s t : σ} {exec : σ → α → Option σ} {acts : List α}
  {init : σ → Prop} {C : σ → α → Prop}

/-- The states reached from an initial one by steps. -/
def Reachable (init : σ → Prop) (step : σ → α → σ → Prop) (s : σ) : Prop :=
  ∃ s₀, init s₀ ∧ Relation.ReflTransGen (fun s t => ∃ a, step s a t) s₀ s

/-- The steps that are taken where the condition `C` holds. -/
def Within (step : σ → α → σ → Prop) (C : σ → α → Prop) (s : σ) (a : α) (t : σ) : Prop :=
  C s a ∧ step s a t

namespace Reachable

variable {I : σ → Prop} {C : σ → α → Prop}

theorem start (h : init s) : Reachable init step s := ⟨s, h, .refl⟩

theorem next {s t : σ} {a : α} (h : Reachable init step s) (hstep : step s a t) :
    Reachable init step t := by
  obtain ⟨s₀, h₀, hrun⟩ := h
  exact ⟨s₀, h₀, hrun.tail ⟨a, hstep⟩⟩

/-- An invariant that holds initially and is preserved by every step holds in every reached state. -/
theorem invariant (h : Reachable init step s) (hinit : ∀ s, init s → I s)
    (hstep : ∀ s a t, Reachable init step s → I s → step s a t → I t) : I s := by
  obtain ⟨s₀, h₀, hrun⟩ := h
  induction hrun with
  | refl => exact hinit s₀ h₀
  | tail hrun hlast ih =>
    obtain ⟨a, ha⟩ := hlast
    exact hstep _ a _ ⟨s₀, h₀, hrun⟩ ih ha

/-- An invariant whose steps need nothing of the run. -/
theorem induct (h : Reachable init step s) (hinit : ∀ {s}, init s → I s)
    (hstep : ∀ {s a t}, I s → step s a t → I t) : I s :=
  h.invariant (fun _ h₀ => hinit h₀) fun _ _ _ _ hI hlast => hstep hI hlast

/-- An invariant whose steps need the condition. -/
theorem inductWithin (h : Reachable init (Within step C) s)
    (hinit : ∀ {s}, init s → I s) (hstep : ∀ {s a t}, I s → C s a → step s a t → I t) : I s :=
  h.induct hinit fun hI hwithin => hstep hI hwithin.1 hwithin.2

/-- A run of the restricted system is one of the whole system. -/
theorem of_within (h : Reachable init (Within step C) s) :
    Reachable init step s :=
  h.invariant (fun _ h₀ => start h₀) fun _ _ _ _ ih hstep => ih.next hstep.2

end Reachable

/-- The labels of a list lead from one state to another. -/
inductive Along (step : σ → α → σ → Prop) (s : σ) : List α → σ → Prop
  | nil : Along step s [] s
  | next {labels : List α} {t u : σ} {a : α} (h : Along step s labels t) (hstep : step t a u) :
      Along step s (labels ++ [a]) u

/-- A step, labelled also with what can be seen of the state after it. -/
def Seen {ω : Type*} (step : σ → α → σ → Prop) (see : σ → ω) (s : σ) (l : α × ω) (t : σ) : Prop :=
  step s l.1 t ∧ see t = l.2

theorem Along.seen {ω : Type*} {see : σ → ω} {s t u : σ}
    {labels : List (α × ω)} {a : α} (h : Along (Seen step see) s labels t) (hstep : step t a u) :
    Along (Seen step see) s (labels ++ [(a, see u)]) u :=
  h.next ⟨hstep, rfl⟩

-- the threads of a run that is computed are numbered by literals
instance neZero_two : NeZero 2 := ⟨by decide⟩
instance neZero_three : NeZero 3 := ⟨by decide⟩
instance neZero_four : NeZero 4 := ⟨by decide⟩

/-- Take the actions one after the other. -/
def runAll (exec : σ → α → Option σ) : σ → List α → Option σ
  | s, [] => some s
  | s, a :: rest => (exec s a).bind fun t => runAll exec t rest

theorem runAll_concat {a : α}
    (h : runAll exec s (acts ++ [a]) = some t) : ∃ u, runAll exec s acts = some u ∧ exec u a = some t := by
  induction acts generalizing s with
  | nil =>
    obtain ⟨u, hu, hnil⟩ := bind_eq_some_iff.mp h
    cases hnil
    exact ⟨s, rfl, hu⟩
  | cons b rest ih =>
    obtain ⟨u, hu, hrest⟩ := bind_eq_some_iff.mp h
    obtain ⟨v, hv, ha⟩ := ih hrest
    exact ⟨v, bind_eq_some_iff.mpr ⟨u, hu, hv⟩, ha⟩

/-- A run of actions that are all steps of a system reaches where it ends. -/
theorem Reachable.runAll_steps
    (h : Reachable init step s)
    (hsteps : ∀ a ∈ acts, ∀ s t, exec s a = some t → step s a t) (hrun : runAll exec s acts = some t) :
    Reachable init step t := by
  induction acts generalizing s with
  | nil =>
    cases hrun
    exact h
  | cons a rest ih =>
    obtain ⟨u, hu, hrest⟩ := bind_eq_some_iff.mp hrun
    exact ih (h.next (hsteps a (.head _) s u hu)) (fun b hb => hsteps b (.tail a hb)) hrest

theorem Reachable.runAll
    (h : Reachable init (fun s a t => exec s a = some t) s) (hrun : runAll exec s acts = some t) :
    Reachable init (fun s a t => exec s a = some t) t :=
  h.runAll_steps (fun _ _ _ _ hexec => hexec) hrun

variable {init P : σ → Prop}

/-- A run that is computed reaches a state of which is known what was computed. -/
theorem Reachable.of_runAll {s : σ} (h : init s) (hrun : ∃ t ∈ RtKernel.runAll exec s acts, P t) :
    ∃ t, Reachable init (fun s a t => exec s a = some t) t ∧ P t := by
  obtain ⟨t, ht, hP⟩ := hrun
  exact ⟨t, (Reachable.start h).runAll ht, hP⟩

/-- A run of actions that meet the condition everywhere. -/
theorem Reachable.runAll_within
    (h : Reachable init (Within (fun s a t => exec s a = some t) C) s)
    (hC : ∀ a ∈ acts, ∀ s, C s a) (hrun : RtKernel.runAll exec s acts = some t) :
    Reachable init (Within (fun s a t => exec s a = some t) C) t :=
  h.runAll_steps (fun a ha s _ hexec => ⟨hC a ha s, hexec⟩) hrun

/-- Take the actions one after the other, each where the condition holds. -/
def runWithin (exec : σ → α → Option σ) (C : σ → α → Prop) [∀ s a, Decidable (C s a)] (s : σ)
    (acts : List α) : Option σ :=
  runAll (fun s a => if C s a then exec s a else none) s acts

theorem Reachable.runWithin
    [∀ s a, Decidable (C s a)]
    (h : Reachable init (Within (fun s a t => exec s a = some t) C) s)
    (hrun : runWithin exec C s acts = some t) :
    Reachable init (Within (fun s a t => exec s a = some t) C) t :=
  h.runAll_steps (fun _ _ _ _ hexec => ite_none_right_eq_some.mp hexec) hrun

theorem Reachable.of_runWithin
    [∀ s a, Decidable (C s a)] {s : σ}
    (h : init s) (hrun : ∃ t ∈ RtKernel.runWithin exec C s acts, P t) :
    ∃ t, Reachable init (Within (fun s a t => exec s a = some t) C) t ∧ P t := by
  obtain ⟨t, ht, hP⟩ := hrun
  exact ⟨t, (Reachable.start h).runWithin ht, hP⟩

end RtKernel

import RtKernel.Drivers.Pipe

/-!
# A wait queue with one waiter

The waiter tests a condition and waits, over and over; wakers make the condition true and
wake up the queue. Each action is one section with the interrupts locked. `ω` are the wakers.
-/

namespace RtKernel.WaitQueue

open Function

open Pipe (RtWqueue rtWqueueWakeup rtWqueueWait)

variable {τ ω : Type*}

/-- Where the waiter is. -/
inductive Phase
  /-- It tests the condition next. -/
  | tests
  /-- It is in `rt_wqueue_wait` next, with the condition as it was tested. -/
  | waits (condition : Bool)
  | suspended
  /-- It has been resumed and clears the flag next. -/
  | resumed
  /-- It has cleared the flag and removes its node next. -/
  | removes
  deriving DecidableEq

/-- The queue and the condition, the waiter, and who is between its two steps. -/
structure Sys (τ ω : Type*) where
  queue : RtWqueue τ
  condition : Bool
  phase : Phase
  between : ω → Bool

/-- The next section of the waiter or of a waker; the condition may become false at any time. -/
inductive Act (ω : Type*)
  | waiter
  | makes (waker : ω)
  | wakes (waker : ω)
  | falsifies

variable [DecidableEq τ] [DecidableEq ω]

namespace Sys

/-- A section of the waiter, in `rt_wqueue_wait` without a timeout. -/
def waiter (tid : τ) (s : Sys τ ω) : Option (Sys τ ω) :=
  match s.phase with
  | .tests => some { s with phase := .waits s.condition }
  | .waits true => some { s with phase := .tests }
  | .waits false =>
    let (queue, suspended) := rtWqueueWait s.queue tid
    some { s with queue := queue, phase := if suspended then .suspended else .removes }
  | .suspended => none
  | .resumed => some { s with queue := { s.queue with flag := false }, phase := .removes }
  | .removes =>
    some { s with
      queue := { s.queue with waitingList := s.queue.waitingList.filter (· ≠ tid) }
      phase := .tests }

/-- `rt_wqueue_wakeup`. -/
def wakes (tid : τ) (waker : ω) (s : Sys τ ω) : Sys τ ω :=
  let (queue, resumed) := rtWqueueWakeup s.queue
  { s with
    queue := queue
    phase := if resumed = some tid ∧ s.phase = .suspended then .resumed else s.phase
    between := update s.between waker false }

def exec (tid : τ) (s : Sys τ ω) : Act ω → Option (Sys τ ω)
  | .waiter => s.waiter tid
  | .makes waker =>
    if s.between waker = true then none
    else some { s with condition := true, between := update s.between waker true }
  | .wakes waker => if s.between waker = true then some (s.wakes tid waker) else none
  | .falsifies => some { s with condition := false }

def Step (tid : τ) (s : Sys τ ω) (a : Act ω) (s' : Sys τ ω) : Prop := s.exec tid a = some s'

/-- After `rt_wqueue_init`. -/
def Initial (s : Sys τ ω) : Prop :=
  s.queue = { flag := false, waitingList := [] } ∧ s.phase = .tests ∧ ∀ w, s.between w = false

/-- The waiter is in the list while it is suspended. When it is, or is about to be, with the
condition true, then somebody is still to wake it up; a wake-up before it is suspended is in
the flag. -/
structure Kept (tid : τ) (s : Sys τ ω) : Prop where
  list : s.queue.waitingList = if s.phase = .suspended then [tid] else []
  suspended : s.phase = .suspended → s.condition = true → ∃ w, s.between w = true
  waits : s.phase = .waits false → s.condition = true →
    s.queue.flag = true ∨ ∃ w, s.between w = true

variable {tid : τ} {s s' : Sys τ ω} {a : Act ω}

section

omit [DecidableEq τ] [DecidableEq ω]

theorem kept_of_initial (h : Initial s) : Kept tid s := by
  obtain ⟨hqueue, hphase, -⟩ := h
  constructor
  · rw [hqueue, hphase, if_neg (by decide)]
  · intro hsuspended
    exact absurd (hphase.symm.trans hsuspended) (by decide)
  · intro hwaits
    exact absurd (hphase.symm.trans hwaits) (by decide)

/-- A waiter that is neither suspended nor about to be needs no wake-up. -/
theorem kept_of_awake (hlist : s.queue.waitingList = []) (hsuspended : s.phase ≠ .suspended)
    (hwaits : s.phase = .waits false → s.condition = false) : Kept tid s where
  list := by rw [hlist, if_neg hsuspended]
  suspended h := absurd h hsuspended
  waits h hcondition := absurd (hcondition.symm.trans (hwaits h)) Bool.noConfusion

end

omit [DecidableEq ω] in
/-- What the waiter does. The flag is cleared only where the condition is tested again. -/
theorem Kept.waiter (h : Kept tid s) (hstep : s.waiter tid = some s') : Kept tid s' := by
  have hlist := h.list
  unfold Sys.waiter at hstep
  cases hphase : s.phase with
  | tests =>
    rw [hphase] at hstep hlist
    cases hstep
    refine kept_of_awake hlist nofun fun hwaits => ?_
    exact Phase.waits.inj hwaits
  | waits condition =>
    rw [hphase] at hstep hlist
    cases condition with
    | true =>
      cases hstep
      exact kept_of_awake hlist nofun nofun
    | false =>
      cases hflag : s.queue.flag with
      | true =>
        simp only [rtWqueueWait, hflag, if_true, Option.some.injEq] at hstep
        rw [← hstep]
        exact kept_of_awake hlist nofun nofun
      | false =>
        simp only [rtWqueueWait, hflag, Option.some.injEq] at hstep
        rw [← hstep]
        refine ⟨?_, fun _ hcondition => ?_, nofun⟩
        · rw [if_neg (by decide)] at hlist
          exact congrArg (· ++ [tid]) hlist
        · obtain hset | hbetween := h.waits hphase hcondition
          · exact absurd (hset.symm.trans hflag) Bool.noConfusion
          · exact hbetween
  | suspended =>
    rw [hphase] at hstep
    cases hstep
  | resumed =>
    rw [hphase] at hstep hlist
    cases hstep
    exact kept_of_awake hlist nofun nofun
  | removes =>
    rw [hphase] at hstep hlist
    cases hstep
    refine kept_of_awake ?_ nofun nofun
    exact congrArg (List.filter (· ≠ tid)) hlist

/-- A wake-up resumes the waiter, or leaves the flag for it. -/
theorem Kept.wakes (h : Kept tid s) (w : ω) : Kept tid (s.wakes tid w) := by
  have hlist := h.list
  unfold Sys.wakes rtWqueueWakeup
  by_cases hphase : s.phase = .suspended
  · rw [if_pos hphase] at hlist
    simp only [hlist, hphase, and_self, if_true]
    exact kept_of_awake rfl nofun nofun
  · rw [if_neg hphase] at hlist
    simp only [hlist, hphase, and_false, if_false]
    refine ⟨?_, fun hno => absurd hno hphase, fun _ _ => .inl rfl⟩
    rw [if_neg hphase]

theorem Kept.step (h : Kept tid s) (hstep : s.Step tid a s') : Kept tid s' := by
  cases a with
  | waiter => exact h.waiter hstep
  | makes w =>
    obtain ⟨-, hmade⟩ := Option.ite_none_left_eq_some.mp hstep
    cases hmade
    have hbetween : ∃ v, update s.between w true v = true := ⟨w, update_self ..⟩
    exact ⟨h.list, fun _ _ => hbetween, fun _ _ => .inr hbetween⟩
  | wakes w =>
    obtain ⟨-, hwoken⟩ := Option.ite_none_right_eq_some.mp hstep
    cases hwoken
    exact h.wakes w
  | falsifies =>
    cases hstep
    exact ⟨h.list, fun _ hno => absurd hno Bool.false_ne_true,
      fun _ hno => absurd hno Bool.false_ne_true⟩

/-- The waiter is never suspended while the condition is true and no waker is between its two
steps. -/
theorem reachable_not_lost (h : Reachable Initial (Step tid) s) :
    ¬ (s.phase = .suspended ∧ s.condition = true ∧ ∀ w, s.between w = false) := by
  rintro ⟨hsuspended, hcondition, hnone⟩
  have hkept : Kept tid s :=
    h.invariant (fun _ h₀ => kept_of_initial h₀) fun _ _ _ _ ih hstep => ih.step hstep
  obtain ⟨w, hw⟩ := hkept.suspended hsuspended hcondition
  exact absurd (hw.symm.trans (hnone w)) Bool.noConfusion

/-- The condition is false, and nobody has used the queue. -/
def fresh : Sys Unit Unit :=
  { queue := { flag := false, waitingList := [] }, condition := false, phase := .tests
    between := fun _ => false }

/-- A waker makes its two steps between the test and the wait, and the waiter goes on. -/
theorem reachable_not_lost_early :
    ∃ s : Sys Unit Unit,
      runAll (exec ()) fresh [Act.waiter, .makes (), .wakes (), .waiter] = some s ∧
        s.phase = .removes ∧
        ¬ (s.phase = .suspended ∧ s.condition = true ∧ ∀ w, s.between w = false) := by
  obtain ⟨s, hrun, hphase⟩ : ∃ s : Sys Unit Unit,
      runAll (exec ()) fresh [Act.waiter, .makes (), .wakes (), .waiter] = some s ∧
        s.phase = .removes :=
    ⟨_, rfl, rfl⟩
  have hfresh : Initial fresh := ⟨rfl, rfl, fun _ => rfl⟩
  have hreach : Reachable Initial (Step ()) s := (Reachable.start hfresh).runAll hrun
  exact ⟨s, hrun, hphase, reachable_not_lost hreach⟩

end Sys

end RtKernel.WaitQueue

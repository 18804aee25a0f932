import RtKernel.Drivers.WorkPlaces

/-!
# What is owed to works

A submission that has been accepted is owed one execution, until the work is cancelled
or submitted again. A delay that ends while the work is being done, and a submission
that is refused while the work is in a list, are the steps that lose one.
-/

open Option

namespace RtKernel.Workqueue

/-- The queues with an account of every work. -/
structure Ledger (κ ω : Type*) where
  queues : Queues κ ω
  /-- How often the work has been done since its last submission was accepted, if it has not been
  cancelled or submitted again since then. -/
  owed : ω → Option Nat
  /-- The last submission of the work has been interrupted and has not returned. -/
  returning : ω → Bool

namespace Ledger

variable {κ ω : Type*} [DecidableEq κ] [DecidableEq ω]

/-- A submission returns. -/
def settle (s : Ledger κ ω) (w : ω) : Queues κ ω × WorkErr → Ledger κ ω
  | (queues, .eok) =>
    { queues := queues
      owed := Function.update s.owed w (some 0)
      returning := Function.update s.returning w false }
  | (queues, _) => { s with queues := queues }

/-- The thread of a queue takes a work. -/
def count (s : Ledger κ ω) (q : κ) : ω → Option Nat :=
  match s.queues.workThread q, s.queues.workList q with
  | .looks, w :: _ => Function.update s.owed w ((s.owed w).map (· + 1))
  | _, _ => s.owed

/-- One step of a run, with what it returns. -/
def exec (s : Ledger κ ω) : Queues.Act κ ω → Option (Ledger κ ω)
  | .dowork q w => (s.queues.rtWorkqueueDowork q w).map (s.settle w)
  | .submit q w ticks => (s.queues.rtWorkqueueSubmitWork q w ticks).map (s.settle w)
  | .urgent q w => some (s.settle w (s.queues.rtWorkqueueUrgentWork q w))
  | .cancel q w => (s.queues.rtWorkqueueCancelWork q w).map fun (queues, _) =>
      { queues := queues
        owed := Function.update s.owed w none
        returning := Function.update s.returning w false }
  | .submitInterrupted q w ticks =>
    (s.queues.exec (.submitInterrupted q w ticks)).map fun queues =>
      { queues := queues
        owed := Function.update s.owed w none
        returning := Function.update s.returning w true }
  | .submitResumed w =>
    (s.queues.exec (.submitResumed w)).map fun queues =>
      if s.returning w = true then s.settle w (queues, .eok) else { s with queues := queues }
  | .timeout w => (s.queues.exec (.timeout w)).map fun queues => { s with queues := queues }
  | .thread q => (s.queues.exec (.thread q)).map fun queues =>
      { s with queues := queues, owed := s.count q }

/-- Nothing has been submitted. -/
def Initial (s : Ledger κ ω) : Prop :=
  s.queues.Initial ∧ s.owed = (fun _ => none) ∧ s.returning = fun _ => false

end Ledger

namespace Queues

variable {κ ω : Type*} {s s' : Queues κ ω} {q : κ} {w : ω}

/-- A work is in a list of works to be done. -/
def Queued (s : Queues κ ω) (w : ω) : Prop := ∃ p, w ∈ s.workList p

/-- The delay of a work will end, and it is known in which queue. -/
def Armed (s : Queues κ ω) (w : ω) : Prop :=
  (s.work w).timer.activated = true ∧ (s.work w).workqueue ≠ none

/-- The queue is doing no work outside `work_func`, and its thread is not suspended while there is
something to do. -/
def Restful (s : Queues κ ω) (q : κ) : Prop :=
  (s.workThread q ≠ .works → s.workCurrent q = none) ∧
    (s.workThread q = .suspended → s.workList q = [])

section

variable [DecidableEq ω]

/-- A withdrawn work is in no list, and its timer and its queue are as they were. -/
theorem withdraw_spec : ¬ (s.withdraw w).Queued w ∧ ((s.withdraw w).Armed w ↔ s.Armed w) ∧
    ((s.withdraw w).work w).workqueue = (s.work w).workqueue := by
  refine ⟨fun ⟨p, hp⟩ => withdraw_workList p hp, ?_, ?_⟩
  · unfold Armed
    rw [withdraw_work]
  · rw [withdraw_work]

theorem restful_rtListRemove (h : ∀ p, s.Restful p) (w : ω) (p : κ) :
    (s.rtListRemove w).Restful p := by
  refine ⟨(h p).1, fun hsuspended => ?_⟩
  show RtKernel.rtListRemove (s.workList p) w = []
  rw [(h p).2 hsuspended]
  rfl

theorem restful_withdraw (h : ∀ p, s.Restful p) (w : ω) (p : κ) : (s.withdraw w).Restful p :=
  restful_rtListRemove h w p

end

section

variable [DecidableEq κ]

/-- A thread with nothing to do but what has just been inserted is resumed. -/
theorem restful_resumeThread (hothers : ∀ p, p ≠ q → s.Restful p)
    (hcurrent : s.workThread q ≠ .works → s.workCurrent q = none) (p : κ) :
    (s.resumeThread q).Restful p := by
  unfold resumeThread
  by_cases hidle : s.workCurrent q = none ∧ s.workThread q = .suspended
  · rw [if_pos hidle]
    by_cases hp : p = q
    · subst hp
      refine ⟨fun _ => hidle.1, fun hsuspended => ?_⟩
      have hlooks : Function.update s.workThread p .looks p = .suspended := hsuspended
      rw [Function.update_self] at hlooks
      cases hlooks
    · have hkept : Function.update s.workThread q .looks p = s.workThread p :=
        Function.update_of_ne hp _ _
      unfold Restful
      dsimp only
      rw [hkept]
      exact hothers p hp
  · rw [if_neg hidle]
    by_cases hp : p = q
    · subst hp
      refine ⟨hcurrent, fun hsuspended => ?_⟩
      have hworks : s.workThread p ≠ .works := by
        rw [hsuspended]
        simp only [ne_eq, reduceCtorEq, not_false_eq_true]
      exact absurd ⟨hcurrent hworks, hsuspended⟩ hidle
    · exact hothers p hp

/-- An insertion into a list with the resumption that follows it. -/
theorem restful_insert (h : ∀ p, s.Restful p) (items : List ω) (work : ω → RtWork κ) (p : κ) :
    (({ s with work := work, workList := Function.update s.workList q items } : Queues κ ω).resumeThread
      q).Restful p := by
  apply restful_resumeThread
  · intro p hp
    refine ⟨(h p).1, fun hsuspended => ?_⟩
    show Function.update s.workList q items p = []
    rw [Function.update_of_ne hp]
    exact (h p).2 hsuspended
  · exact (h q).1

theorem queued_resumeThread : (s.resumeThread q).Queued w ↔ s.Queued w := by
  obtain ⟨workThread, heq⟩ := resumeThread_eq (s := s) (q := q)
  rw [heq]
  exact Iff.rfl

theorem work_resumeThread : (s.resumeThread q).work = s.work := by
  obtain ⟨workThread, heq⟩ := resumeThread_eq (s := s) (q := q)
  rw [heq]

end

variable [DecidableEq κ] [DecidableEq ω]

section

variable (h : ∀ p, s.Restful p) {ticks : Nat}
include h

/-- A work that is not being done by the queue is put into its list. -/
theorem submitNow_accept (hcurrent : s.workCurrent q ≠ some w) :
    ∃ s', s.submitNow q w = (s', .eok) ∧ Touches w s s' ∧ s'.Queued w ∧ ∀ p, s'.Restful p := by
  have hwithdrawn : (s.withdraw w).workCurrent q ≠ some w := hcurrent
  unfold submitNow
  simp only [if_pos hwithdrawn]
  refine ⟨_, rfl, ?_, ?_, ?_⟩
  · exact ((touches_withdraw.trans touches_insertWork).trans (touches_setWork)).trans
      touches_resumeThread
  · rw [queued_resumeThread]
    exact ⟨q, (mem_insertWork q).mpr (.inl ⟨rfl, rfl⟩)⟩
  · exact restful_insert (restful_withdraw h w) _ _

/-- A work that is being done by the queue is withdrawn and refused. -/
theorem submitNow_refuse (hcurrent : s.workCurrent q = some w) :
    ∃ s', s.submitNow q w = (s', .ebusy) ∧ Touches w s s' ∧ ¬ s'.Queued w ∧
      (s'.Armed w ↔ s.Armed w) ∧ (s'.work w).workqueue = (s.work w).workqueue ∧
      ∀ p, s'.Restful p := by
  obtain ⟨hqueued, harmed, hqueue⟩ := withdraw_spec (s := s) (w := w)
  have hrestful := restful_withdraw h w
  have hwithdrawn : ¬ (s.withdraw w).workCurrent q ≠ some w := not_not.mpr hcurrent
  unfold submitNow
  simp only [if_neg hwithdrawn]
  refine ⟨_, rfl, touches_withdraw.trans touches_resumeThread, ?_, ?_, ?_, ?_⟩
  · rw [queued_resumeThread]
    exact hqueued
  · unfold Armed
    rw [work_resumeThread]
    exact harmed
  · rw [work_resumeThread]
    exact hqueue
  · exact restful_resumeThread (fun p _ => hrestful p) (hrestful q).1

omit h in
theorem submitLater_cases (hlater : s.submitLater q w ticks = some s') :
    ∃ timer : RtTimer, timer.activated = false ∧ timer.attached = true ∧
      s' = (((s.withdraw w).setWork w fun x => { x with timer := timer, submitting := true }).setWork w
        fun x => { x with workqueue := some q }).insertDelayed q w := by
  obtain ⟨timer, htimer, rfl⟩ := map_eq_some_iff.mp hlater
  by_cases hsubmitting : ((s.withdraw w).work w).submitting = true
  · rw [if_pos hsubmitting] at htimer
    obtain ⟨stopped, hstop, hcontrol⟩ := bind_eq_some_iff.mp htimer
    obtain ⟨-, hstop⟩ := ite_none_right_eq_some.mp hstop
    obtain ⟨hstopped, hcontrol⟩ := ite_none_right_eq_some.mp hcontrol
    refine ⟨timer, ?_, ?_, rfl⟩
    · rw [← some.inj hcontrol, ← some.inj hstop]
    · rw [← some.inj hcontrol]
      exact hstopped.1
  · rw [if_neg hsubmitting] at htimer
    obtain ⟨-, htimer⟩ := ite_none_right_eq_some.mp htimer
    exact ⟨timer, by rw [← some.inj htimer], by rw [← some.inj htimer], rfl⟩

/-- A delayed work is in no list of works to be done, and its timer is off until it is started. -/
theorem submitLater_spec (hlater : s.submitLater q w ticks = some s') :
    Touches w s s' ∧ ¬ s'.Queued w ∧ (s'.work w).timer.activated = false ∧
      (s'.work w).workqueue = some q ∧ ∀ p, s'.Restful p := by
  have hrestful := restful_withdraw h w
  obtain ⟨timer, hoff, -, rfl⟩ := submitLater_cases hlater
  refine ⟨?_, fun ⟨p, hp⟩ => withdraw_workList p hp, ?_, ?_, hrestful⟩
  · exact ((touches_withdraw.trans (touches_setWork)).trans (touches_setWork)).trans
      touches_insertDelayed
  · have hself : ∀ s : Queues κ ω, (s.insertDelayed q w).work w = s.work w := fun _ => rfl
    rw [hself, setWork_self, setWork_self]
    exact hoff
  · have hself : ∀ s : Queues κ ω, (s.insertDelayed q w).work w = s.work w := fun _ => rfl
    rw [hself, setWork_self]

omit [DecidableEq κ] in
theorem startTimer_spec (hstart : s.startTimer w = some s') :
    Touches w s s' ∧ (s'.Queued w ↔ s.Queued w) ∧ (s'.work w).timer.activated = true ∧
      (s'.work w).workqueue = (s.work w).workqueue ∧ ∀ p, s'.Restful p := by
  obtain ⟨timer, htimer, rfl⟩ := map_eq_some_iff.mp hstart
  obtain ⟨-, htimer⟩ := ite_none_right_eq_some.mp htimer
  have hon : timer.activated = true := by rw [← some.inj htimer]
  refine ⟨touches_setWork, Iff.rfl, ?_, ?_, h⟩
  · rw [setWork_self]
    exact hon
  · rw [setWork_self]

/-- An urged work is in a list, and its timer and its queue are as they were. -/
theorem urgent_spec :
    Touches w s (s.rtWorkqueueUrgentWork q w).1 ∧ (s.rtWorkqueueUrgentWork q w).1.Queued w ∧
      (s.rtWorkqueueUrgentWork q w).1.work = s.work ∧
      ∀ p, (s.rtWorkqueueUrgentWork q w).1.Restful p := by
  unfold rtWorkqueueUrgentWork
  refine ⟨?_, ?_, ?_, ?_⟩
  · exact (touches_rtListRemove.trans touches_insertUrgent).trans touches_resumeThread
  · rw [queued_resumeThread]
    exact ⟨q, (mem_insertUrgent q).mpr (.inl ⟨rfl, rfl⟩)⟩
  · rw [work_resumeThread]
    rfl
  · exact restful_insert (restful_rtListRemove h w) _ _

omit [DecidableEq κ] in
/-- A cancelled work is in no list and belongs to no queue. -/
theorem cancel_spec {err : WorkErr} (hcancel : s.workqueueCancelWork q w = some (s', err)) :
    Touches w s s' ∧ ¬ s'.Queued w ∧ (s'.work w).workqueue = none ∧ ∀ p, s'.Restful p := by
  have hstopped : ∃ t : Queues κ ω, Touches w s t ∧ ¬ t.Queued w ∧ (∀ p, t.Restful p) ∧
      s' = t.setWork w fun x => { x with workqueue := none } := by
    obtain ⟨t, ht, heq⟩ := map_eq_some_iff.mp hcancel
    refine ⟨t, ?_⟩
    by_cases hsubmitting : ((s.withdraw w).work w).submitting = true
    · simp only [if_pos hsubmitting] at ht
      obtain ⟨timer, -, rfl⟩ := map_eq_some_iff.mp ht
      exact ⟨touches_withdraw.trans (touches_setWork), withdraw_spec.1, restful_withdraw h w,
        (Prod.mk.inj heq).1.symm⟩
    · simp only [if_neg hsubmitting] at ht
      cases ht
      exact ⟨touches_withdraw, withdraw_spec.1, restful_withdraw h w, (Prod.mk.inj heq).1.symm⟩
  obtain ⟨t, htouches, hqueued, hrestful, rfl⟩ := hstopped
  refine ⟨htouches.trans (touches_setWork), hqueued, ?_, hrestful⟩
  rw [setWork_self]

end

theorem insertUnless_spec {p : κ} (h : ∀ q, s.Restful q) (hnone : ¬ s.Queued w) (hs' : s' =
    (if s.workCurrent p ≠ some w then (s.insertWork p w).setWork w fun x => { x with pending := true }
      else s).resumeThread p) :
    Touches w s s' ∧ (s'.work w).timer = (s.work w).timer ∧
      (s'.work w).workqueue = (s.work w).workqueue ∧ (s'.Queued w ↔ s.workCurrent p ≠ some w) ∧
      ∀ q, s'.Restful q := by
  by_cases hcurrent : s.workCurrent p ≠ some w
  · rw [if_pos hcurrent] at hs'
    subst hs'
    refine ⟨?_, ?_, ?_, ?_, ?_⟩
    · exact (touches_insertWork.trans (touches_setWork)).trans touches_resumeThread
    · rw [work_resumeThread, setWork_self]
      rfl
    · rw [work_resumeThread, setWork_self]
      rfl
    · rw [queued_resumeThread]
      exact iff_of_true ⟨p, (mem_insertWork p).mpr (.inl ⟨rfl, rfl⟩)⟩ hcurrent
    · exact restful_insert h _ _
  · rw [if_neg hcurrent] at hs'
    subst hs'
    refine ⟨?_, ?_, ?_, ?_, ?_⟩
    · exact touches_resumeThread
    · rw [work_resumeThread]
    · rw [work_resumeThread]
    · rw [queued_resumeThread]
      exact iff_of_false hnone hcurrent
    · exact restful_resumeThread (fun q _ => h q) (h p).1

section

variable (h : ∀ p, s.Restful p)
include h

omit h in
theorem timeout_cases (htimeout : s.timeout w = some s') : ∃ p timer t, (s.work w).workqueue = some p ∧
    (s.work w).timer.activated = true ∧
    rtTimerDetach { (s.work w).timer with activated := false } = some timer ∧
    t = (s.setWork w fun x => { x with timer := timer, submitting := false }).rtListRemove w ∧
    t.work w = { s.work w with timer := timer, submitting := false } ∧
    s' = (if t.workCurrent p ≠ some w then
      (t.insertWork p w).setWork w fun x => { x with pending := true } else t).resumeThread p := by
  obtain ⟨hactivated, htimeout⟩ := ite_none_right_eq_some.mp htimeout
  unfold delayedWorkTimeoutHandler at htimeout
  rw [setWork_self] at htimeout
  cases hqueue : (s.work w).workqueue with
  | none =>
    simp only [hqueue, reduceCtorEq] at htimeout
  | some p =>
    simp only [hqueue, setWork_setWork] at htimeout
    obtain ⟨timer, htimer, hs'⟩ := map_eq_some_iff.mp htimeout
    exact ⟨p, timer, _, rfl, hactivated, htimer, rfl,
      setWork_self (s := s) fun x => { x with timer := timer, submitting := false }, hs'.symm⟩

/-- A work whose delay is over is in a list, unless it is being done. -/
theorem timeout_spec (htimeout : s.timeout w = some s') :
    ∃ p, (s.work w).workqueue = some p ∧ (s.work w).timer.activated = true ∧ Touches w s s' ∧
      (s'.work w).timer.activated = false ∧ (s'.work w).workqueue = some p ∧
      (s'.Queued w ↔ s.workCurrent p ≠ some w) ∧ ∀ q, s'.Restful q := by
  obtain ⟨p, timer, t, hqueue, hactivated, htimer, rfl, hwork, hs'⟩ := timeout_cases htimeout
  obtain ⟨-, htimer⟩ := ite_none_right_eq_some.mp htimer
  have hoff : timer.activated = false := by rw [← some.inj htimer]
  obtain ⟨htouches, htimer', hqueue', hqueued, hrestful⟩ := insertUnless_spec
    (restful_rtListRemove (s := s.setWork w _) h w) (fun ⟨_, hp⟩ => (mem_rtListRemove.mp hp).2 rfl)
    hs'
  refine ⟨p, hqueue, hactivated, ?_, ?_, ?_, hqueued, hrestful⟩
  · exact ((touches_setWork).trans touches_rtListRemove).trans htouches
  · rw [htimer', hwork]
    exact hoff
  · rw [hqueue', hwork]
    exact hqueue

omit [DecidableEq κ] [DecidableEq ω] in
/-- A step of one thread leaves the others as they are. -/
theorem restful_thread
    (hothers : ∀ p, p ≠ q → s'.workCurrent p = s.workCurrent p ∧ s'.workThread p = s.workThread p ∧
      (s.workList p = [] → s'.workList p = [])) (hq : s'.Restful q) (p : κ) : s'.Restful p := by
  by_cases hp : p = q
  · exact hp ▸ hq
  · obtain ⟨hcurrent, hthread, hlist⟩ := hothers p hp
    constructor
    · rw [hcurrent, hthread]
      exact (h p).1
    · rw [hthread]
      exact fun hsuspended => hlist ((h p).2 hsuspended)

/-- The thread of a queue takes the first work of its list, or leaves all works alone. -/
theorem workqueueThreadEntry_spec
    (hthread : s.workqueueThreadEntry q = some s') : (∀ p, s'.Restful p) ∧
      ((∃ w rest, s.workThread q = .looks ∧ s.workList q = w :: rest ∧ Touches w s s' ∧
        ¬ s'.Queued w ∧ (s'.work w).workqueue = none) ∨
      (s.workThread q = .looks → s.workList q = []) ∧ s'.work = s.work ∧
        s'.workList = s.workList) := by
  unfold workqueueThreadEntry at hthread
  cases hstate : s.workThread q with
  | suspended =>
    rw [hstate] at hthread
    cases hthread
  | looks =>
    have hcurrent : s.workCurrent q = none :=
      (h q).1 (by simp only [hstate, ne_eq, reduceCtorEq, not_false_eq_true])
    rw [hstate] at hthread
    cases hlist : s.workList q with
    | nil =>
      rw [hlist] at hthread
      cases hthread
      refine ⟨restful_thread h (fun p hp => ⟨rfl, Function.update_of_ne hp _ _, id⟩) ?_,
        .inr ⟨fun _ => rfl, rfl, rfl⟩⟩
      exact ⟨fun _ => hcurrent, fun _ => hlist⟩
    | cons w rest =>
      rw [hlist] at hthread
      cases hthread
      refine ⟨restful_thread h (q := q) (fun p hp => ⟨Function.update_of_ne hp _ _,
        Function.update_of_ne hp _ _, ?_⟩) ⟨?_, ?_⟩, .inl ⟨w, rest, rfl, rfl, ?_, ?_, ?_⟩⟩
      · intro hnil
        show RtKernel.rtListRemove (s.workList p) w = []
        rw [hnil]
        rfl
      · exact fun hworks => absurd (Function.update_self q _ _) hworks
      · intro hsuspended
        have hworks : Function.update s.workThread q .works q = .suspended := hsuspended
        rw [Function.update_self] at hworks
        cases hworks
      · have htouches : Touches w s ((s.rtListRemove w).setWork w fun x =>
            { x with pending := false, workqueue := none }) :=
          touches_rtListRemove.trans (touches_setWork)
        exact ⟨htouches.starting, htouches.work, htouches.workList, htouches.delayedList⟩
      · exact fun ⟨p, hp⟩ => (mem_rtListRemove.mp hp).2 rfl
      · show RtWork.workqueue (Function.update s.work w
          { s.work w with pending := false, workqueue := none } w) = none
        rw [Function.update_self]
  | works =>
    rw [hstate] at hthread
    cases hthread
    refine ⟨restful_thread h (q := q) (fun p hp => ⟨Function.update_of_ne hp _ _,
      Function.update_of_ne hp _ _, id⟩) ⟨?_, ?_⟩, .inr ⟨fun h => (by cases h), rfl, rfl⟩⟩
    · exact fun _ => Function.update_self q _ _
    · intro hsuspended
      have hcompletes : Function.update s.workThread q .completes q = .suspended := hsuspended
      rw [Function.update_self] at hcompletes
      cases hcompletes
  | completes =>
    have hcurrent : s.workCurrent q = none :=
      (h q).1 (by simp only [hstate, ne_eq, reduceCtorEq, not_false_eq_true])
    rw [hstate] at hthread
    cases hthread
    refine ⟨restful_thread h (fun p hp => ⟨rfl, Function.update_of_ne hp _ _, id⟩) ⟨?_, ?_⟩,
      .inr ⟨fun h => (by cases h), rfl, rfl⟩⟩
    · exact fun _ => hcurrent
    · intro hsuspended
      have hlooks : Function.update s.workThread q .looks q = .suspended := hsuspended
      rw [Function.update_self] at hlooks
      cases hlooks

end

end Queues

namespace Ledger

variable {κ ω : Type*} {s t : Ledger κ ω} {q : κ} {w : ω} {owed : Option Nat} {returning : Bool}

/-- What is owed is to be done, waits for its delay, or has been done once. -/
structure Kept (s : Ledger κ ω) : Prop where
  owed : ∀ w n, s.owed w = some n → n = 0 ∧ (s.queues.Queued w ∨ s.queues.Armed w) ∨ n = 1
  restful : ∀ q, ¬ (s.queues.workThread q = .suspended ∧ s.queues.workList q ≠ [] ∧
    s.queues.workCurrent q = none)

/-- A work is not refused while its last submission is in a list only, and no delay ends while the
work is being done. -/
def Careful [DecidableEq ω] (s : Ledger κ ω) : Queues.Act κ ω → Prop
  | .dowork q w => s.queues.workCurrent q = some w → s.queues.Queued w → s.queues.Armed w
  | .submit q w ticks => ticks = 0 → s.queues.workCurrent q = some w → s.queues.Queued w →
      s.queues.Armed w
  | .timeout w => ∀ q, (s.queues.work w).workqueue = some q → s.queues.workCurrent q ≠ some w
  | .urgent _ _ | .cancel _ _ | .submitInterrupted _ _ _ | .submitResumed _ | .thread _ => True

/-- The account of one work. -/
structure Entry (queues : Queues κ ω) (w : ω) (owed : Option Nat) (returning : Bool) : Prop where
  waits : owed = some 0 ↔ queues.Queued w ∨ queues.Armed w
  most : ∀ n, owed = some n → n = 0 ∨ n = 1
  unreturned : returning = true → owed = none ∧ (queues.work w).workqueue ≠ none
  workqueue : (queues.work w).workqueue ≠ none → owed = some 0 ∨ returning = true

/-- All accounts are in order, and all threads are. -/
structure Good (s : Ledger κ ω) : Prop where
  entry : ∀ w, Entry s.queues w (s.owed w) (s.returning w)
  restful : ∀ q, s.queues.Restful q

theorem Good.kept (h : Good s) : Kept s := by
  constructor
  · intro w n hn
    rcases (h.entry w).most n hn with rfl | rfl
    · exact .inl ⟨rfl, (h.entry w).waits.mp hn⟩
    · exact .inr rfl
  · rintro q ⟨hsuspended, hlist, -⟩
    exact hlist ((h.restful q).2 hsuspended)

theorem Entry.touches {queues queues' : Queues κ ω} {v : ω}
    (h : Entry queues v owed returning) (ht : Queues.Touches w queues queues') (hv : v ≠ w) :
    Entry queues' v owed returning := by
  have hwork := ht.work v hv
  have hqueued : queues'.Queued v ↔ queues.Queued v := by
    constructor
    · exact fun ⟨p, hp⟩ => ⟨p, (ht.workList v hv p).mp hp⟩
    · exact fun ⟨p, hp⟩ => ⟨p, (ht.workList v hv p).mpr hp⟩
  have harmed : queues'.Armed v ↔ queues.Armed v := by
    unfold Queues.Armed
    rw [hwork]
  constructor
  · rw [h.waits, hqueued, harmed]
  · exact h.most
  · rw [hwork]
    exact h.unreturned
  · rw [hwork]
    exact h.workqueue

variable {queues : Queues κ ω}

/-- Of a step that touches one work only its account has to be looked at. -/
theorem Good.update [DecidableEq ω]
    (h : Good s) (ht : Queues.Touches w s.queues queues) (hrestful : ∀ q, queues.Restful q)
    (hw : Entry queues w owed returning) : Good
      { queues := queues
        owed := Function.update s.owed w owed
        returning := Function.update s.returning w returning } := by
  constructor
  · intro v
    by_cases hv : v = w
    · subst hv
      simpa only [Function.update_self] using hw
    · simp only [Function.update_of_ne hv]
      exact (h.entry v).touches ht hv
  · exact hrestful

theorem Good.keep (h : Good s) (ht : Queues.Touches w s.queues queues)
    (hrestful : ∀ q, queues.Restful q) (hw : Entry queues w (s.owed w) (s.returning w)) :
    Good { s with queues := queues } := by
  constructor
  · intro v
    by_cases hv : v = w
    · exact hv ▸ hw
    · exact (h.entry v).touches ht hv
  · exact hrestful

/-- It does not matter whose submission has been interrupted. -/
theorem Good.starting (h : Good s) (starting : List ω) :
    Good { s with queues := { s.queues with starting := starting } } := by
  constructor
  · intro w
    exact ⟨(h.entry w).waits, (h.entry w).most, (h.entry w).unreturned, (h.entry w).workqueue⟩
  · exact h.restful

theorem Entry.accept (h : queues.Queued w ∨ queues.Armed w) : Entry queues w (some 0) false := by
  constructor
  · exact iff_of_true rfl h
  · intro n hn
    cases hn
    exact .inl rfl
  · intro hfalse
    cases hfalse
  · exact fun _ => .inl rfl

theorem Entry.drop (hqueued : ¬ queues.Queued w)
    (hqueue : (queues.work w).workqueue = none) : Entry queues w none false := by
  constructor
  · exact iff_of_false (by simp) fun h => h.elim hqueued fun ⟨_, h⟩ => h hqueue
  · intro n hn
    cases hn
  · intro hfalse
    cases hfalse
  · exact fun h => absurd hqueue h

variable [DecidableEq κ] [DecidableEq ω] {a : Queues.Act κ ω}

theorem Good.submitNow (h : Good s) (ht : s.settle w (s.queues.submitNow q w) = t) :
    ((s.queues.workCurrent q = some w → s.queues.Queued w → s.queues.Armed w) → Good t) ∧
      (Kept t → s.queues.workCurrent q = some w → s.queues.Queued w → s.queues.Armed w) := by
  by_cases hcurrent : s.queues.workCurrent q = some w
  · obtain ⟨queues, hnow, htouches, hqueued, harmed, hqueue, hrestful⟩ :=
      Queues.submitNow_refuse h.restful hcurrent
    rw [hnow] at ht
    subst ht
    have hwaits := (h.entry w).waits
    constructor
    · intro hcareful
      refine h.keep htouches hrestful ⟨?_, (h.entry w).most, ?_, ?_⟩
      · rw [harmed, or_iff_right hqueued, hwaits]
        exact or_iff_right_of_imp (hcareful hcurrent)
      · rw [hqueue]
        exact (h.entry w).unreturned
      · rw [hqueue]
        exact (h.entry w).workqueue
    · intro hkept _ hbefore
      rcases hkept.owed w 0 (hwaits.mpr (.inl hbefore)) with ⟨-, hafter⟩ | hone
      · exact harmed.mp (hafter.resolve_left hqueued)
      · cases hone
  · obtain ⟨queues, hnow, htouches, hqueued, hrestful⟩ := Queues.submitNow_accept h.restful hcurrent
    rw [hnow] at ht
    subst ht
    exact ⟨fun _ => h.update htouches hrestful (.accept (.inl hqueued)),
      fun _ hbusy => absurd hbusy hcurrent⟩

theorem Good.timeout (h : Good s) (htimeout : s.queues.timeout w = some queues) :
    ((∀ q, (s.queues.work w).workqueue = some q → s.queues.workCurrent q ≠ some w) →
      Good { s with queues := queues }) ∧
    (Kept { s with queues := queues } →
      ∀ q, (s.queues.work w).workqueue = some q → s.queues.workCurrent q ≠ some w) := by
  obtain ⟨p, hqueue, hactivated, htouches, hoff, hqueue', hqueued, hrestful⟩ :=
    Queues.timeout_spec h.restful htimeout
  have howed : s.owed w = some 0 :=
    (h.entry w).waits.mpr (.inr ⟨hactivated, by rw [hqueue]; exact some_ne_none p⟩)
  have hunarmed : ¬ queues.Armed w := fun ⟨hon, _⟩ => absurd (hoff.symm.trans hon) Bool.false_ne_true
  constructor
  · intro hcareful
    refine h.keep htouches hrestful ⟨?_, (h.entry w).most, ?_, fun _ => .inl howed⟩
    · exact iff_of_true howed (.inl (hqueued.mpr (hcareful p hqueue)))
    · intro hreturning
      exact absurd (howed.symm.trans ((h.entry w).unreturned hreturning).1) (some_ne_none 0)
  · intro hkept q hq
    rw [hqueue, some_inj] at hq
    subst hq
    rcases hkept.owed w 0 howed with ⟨-, hafter⟩ | hone
    · exact hqueued.mp (hafter.resolve_right hunarmed)
    · cases hone

theorem Good.thread (h : Good s) (hthread : s.queues.workqueueThreadEntry q = some queues) :
    Good { s with queues := queues, owed := s.count q } := by
  obtain ⟨hrestful, htaken | ⟨hnone, hwork, hlist⟩⟩ :=
    Queues.workqueueThreadEntry_spec h.restful hthread
  · obtain ⟨w, rest, hlooks, hlist, htouches, hqueued, hqueue⟩ := htaken
    have howed : s.owed w = some 0 :=
      (h.entry w).waits.mpr (.inl ⟨q, by rw [hlist]; exact .head _⟩)
    have hunreturned : s.returning w = false := by
      by_contra hreturning
      rw [Bool.not_eq_false] at hreturning
      exact absurd (howed.symm.trans ((h.entry w).unreturned hreturning).1) (some_ne_none 0)
    have hentry : Entry queues w (some 1) false := by
      constructor
      · exact iff_of_false (by simp) fun h => h.elim hqueued fun ⟨_, h⟩ => h hqueue
      · intro n hn
        cases hn
        exact .inr rfl
      · intro hfalse
        cases hfalse
      · exact fun h => absurd hqueue h
    have hcount : s.count q = Function.update s.owed w (some 1) := by
      unfold count
      rw [hlooks, hlist]
      dsimp only
      rw [howed]
      rfl
    have hgood := h.update htouches hrestful hentry
    rw [← hunreturned, Function.update_eq_self] at hgood
    rw [hcount]
    exact hgood
  · have hcount : s.count q = s.owed := by
      unfold count
      split
      · rename_i hlooks hcons
        rw [hnone hlooks] at hcons
        cases hcons
      · rfl
    rw [hcount]
    constructor
    · intro v
      obtain ⟨work, workList, delayedList, workCurrent, workThread, starting⟩ := queues
      subst hwork hlist
      exact ⟨(h.entry v).waits, (h.entry v).most, (h.entry v).unreturned, (h.entry v).workqueue⟩
    · exact hrestful

/-- A step is careful if and only if it keeps the accounts. -/
theorem Good.step (h : Good s) (hstep : s.exec a = some t) :
    (s.Careful a → Good t) ∧ (Kept t → s.Careful a) := by
  cases a with
  | dowork q w =>
    have hnow : s.settle w (s.queues.submitNow q w) = t := some.inj hstep
    exact h.submitNow hnow
  | submit q w ticks =>
    obtain ⟨result, hresult, ht⟩ := map_eq_some_iff.mp hstep
    unfold Queues.rtWorkqueueSubmitWork Queues.workqueueSubmitWork at hresult
    split_ifs at hresult with hticks hzero
    · cases hresult
      obtain ⟨hcareful, hkept⟩ := h.submitNow ht
      exact ⟨fun hc => hcareful (hc hzero), fun hk _ => hkept hk⟩
    · obtain ⟨queues, hqueues, rfl⟩ := map_eq_some_iff.mp hresult
      obtain ⟨later, hlater, hstart⟩ := bind_eq_some_iff.mp hqueues
      obtain ⟨htouches, hqueued, -, hqueue, hrestful⟩ := Queues.submitLater_spec h.restful hlater
      obtain ⟨htouches', hqueued', hon, hqueue', hrestful'⟩ := Queues.startTimer_spec hrestful hstart
      subst ht
      refine ⟨fun _ => h.update (htouches.trans htouches') hrestful' (.accept (.inr ⟨hon, ?_⟩)),
        fun _ hticks => absurd hticks hzero⟩
      rw [hqueue', hqueue]
      exact some_ne_none q
  | urgent q w =>
    obtain ⟨htouches, hqueued, -, hrestful⟩ := Queues.urgent_spec (q := q) (w := w) h.restful
    cases hstep
    exact ⟨fun _ => h.update htouches hrestful (.accept (.inl hqueued)), fun _ => trivial⟩
  | cancel q w =>
    obtain ⟨⟨queues, err⟩, hresult, rfl⟩ := map_eq_some_iff.mp hstep
    obtain ⟨htouches, hqueued, hqueue, hrestful⟩ := Queues.cancel_spec h.restful hresult
    exact ⟨fun _ => h.update htouches hrestful (.drop hqueued hqueue), fun _ => trivial⟩
  | submitInterrupted q w ticks =>
    obtain ⟨queues, hqueues, rfl⟩ := map_eq_some_iff.mp hstep
    obtain ⟨-, hqueues⟩ := ite_none_right_eq_some.mp hqueues
    obtain ⟨later, hlater, rfl⟩ := map_eq_some_iff.mp hqueues
    obtain ⟨htouches, hqueued, hoff, hqueue, hrestful⟩ := Queues.submitLater_spec h.restful hlater
    have hsome : (later.work w).workqueue ≠ none := by
      rw [hqueue]
      exact some_ne_none q
    have hentry : Entry later w none true := by
      constructor
      · exact iff_of_false (by simp) fun h => h.elim hqueued fun ⟨hon, _⟩ =>
          absurd (hoff.symm.trans hon) Bool.false_ne_true
      · intro n hn
        cases hn
      · exact fun _ => ⟨rfl, hsome⟩
      · exact fun _ => .inr rfl
    exact ⟨fun _ => (h.update htouches hrestful hentry).starting _, fun _ => trivial⟩
  | submitResumed w =>
    obtain ⟨queues, hqueues, ht⟩ := map_eq_some_iff.mp hstep
    obtain ⟨-, hqueues⟩ := ite_none_right_eq_some.mp hqueues
    obtain ⟨started, hstart, rfl⟩ := map_eq_some_iff.mp hqueues
    obtain ⟨htouches, hqueued, hon, hqueue, hrestful⟩ := Queues.startTimer_spec h.restful hstart
    refine ⟨fun _ => ?_, fun _ => trivial⟩
    by_cases hreturning : s.returning w = true
    · rw [if_pos hreturning] at ht
      subst ht
      have harmed : started.Armed w := ⟨hon, by
        rw [hqueue]
        exact ((h.entry w).unreturned hreturning).2⟩
      exact (h.update htouches hrestful (.accept (.inr harmed))).starting _
    · rw [if_neg hreturning] at ht
      subst ht
      refine (h.keep htouches hrestful ⟨?_, (h.entry w).most, ?_, ?_⟩).starting _
      · constructor
        · intro howed
          by_cases hnone : (started.work w).workqueue = none
          · rcases (h.entry w).waits.mp howed with hlist | ⟨-, hsome⟩
            · exact .inl (hqueued.mpr hlist)
            · exact absurd (hqueue.symm.trans hnone) hsome
          · exact .inr ⟨hon, hnone⟩
        · rintro (hlist | ⟨-, hsome⟩)
          · exact (h.entry w).waits.mpr (.inl (hqueued.mp hlist))
          · rw [hqueue] at hsome
            exact ((h.entry w).workqueue hsome).resolve_right hreturning
      · rw [hqueue]
        exact (h.entry w).unreturned
      · rw [hqueue]
        exact (h.entry w).workqueue
  | timeout w =>
    obtain ⟨queues, hqueues, rfl⟩ := map_eq_some_iff.mp hstep
    exact h.timeout hqueues
  | thread q =>
    obtain ⟨queues, hqueues, rfl⟩ := map_eq_some_iff.mp hstep
    exact ⟨fun _ => h.thread hqueues, fun _ => trivial⟩

omit [DecidableEq κ] [DecidableEq ω] in
theorem Initial.good (h : Initial s) : Good s := by
  obtain ⟨⟨hwork, hlists, -⟩, howed, hreturning⟩ := h
  constructor
  · intro w
    obtain ⟨initTick, hw⟩ := hwork w
    rw [howed, hreturning]
    apply Entry.drop
    · rintro ⟨q, hq⟩
      rw [(hlists q).1] at hq
      cases hq
    · rw [hw]
  · intro q
    obtain ⟨hlist, -, hcurrent, -⟩ := hlists q
    exact ⟨fun _ => hcurrent, fun _ => hlist⟩

omit [DecidableEq κ] in
theorem settle_queues (result : Queues κ ω × WorkErr) : (s.settle w result).queues = result.1 := by
  obtain ⟨queues, err⟩ := result
  cases err with
  | eok => rfl
  | ebusy => rfl
  | error => rfl

/-- The accounts are about the runs of the queues. -/
theorem exec_queues (h : s.exec a = some t) : s.queues.exec a = some t.queues := by
  cases a with
  | dowork q w =>
    cases h
    exact congrArg some (settle_queues _).symm
  | submit q w ticks =>
    obtain ⟨result, hresult, rfl⟩ := map_eq_some_iff.mp h
    exact map_eq_some_iff.mpr ⟨result, hresult, (settle_queues result).symm⟩
  | urgent q w =>
    cases h
    rfl
  | cancel q w =>
    obtain ⟨⟨queues, err⟩, hresult, rfl⟩ := map_eq_some_iff.mp h
    exact map_eq_some_iff.mpr ⟨(queues, err), hresult, rfl⟩
  | submitResumed w =>
    obtain ⟨queues, hqueues, rfl⟩ := map_eq_some_iff.mp h
    split_ifs
    · rw [settle_queues]
      exact hqueues
    · exact hqueues
  | submitInterrupted | timeout | thread =>
    obtain ⟨queues, hqueues, rfl⟩ := map_eq_some_iff.mp h
    exact hqueues

theorem reachable_queues (h : Reachable Initial (fun s a t => exec s a = some t) s) :
    Reachable Queues.Initial Queues.Step s.queues := by
  refine h.invariant (I := fun s => Reachable Queues.Initial Queues.Step s.queues) ?_ ?_
  · exact fun _ h₀ => Reachable.start h₀.1
  · exact fun _ _ _ _ ih hstep => ih.next (exec_queues hstep)

/-- In a run of careful steps every accepted work waits in a list, waits for its delay, or has been
done once, and no thread sleeps while there is something to do; a step keeps this if and only if
it is careful. -/
theorem reachable_worksKept (s : Ledger κ ω)
    (h : Reachable Initial (Within (fun s a t => exec s a = some t) Careful) s) :
    Kept s ∧ ∀ a t, s.exec a = some t → (Kept t ↔ s.Careful a) := by
  have hgood : Good s := h.invariant (fun _ h₀ => h₀.good) fun _ _ _ _ ih hstep =>
    (ih.step hstep.2).1 hstep.1
  refine ⟨hgood.kept, fun a t hstep => ?_⟩
  obtain ⟨hcareful, hkept⟩ := hgood.step hstep
  exact ⟨hkept, fun hc => (hcareful hc).kept⟩

instance (queues : Queues Unit ω) (w : ω) : Decidable (queues.Queued w) :=
  decidable_of_iff (w ∈ queues.workList ()) ⟨fun h => ⟨(), h⟩, fun ⟨_, h⟩ => h⟩

instance (queues : Queues Unit ω) (w : ω) : Decidable (queues.Armed w) :=
  inferInstanceAs (Decidable (_ ∧ (queues.work w).workqueue ≠ none))

instance (s : Ledger Unit ω) (a : Queues.Act Unit ω) : Decidable (s.Careful a) :=
  match a with
  | .dowork () w => inferInstanceAs (Decidable (s.queues.workCurrent () = some w →
      s.queues.Queued w → s.queues.Armed w))
  | .submit () w ticks => inferInstanceAs (Decidable (ticks = 0 →
      s.queues.workCurrent () = some w → s.queues.Queued w → s.queues.Armed w))
  | .timeout w => decidable_of_iff ((s.queues.work w).workqueue = some () →
      s.queues.workCurrent () ≠ some w) ⟨fun h () => h, fun h => h ()⟩
  | .urgent _ _ | .cancel _ _ | .submitInterrupted _ _ _ | .submitResumed _ | .thread _ =>
      .isTrue trivial

/-- A queue and two works that have never been submitted. -/
def start : Ledger Unit (Fin 2) where
  queues := Queues.start
  owed := fun _ => none
  returning := fun _ => false

/-- One work has been done, and the other one submits itself, and is to be done again. -/
theorem reachable_worksKept_again : ∃ s : Ledger Unit (Fin 2), s.owed 0 = some 0 ∧ s.owed 1 = some 1 ∧
    s.queues.workList () = [0] ∧ Kept s ∧ ∀ a t, s.exec a = some t → (Kept t ↔ s.Careful a) := by
  have hrun : ∃ s ∈ runWithin exec Careful start [.submit () 0 5, .timeout 0, .dowork () 1,
      .thread (), .submit () 0 9, .thread (), .thread (), .thread (), .timeout 0],
      s.owed 0 = some 0 ∧ s.owed 1 = some 1 ∧ s.queues.workList () = [0] := by decide +kernel
  have hstart : Initial start := ⟨Queues.start_initial, rfl, rfl⟩
  obtain ⟨s, hs, heq⟩ := Reachable.of_runWithin hstart hrun
  exact ⟨s, heq.1, heq.2.1, heq.2.2, reachable_worksKept s hs⟩

/-- The delay of a work that has submitted itself ends while it is still being done, and nothing
is left of the submission. -/
theorem selfSubmitted_not_kept : ∃ s : Ledger Unit (Fin 2),
    Reachable Initial (fun s a t => exec s a = some t) s ∧ s.owed 0 = some 0 ∧
      ¬ s.queues.Queued 0 ∧ ¬ s.queues.Armed 0 ∧ ¬ Kept s := by
  have hrun : ∃ s ∈ runAll exec start [.submit () 0 5, .timeout 0, .thread (), .submit () 0 9,
      .timeout 0, .thread (), .thread (), .thread ()],
      s.owed 0 = some 0 ∧ ¬ s.queues.Queued 0 ∧ ¬ s.queues.Armed 0 := by decide +kernel
  have hstart : Initial start := ⟨Queues.start_initial, rfl, rfl⟩
  obtain ⟨s, hs, howed, hqueued, harmed⟩ := Reachable.of_runAll hstart hrun
  refine ⟨s, hs, howed, hqueued, harmed, fun hkept => ?_⟩
  rcases hkept.owed 0 0 howed with ⟨-, hlist | hdelay⟩ | hone
  · exact hqueued hlist
  · exact harmed hdelay
  · cases hone

end Ledger

end RtKernel.Workqueue

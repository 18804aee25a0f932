import RtKernel.Drivers.WorkWithdrawn

/-!
# Cancelled works

A work that has been cancelled is not done until it is submitted again. To cancel a
work that is being done one waits for the queue, whose thread acknowledges each work
after it has cleared `work_current`; until then the caller is still suspended.
-/

open List Option

namespace RtKernel.Workqueue

/-- Where a thread is in `rt_workqueue_cancel_work_sync`. -/
inductive Caller (κ ω : Type*)
  | idle
  /-- The work is the current one, and the semaphore is taken next. -/
  | found (q : κ) (w : ω)
  /-- The work is not the current one, and is cancelled next. -/
  | missed (q : κ) (w : ω)
  /-- It is suspended on the semaphore. -/
  | waits (q : κ) (w : ω)
  /-- It has the semaphore and returns next. -/
  | returns (q : κ) (w : ω)
  deriving DecidableEq

/-- The queues with those who cancel works. -/
structure Sync (κ ω γ : Type*) where
  queues : Queues κ ω
  /-- The value of `sem`. -/
  value : κ → Nat
  /-- The threads that are suspended on `sem`. -/
  suspended : κ → List γ
  caller : γ → Caller κ ω
  /-- `rt_workqueue_cancel_work` has returned `RT_EOK`, and the work has not been submitted since. -/
  cancelled : κ → ω → Bool
  /-- `rt_workqueue_cancel_work_sync` has returned, and the work has not been submitted since. -/
  synced : κ → ω → Bool

/-- `_workqueue_work_completion`: the value that is left, who is still suspended, and who has been
resumed. -/
def workqueueWorkCompletion {γ : Type*} : Nat → List γ → Nat × List γ × List γ
  | value + 1, suspended => (value, suspended, [])
  | 0, [] => (0, [], []) -- what is released is taken
  | 0, c :: rest =>
    let (value, suspended, resumed) := workqueueWorkCompletion 0 rest
    (value, suspended, c :: resumed)

namespace Sync

variable {κ ω γ : Type*} [DecidableEq κ] [DecidableEq ω] [DecidableEq γ]

/-- What may happen. -/
inductive Act (κ ω γ : Type*)
  | queues (a : Queues.Act κ ω)
  /-- `rt_workqueue_cancel_work_sync` compares `work_current`. -/
  | syncTest (c : γ) (q : κ) (w : ω)
  /-- It takes the semaphore, or cancels the work. -/
  | syncGo (c : γ)
  | syncReturn (c : γ)

/-- `rt_sem_take` without a timeout. -/
def rtSemTake (s : Sync κ ω γ) (c : γ) (q : κ) (w : ω) : Sync κ ω γ :=
  if 0 < s.value q then
    { s with
      value := Function.update s.value q (s.value q - 1)
      caller := Function.update s.caller c (.returns q w) }
  else
    { s with
      suspended := Function.update s.suspended q (s.suspended q ++ [c])
      caller := Function.update s.caller c (.waits q w) }

/-- A thread is resumed. -/
def resume : Caller κ ω → Caller κ ω
  | .waits q w => .returns q w
  | caller => caller

/-- The thread of a queue acknowledges a work. -/
def completion (s : Sync κ ω γ) (q : κ) : Sync κ ω γ :=
  let (value, suspended, resumed) := workqueueWorkCompletion (s.value q) (s.suspended q)
  { s with
    value := Function.update s.value q value
    suspended := Function.update s.suspended q suspended
    caller := fun c => if c ∈ resumed then resume (s.caller c) else s.caller c }

/-- One more cancelled work. -/
def mark (flags : κ → ω → Bool) (q : κ) (w : ω) : κ → ω → Bool :=
  Function.update flags q (Function.update (flags q) w true)

/-- A work is submitted again. -/
def unmark (flags : κ → ω → Bool) (a : Queues.Act κ ω) : κ → ω → Bool :=
  fun q w => if a.submits = some w then false else flags q w

/-- `rt_workqueue_cancel_work` returns. -/
def cancelReturns (s : Sync κ ω γ) (q : κ) (w : ω) : Queues κ ω × WorkErr → Sync κ ω γ
  | (queues, .eok) => { s with queues := queues, cancelled := mark s.cancelled q w }
  | (queues, _) => { s with queues := queues }

/-- `rt_workqueue_cancel_work_sync` returns. -/
def syncReturns (s : Sync κ ω γ) (c : γ) (q : κ) (w : ω) : Sync κ ω γ :=
  { s with caller := Function.update s.caller c .idle, synced := mark s.synced q w }

/-- One step of a run. -/
def exec (s : Sync κ ω γ) : Act κ ω γ → Option (Sync κ ω γ)
  | .queues (.cancel q w) => (s.queues.rtWorkqueueCancelWork q w).map (s.cancelReturns q w)
  | .queues (.thread q) => (s.queues.workqueueThreadEntry q).map fun queues =>
      if s.queues.workThread q = .completes then { s with queues := queues }.completion q
      else { s with queues := queues }
  | .queues a => (s.queues.exec a).map fun queues =>
      { s with queues := queues, cancelled := unmark s.cancelled a, synced := unmark s.synced a }
  | .syncTest c q w =>
    match s.caller c with
    | .idle =>
      if s.queues.workCurrent q = some w then
        some { s with caller := Function.update s.caller c (.found q w) }
      else some { s with caller := Function.update s.caller c (.missed q w) }
    | _ => none
  | .syncGo c =>
    match s.caller c with
    | .found q w => some (s.rtSemTake c q w)
    | .missed q w => (s.queues.workqueueCancelWork q w).map fun (queues, _) =>
        { s with queues := queues }.syncReturns c q w
    | _ => none
  | .syncReturn c =>
    match s.caller c with
    | .returns q w => some (s.syncReturns c q w)
    | _ => none

/-- Nothing has been submitted or cancelled. -/
def Initial (s : Sync κ ω γ) : Prop :=
  s.queues.Initial ∧ (∀ q, s.value q = 0 ∧ s.suspended q = []) ∧ (∀ c, s.caller c = .idle) ∧
    ∀ q w, s.cancelled q w = false ∧ s.synced q w = false

/-- A step that may be taken. -/
def Step (s : Sync κ ω γ) (a : Act κ ω γ) (s' : Sync κ ω γ) : Prop := exec s a = some s'

end Sync

namespace Queues

variable {κ ω : Type*} {s s' : Queues κ ω} {q : κ} {w : ω}

/-- A work that is withdrawn and that its queue does not execute. -/
def Gone (s : Queues κ ω) (q : κ) (w : ω) : Prop := s.Withdrawn w ∧ s.workCurrent q ≠ some w

/-- A work that the queue does not execute, and that nothing but a submission will make any
queue execute. -/
structure Spared [DecidableEq κ] [DecidableEq ω] (s : Queues κ ω) (q : κ) (w : ω) : Prop where
  executes : s.workCurrent q ≠ some w
  queued : ¬ s.Queued w
  timer : (s.work w).timer.activated = false
  invoked : ∀ p t, s.workqueueThreadEntry p = some t → t.workCurrent p = some w →
    s.workCurrent p = some w

theorem Gone.spared [DecidableEq κ] [DecidableEq ω] (h : Gone s q w) (htimed : ∀ v, Timed s v) :
    Spared s q w := by
  obtain ⟨⟨hqueued, hsubmitting⟩, hcurrent⟩ := h
  refine ⟨hcurrent, hqueued, ?_, fun p t ht => ?_⟩
  · by_contra hon
    rw [Bool.not_eq_false] at hon
    exact Bool.false_ne_true (hsubmitting.symm.trans ((htimed w).2 hon))
  · obtain ⟨-, -, htakes, -⟩ := workqueueThreadEntry_keeps htimed ht
    exact htakes p w ⟨hqueued, hsubmitting⟩

theorem Keeps.gone {submits : Option ω} (h : Keeps s s' submits) (hw : submits ≠ some w)
    (hgone : Gone s q w) : Gone s' q w := by
  refine ⟨h.withdrawn w hw hgone.1, ?_⟩
  rw [h.steady.workCurrent]
  exact hgone.2

theorem Gone.thread [DecidableEq κ] [DecidableEq ω] {p : κ} (h : Gone s q w)
    (htimed : ∀ v, Timed s v) (hthread : s.workqueueThreadEntry p = some s') : Gone s' q w := by
  obtain ⟨-, hwithdrawn, htakes, -⟩ := workqueueThreadEntry_keeps htimed hthread
  exact ⟨hwithdrawn w h.1, fun hcurrent => h.2 (htakes q w h.1 hcurrent)⟩

end Queues

namespace Sync

variable {κ ω γ : Type*} [DecidableEq κ] [DecidableEq ω] [DecidableEq γ] {s t : Sync κ ω γ}

/-- A call of `rt_workqueue_cancel_work_sync` that has found the work executing suspends itself
before the work has been done and while it is not submitted again, the work is not submitted until
the call returns; and a call that has found it not executing cancels it before it is. -/
def Careful (s : Sync κ ω γ) : Act κ ω γ → Prop
  | .queues a => ∀ w, a.submits = some w → ∀ c q,
      s.caller c ≠ .waits q w ∧ s.caller c ≠ .returns q w
  | .syncGo c =>
    match s.caller c with
    | .found q w => s.queues.workCurrent q = some w ∧ s.queues.Withdrawn w
    | .missed q w => s.queues.workCurrent q ≠ some w
    | _ => True
  | .syncTest _ _ _ | .syncReturn _ => True

omit [DecidableEq γ] in
/-- Whoever is suspended is resumed, and the value is zero again. -/
theorem workqueueWorkCompletion_zero (suspended : List γ) :
    workqueueWorkCompletion 0 suspended = (0, [], suspended) := by
  induction suspended with
  | nil => rfl
  | cons c rest ih => rw [workqueueWorkCompletion, ih]

variable {q : κ} {flags : κ → ω → Bool} {w : ω}

omit [DecidableEq κ] in
theorem unmark_eq_true {a : Queues.Act κ ω}
    (h : unmark flags a q w = true) : a.submits ≠ some w ∧ flags q w = true := by
  unfold unmark at h
  split_ifs at h with hw
  exact ⟨hw, h⟩

theorem mark_eq_true {q p : κ} {w v : ω} (h : mark flags q w p v = true) :
    p = q ∧ v = w ∨ flags p v = true := by
  unfold mark at h
  by_cases hp : p = q
  · subst hp
    rw [Function.update_self] at h
    by_cases hv : v = w
    · exact .inl ⟨rfl, hv⟩
    · rw [Function.update_of_ne hv] at h
      exact .inr h
  · rw [Function.update_of_ne hp] at h
    exact .inr h

/-- A cancellation, a step of a thread of a queue, or any other step. -/
inductive QueueStep (s : Sync κ ω γ) : Queues.Act κ ω → Sync κ ω γ → Prop
  | cancel {q w queues err} (h : s.queues.workqueueCancelWork q w = some (queues, err)) :
      QueueStep s (.cancel q w) (s.cancelReturns q w (queues, err))
  | completes {q queues} (h : s.queues.workqueueThreadEntry q = some queues)
      (hthread : s.queues.workThread q = .completes) :
      QueueStep s (.thread q) ({ s with queues := queues }.completion q)
  | thread {q queues} (h : s.queues.workqueueThreadEntry q = some queues)
      (hthread : s.queues.workThread q ≠ .completes) :
      QueueStep s (.thread q) { s with queues := queues }
  | other {a queues} (h : s.queues.exec a = some queues) (ha : ∀ q, a ≠ .thread q) :
      QueueStep s a { s with
        queues := queues, cancelled := unmark s.cancelled a, synced := unmark s.synced a }

theorem queueStep {a : Queues.Act κ ω} (h : exec s (.queues a) = some t) : QueueStep s a t := by
  cases a with
  | cancel q w =>
    obtain ⟨⟨queues, err⟩, hcancel, rfl⟩ := map_eq_some_iff.mp h
    exact .cancel hcancel
  | thread q =>
    obtain ⟨queues, hthread, rfl⟩ := map_eq_some_iff.mp h
    split_ifs with hcompletes
    · exact .completes hthread hcompletes
    · exact .thread hthread hcompletes
  | dowork | urgent =>
    cases h
    exact .other rfl (by simp)
  | submit | submitInterrupted | submitResumed | timeout =>
    obtain ⟨queues, hqueues, rfl⟩ := map_eq_some_iff.mp h
    exact .other hqueues (by simp)

/-- A step of `rt_workqueue_cancel_work_sync`. -/
inductive SyncStep (s : Sync κ ω γ) : Act κ ω γ → Sync κ ω γ → Prop
  | found {c q w} (hcaller : s.caller c = .idle) (hcurrent : s.queues.workCurrent q = some w) :
      SyncStep s (.syncTest c q w) { s with caller := Function.update s.caller c (.found q w) }
  | missed {c q w} (hcaller : s.caller c = .idle) (hcurrent : s.queues.workCurrent q ≠ some w) :
      SyncStep s (.syncTest c q w) { s with caller := Function.update s.caller c (.missed q w) }
  | takes {c q w} (hcaller : s.caller c = .found q w) (hvalue : 0 < s.value q) :
      SyncStep s (.syncGo c) { s with
        value := Function.update s.value q (s.value q - 1)
        caller := Function.update s.caller c (.returns q w) }
  | waits {c q w} (hcaller : s.caller c = .found q w) (hvalue : s.value q = 0) :
      SyncStep s (.syncGo c) { s with
        suspended := Function.update s.suspended q (s.suspended q ++ [c])
        caller := Function.update s.caller c (.waits q w) }
  | cancels {c q w queues err} (hcaller : s.caller c = .missed q w)
      (hcancel : s.queues.workqueueCancelWork q w = some (queues, err)) :
      SyncStep s (.syncGo c) ({ s with queues := queues }.syncReturns c q w)
  | returns {c q w} (hcaller : s.caller c = .returns q w) :
      SyncStep s (.syncReturn c) (s.syncReturns c q w)

variable {a : Act κ ω γ}

theorem syncStep (ha : ∀ b, a ≠ .queues b) (h : exec s a = some t) : SyncStep s a t := by
  cases a with
  | queues b => exact absurd rfl (ha b)
  | syncTest c q w =>
    cases hcaller : s.caller c with
    | idle =>
      simp only [exec, hcaller] at h
      split_ifs at h with hcurrent
      · cases h
        exact .found hcaller hcurrent
      · cases h
        exact .missed hcaller hcurrent
    | found | missed | waits | returns => simp only [exec, hcaller, reduceCtorEq] at h
  | syncGo c =>
    cases hcaller : s.caller c with
    | found q w =>
      simp only [exec, hcaller, rtSemTake] at h
      split_ifs at h with hvalue
      · cases h
        exact .takes hcaller hvalue
      · cases h
        exact .waits hcaller (Nat.eq_zero_of_not_pos hvalue)
    | missed q w =>
      simp only [exec, hcaller] at h
      obtain ⟨⟨queues, err⟩, hcancel, rfl⟩ := map_eq_some_iff.mp h
      exact .cancels hcaller hcancel
    | idle | waits | returns => simp only [exec, hcaller, reduceCtorEq] at h
  | syncReturn c =>
    cases hcaller : s.caller c with
    | returns q w =>
      simp only [exec, hcaller] at h
      cases h
      exact .returns hcaller
    | idle | found | missed | waits => simp only [exec, hcaller, reduceCtorEq] at h

omit [DecidableEq γ] in
/-- What `rt_workqueue_cancel_work` changes when it returns. -/
theorem cancelReturns_eq (s : Sync κ ω γ) (q : κ) (w : ω) (queues : Queues κ ω) (err : WorkErr) :
    ∃ cancelled, s.cancelReturns q w (queues, err) = { s with queues := queues, cancelled := cancelled } ∧
      ∀ p v, cancelled p v = true → s.cancelled p v = true ∨ p = q ∧ v = w ∧ err = .eok := by
  cases err with
  | eok =>
    refine ⟨_, rfl, fun p v h => ?_⟩
    rcases mark_eq_true h with ⟨hp, hv⟩ | h
    · exact .inr ⟨hp, hv, rfl⟩
    · exact .inl h
  | ebusy | error => exact ⟨s.cancelled, rfl, fun p v h => .inl h⟩

/-- What holds in every run. -/
structure Sound (s : Sync κ ω γ) : Prop where
  timed : ∀ w, s.queues.Timed w
  restful : ∀ q, s.queues.Restful q
  cancelled : ∀ q w, s.cancelled q w = true → s.queues.Gone q w

theorem Sound.step (h : Sound s) (hstep : Step s a t) : Sound t := by
  cases a with
  | queues a =>
    cases queueStep hstep with
    | @cancel q w queues err hcancel =>
      obtain ⟨cancelled, heq, hflags⟩ := cancelReturns_eq s q w queues err
      rw [heq]
      obtain ⟨hkeeps, hwithdrawn, hcurrent⟩ := Queues.keeps_cancel h.timed h.restful hcancel
      refine ⟨hkeeps.timed, hkeeps.restful, fun p v hv => ?_⟩
      rcases hflags p v hv with hbefore | ⟨rfl, rfl, herr⟩
      · exact hkeeps.gone (by simp) (h.cancelled p v hbefore)
      · exact ⟨hwithdrawn, hcurrent herr⟩
    | completes hthread | thread hthread =>
      obtain ⟨htimed, -⟩ := Queues.workqueueThreadEntry_keeps h.timed hthread
      obtain ⟨hrestful, -⟩ := Queues.workqueueThreadEntry_spec h.restful hthread
      exact ⟨htimed, hrestful, fun p v hv => (h.cancelled p v hv).thread h.timed hthread⟩
    | other hqueues ha =>
      have hkeeps := Queues.exec_keeps h.timed h.restful hqueues ha
      refine ⟨hkeeps.timed, hkeeps.restful, fun p v hv => ?_⟩
      obtain ⟨hsubmits, hbefore⟩ := unmark_eq_true hv
      exact hkeeps.gone hsubmits (h.cancelled p v hbefore)
  | syncTest c q w =>
    cases syncStep (by simp) hstep with
    | found | missed => exact ⟨h.timed, h.restful, h.cancelled⟩
  | syncGo c =>
    cases syncStep (by simp) hstep with
    | takes | waits => exact ⟨h.timed, h.restful, h.cancelled⟩
    | cancels hcaller hcancel =>
      obtain ⟨hkeeps, -⟩ := Queues.keeps_cancel h.timed h.restful hcancel
      exact ⟨hkeeps.timed, hkeeps.restful, fun p v hv => hkeeps.gone (by simp) (h.cancelled p v hv)⟩
  | syncReturn c =>
    cases syncStep (by simp) hstep with
    | returns => exact ⟨h.timed, h.restful, h.cancelled⟩

/-- What holds in careful runs. -/
structure Good (s : Sync κ ω γ) : Prop extends Sound s where
  value : ∀ q, s.value q = 0
  suspended : ∀ c q, c ∈ s.suspended q ↔ ∃ w, s.caller c = .waits q w
  synced : ∀ q w, s.synced q w = true → s.queues.Gone q w
  waits : ∀ c q w, s.caller c = .waits q w → s.queues.Withdrawn w ∧
    (s.queues.workCurrent q = some w ∨ s.queues.workThread q = .completes)
  returns : ∀ c q w, s.caller c = .returns q w → s.queues.Gone q w

omit [DecidableEq κ] [DecidableEq ω] [DecidableEq γ] in
theorem Sound.works (h : Sound s) (hcurrent : s.queues.workCurrent q = some w) :
    s.queues.workThread q = .works := by
  by_contra hthread
  have hnone := (h.restful q).1 hthread
  rw [hcurrent] at hnone
  cases hnone

section

omit [DecidableEq κ] [DecidableEq ω]

variable {caller : γ → Caller κ ω}

/-- Where a caller is after one of them has gone on. -/
theorem update_caller {c d : γ} {now x : Caller κ ω} (hne : now ≠ x)
    (h : Function.update caller c now d = x) : d ≠ c ∧ caller d = x := by
  by_cases hd : d = c
  · subst hd
    rw [Function.update_self] at h
    exact absurd h hne
  · rw [Function.update_of_ne hd] at h
    exact ⟨hd, h⟩

theorem suspended_update {suspended : κ → List γ} {c : γ}
    {now : Caller κ ω} (h : ∀ d q, d ∈ suspended q ↔ ∃ w, caller d = .waits q w)
    (hbefore : ∀ q w, caller c ≠ .waits q w) (hnow : ∀ q w, now ≠ .waits q w) (d : γ) (q : κ) :
    d ∈ suspended q ↔ ∃ w, Function.update caller c now d = .waits q w := by
  rw [h]
  by_cases hd : d = c
  · subst hd
    rw [Function.update_self]
    exact iff_of_false (fun ⟨w, hw⟩ => hbefore q w hw) fun ⟨w, hw⟩ => hnow q w hw
  · rw [Function.update_of_ne hd]

end

variable {queues : Queues κ ω}

omit [DecidableEq κ] [DecidableEq ω] [DecidableEq γ] in
/-- Callers that wait and callers that return stay where they are when a step touches no work of
theirs. -/
theorem Good.keeps {submits : Option ω} {cancelled synced : κ → ω → Bool}
    (h : Good s) (hkeeps : s.queues.Keeps queues submits) (hcallers : ∀ w, submits = some w → ∀ c q,
      s.caller c ≠ .waits q w ∧ s.caller c ≠ .returns q w)
    (hcancelled : ∀ q w, cancelled q w = true → queues.Gone q w)
    (hsynced : ∀ q w, synced q w = true → queues.Gone q w) :
    Good { s with queues := queues, cancelled := cancelled, synced := synced } := by
  refine ⟨⟨hkeeps.timed, hkeeps.restful, hcancelled⟩, h.value, h.suspended, hsynced, ?_, ?_⟩
  · intro c q w hwaits
    obtain ⟨hwithdrawn, hqueue⟩ := h.waits c q w hwaits
    refine ⟨hkeeps.withdrawn w (fun hw => (hcallers w hw c q).1 hwaits) hwithdrawn, ?_⟩
    rcases hqueue with hcurrent | hcompletes
    · exact .inl ((congrFun hkeeps.steady.workCurrent q).trans hcurrent)
    · refine .inr ((hkeeps.steady.workThread q ?_).trans hcompletes)
      simp only [hcompletes, ne_eq, reduceCtorEq, not_false_eq_true]
  · intro c q w hreturns
    exact hkeeps.gone (fun hw => (hcallers w hw c q).2 hreturns) (h.returns c q w hreturns)

omit [DecidableEq γ] in
/-- A thread goes on that does not acknowledge a work. -/
theorem Good.thread (h : Good s) (hthread : s.queues.workqueueThreadEntry q = some queues)
    (hcompletes : s.queues.workThread q ≠ .completes) : Good { s with queues := queues } := by
  obtain ⟨htimed, hwithdrawn, -, hothers, hworks⟩ :=
    Queues.workqueueThreadEntry_keeps h.timed hthread
  obtain ⟨hrestful, -⟩ := Queues.workqueueThreadEntry_spec h.restful hthread
  have hgone : ∀ p v, s.queues.Gone p v → queues.Gone p v := fun p v hv => hv.thread h.timed hthread
  refine ⟨⟨htimed, hrestful, fun p v hv => hgone p v (h.cancelled p v hv)⟩, h.value, h.suspended,
    fun p v hv => hgone p v (h.synced p v hv), ?_, fun c p v hv => hgone p v (h.returns c p v hv)⟩
  intro c p v hv
  obtain ⟨hbefore, hqueue⟩ := h.waits c p v hv
  refine ⟨hwithdrawn v hbefore, ?_⟩
  by_cases hp : p = q
  · subst hp
    exact .inr (hworks (h.works (hqueue.resolve_right hcompletes)))
  · obtain ⟨hcurrent, hstate⟩ := hothers p hp
    rw [hcurrent, hstate]
    exact hqueue

omit [DecidableEq ω] in
theorem completion_eq (h : s.value q = 0) :
    ({ s with queues := queues } : Sync κ ω γ).completion q = { s with
      queues := queues
      value := Function.update s.value q 0
      suspended := Function.update s.suspended q []
      caller := fun c => if c ∈ s.suspended q then resume (s.caller c) else s.caller c } := by
  unfold completion
  rw [h, workqueueWorkCompletion_zero]

theorem Good.completes (h : Good s) (hthread : s.queues.workqueueThreadEntry q = some queues)
    (hcompletes : s.queues.workThread q = .completes) :
    Good ({ s with queues := queues }.completion q) := by
  obtain ⟨htimed, hwithdrawn, -, hothers, -⟩ :=
    Queues.workqueueThreadEntry_keeps h.timed hthread
  obtain ⟨hrestful, -⟩ := Queues.workqueueThreadEntry_spec h.restful hthread
  have hgone : ∀ p v, s.queues.Gone p v → queues.Gone p v := fun p v hv => hv.thread h.timed hthread
  have hidle : s.queues.workCurrent q = none :=
    (h.restful q).1 (by simp only [hcompletes, ne_eq, reduceCtorEq, not_false_eq_true])
  have hcaller : ∀ c p v,
      (if c ∈ s.suspended q then resume (s.caller c) else s.caller c) = .waits p v →
        p ≠ q ∧ s.caller c = .waits p v := by
    intro c p v hc
    split_ifs at hc with hmem
    · obtain ⟨w, hw⟩ := (h.suspended c q).mp hmem
      rw [hw] at hc
      cases hc
    · refine ⟨?_, hc⟩
      rintro rfl
      exact hmem ((h.suspended c p).mpr ⟨v, hc⟩)
  rw [completion_eq (h.value q)]
  refine ⟨⟨htimed, hrestful, fun p v hv => hgone p v (h.cancelled p v hv)⟩, ?_, ?_,
    fun p v hv => hgone p v (h.synced p v hv), ?_, ?_⟩
  · intro p
    show Function.update s.value q 0 p = 0
    by_cases hp : p = q
    · rw [hp, Function.update_self]
    · rw [Function.update_of_ne hp]
      exact h.value p
  · intro c p
    constructor
    · intro hmem
      have hp : p ≠ q := by
        rintro rfl
        have hnil : c ∈ Function.update s.suspended p [] p := hmem
        rw [Function.update_self] at hnil
        cases hnil
      have hbefore : c ∈ Function.update s.suspended q [] p := hmem
      rw [Function.update_of_ne hp] at hbefore
      obtain ⟨w, hw⟩ := (h.suspended c p).mp hbefore
      refine ⟨w, ?_⟩
      dsimp only
      rw [if_neg]
      · exact hw
      · intro hother
        obtain ⟨v, hv⟩ := (h.suspended c q).mp hother
        rw [hw] at hv
        exact hp (Caller.waits.inj hv).1
    · rintro ⟨w, hw⟩
      obtain ⟨hp, hbefore⟩ := hcaller c p w hw
      show c ∈ Function.update s.suspended q [] p
      rw [Function.update_of_ne hp]
      exact (h.suspended c p).mpr ⟨w, hbefore⟩
  · intro c p v hv
    obtain ⟨hp, hbefore⟩ := hcaller c p v hv
    obtain ⟨hwithdrawn', hqueue⟩ := h.waits c p v hbefore
    obtain ⟨hcurrent, hstate⟩ := hothers p hp
    refine ⟨hwithdrawn v hwithdrawn', ?_⟩
    rw [hcurrent, hstate]
    exact hqueue
  · intro c p v hv
    dsimp only at hv
    split_ifs at hv with hmem
    · obtain ⟨w, hw⟩ := (h.suspended c q).mp hmem
      have hreturns : resume (.waits q w) = .returns p v := hw ▸ hv
      obtain ⟨rfl, rfl⟩ := Caller.returns.inj hreturns
      refine hgone q w ⟨(h.waits c q w hw).1, ?_⟩
      rw [hidle]
      simp only [ne_eq, reduceCtorEq, not_false_eq_true]
    · exact hgone p v (h.returns c p v hv)

omit [DecidableEq κ] [DecidableEq ω] in
/-- A caller goes on that neither was nor is suspended. -/
theorem Good.update {c : γ} {now : Caller κ ω} (h : Good s)
    (hbefore : ∀ q w, s.caller c ≠ .waits q w) (hwaits : ∀ q w, now ≠ .waits q w)
    (hreturns : ∀ q w, now ≠ .returns q w) :
    Good { s with caller := Function.update s.caller c now } := by
  refine ⟨⟨h.timed, h.restful, h.cancelled⟩, h.value, suspended_update h.suspended hbefore hwaits,
    h.synced, ?_, ?_⟩
  · exact fun d p v hd => h.waits d p v (update_caller (hwaits p v) hd).2
  · exact fun d p v hd => h.returns d p v (update_caller (hreturns p v) hd).2

omit [DecidableEq ω] in
/-- A caller suspends itself that waits for a work that is being done. -/
theorem Good.suspend {c : γ} (h : Good s) (hcaller : s.caller c = .found q w)
    (hcurrent : s.queues.workCurrent q = some w) (hwithdrawn : s.queues.Withdrawn w) : Good { s with
      suspended := Function.update s.suspended q (s.suspended q ++ [c])
      caller := Function.update s.caller c (.waits q w) } := by
  have hnew : ∀ p, c ∉ s.suspended p := by
    intro p hp
    obtain ⟨v, hv⟩ := (h.suspended c p).mp hp
    rw [hcaller] at hv
    cases hv
  refine ⟨⟨h.timed, h.restful, h.cancelled⟩, h.value, ?_, h.synced, ?_, ?_⟩
  · intro d p
    show d ∈ Function.update s.suspended q (s.suspended q ++ [c]) p ↔
      ∃ v, Function.update s.caller c (.waits q w) d = .waits p v
    by_cases hd : d = c
    · subst hd
      rw [Function.update_self]
      by_cases hp : p = q
      · subst hp
        rw [Function.update_self]
        exact iff_of_true (mem_append_right _ (mem_singleton_self d)) ⟨w, rfl⟩
      · rw [Function.update_of_ne hp]
        exact iff_of_false (hnew p) fun ⟨v, hv⟩ => hp (Caller.waits.inj hv).1.symm
    · rw [Function.update_of_ne hd, ← h.suspended]
      by_cases hp : p = q
      · subst hp
        rw [Function.update_self, mem_append, mem_singleton, or_iff_left hd]
      · rw [Function.update_of_ne hp]
  · intro d p v hd
    by_cases hdc : d = c
    · subst hdc
      have hnow : Function.update s.caller d (.waits q w) d = .waits p v := hd
      rw [Function.update_self] at hnow
      obtain ⟨rfl, rfl⟩ := Caller.waits.inj hnow
      exact ⟨hwithdrawn, .inl hcurrent⟩
    · have hkept : Function.update s.caller c (.waits q w) d = .waits p v := hd
      rw [Function.update_of_ne hdc] at hkept
      exact h.waits d p v hkept
  · exact fun d p v hd => h.returns d p v (update_caller (by simp) hd).2

/-- A careful step keeps every cancelled work from being done. -/
theorem Good.step (h : Good s) (hcareful : Careful s a) (hstep : Step s a t) : Good t := by
  have hsound : Sound t := h.toSound.step hstep
  cases a with
  | queues a =>
    cases queueStep hstep with
    | @cancel q w queues err hcancel =>
      obtain ⟨cancelled, heq, -⟩ := cancelReturns_eq s q w queues err
      rw [heq] at hsound ⊢
      obtain ⟨hkeeps, -⟩ := Queues.keeps_cancel h.timed h.restful hcancel
      exact h.keeps hkeeps (by simp) hsound.cancelled fun p v hv =>
        hkeeps.gone (by simp) (h.synced p v hv)
    | completes hthread hcompletes => exact h.completes hthread hcompletes
    | thread hthread hcompletes => exact h.thread hthread hcompletes
    | other hqueues ha =>
      have hkeeps := Queues.exec_keeps h.timed h.restful hqueues ha
      refine h.keeps hkeeps hcareful hsound.cancelled fun p v hv => ?_
      obtain ⟨hsubmits, hbefore⟩ := unmark_eq_true hv
      exact hkeeps.gone hsubmits (h.synced p v hbefore)
  | syncTest c q w =>
    cases syncStep (by simp) hstep with
    | found hcaller | missed hcaller => exact h.update (by simp [hcaller]) (by simp) (by simp)
  | syncGo c =>
    cases syncStep (by simp) hstep with
    | takes hcaller hvalue => exact absurd (h.value _) hvalue.ne'
    | waits hcaller =>
      simp only [Careful, hcaller] at hcareful
      exact h.suspend hcaller hcareful.1 hcareful.2
    | @cancels _ q w queues err hcaller hcancel =>
      simp only [Careful, hcaller] at hcareful
      obtain ⟨hkeeps, hwithdrawn, -⟩ := Queues.keeps_cancel h.timed h.restful hcancel
      have hgone : queues.Gone q w := by
        refine ⟨hwithdrawn, ?_⟩
        rw [hkeeps.steady.workCurrent]
        exact hcareful
      have hmark : Good { s with queues := queues, synced := mark s.synced q w } := by
        refine h.keeps hkeeps (by simp) hsound.cancelled fun p v hv => ?_
        rcases mark_eq_true hv with ⟨rfl, rfl⟩ | hv
        · exact hgone
        · exact hkeeps.gone (by simp) (h.synced p v hv)
      exact hmark.update (by simp [hcaller]) (by simp) (by simp)
  | syncReturn c =>
    cases syncStep (by simp) hstep with
    | @returns _ q w hcaller =>
      have hmark : Good { s with synced := mark s.synced q w } := by
        refine ⟨⟨h.timed, h.restful, h.cancelled⟩, h.value, h.suspended, fun p v hv => ?_, h.waits,
          h.returns⟩
        rcases mark_eq_true hv with ⟨rfl, rfl⟩ | hv
        · exact h.returns c p v hcaller
        · exact h.synced p v hv
      exact hmark.update (by simp [hcaller]) (by simp) (by simp)

omit [DecidableEq κ] [DecidableEq ω] [DecidableEq γ] in
theorem Initial.good (h : Initial s) : Good s := by
  obtain ⟨⟨hwork, hlists, -⟩, hsem, hcaller, hflags⟩ := h
  refine ⟨⟨?_, ?_, ?_⟩, fun q => (hsem q).1, ?_, ?_, ?_, ?_⟩
  · intro w
    obtain ⟨initTick, hw⟩ := hwork w
    unfold Queues.Timed
    rw [hw]
    exact ⟨rfl, id⟩
  · intro q
    obtain ⟨hlist, -, hcurrent, -⟩ := hlists q
    exact ⟨fun _ => hcurrent, fun _ => hlist⟩
  · intro q w hflag
    rw [(hflags q w).1] at hflag
    cases hflag
  · intro c q
    rw [(hsem q).2, hcaller c]
    simp
  · intro q w hflag
    rw [(hflags q w).2] at hflag
    cases hflag
  · intro c q w hwaits
    rw [hcaller c] at hwaits
    cases hwaits
  · intro c q w hreturns
    rw [hcaller c] at hreturns
    cases hreturns

/-- A work that `rt_workqueue_cancel_work` has cancelled is not being done, and is not done until
it is submitted again. In careful runs this holds of `rt_workqueue_cancel_work_sync` too, and a
caller is suspended only while the work is being done or is acknowledged next, which resumes the
caller. -/
theorem reachable_spared (s : Sync κ ω γ) :
    (Reachable Initial Step s → ∀ q w, s.cancelled q w = true → s.queues.Spared q w) ∧
    (Reachable Initial (Within Step Careful) s →
      (∀ q w, s.synced q w = true → s.queues.Spared q w) ∧
      ∀ c q w, s.caller c = .waits q w → s.queues.workCurrent q = some w ∨
        s.queues.workThread q = .completes ∧
          ∀ t, exec s (.queues (.thread q)) = some t → t.caller c = .returns q w) := by
  constructor
  · intro h q w hcancelled
    have hsound : Sound s := h.invariant (fun _ h₀ => h₀.good.toSound) fun _ _ _ _ ih hstep =>
      ih.step hstep
    exact (hsound.cancelled q w hcancelled).spared hsound.timed
  · intro h
    have hgood : Good s := h.inductWithin (·.good) (·.step)
    refine ⟨fun q w hsynced => (hgood.synced q w hsynced).spared hgood.timed, fun c q w hwaits => ?_⟩
    refine (hgood.waits c q w hwaits).2.imp_right fun hcompletes => ⟨hcompletes, fun t ht => ?_⟩
    cases queueStep ht with
    | completes hthread =>
      rw [completion_eq (hgood.value q)]
      dsimp only
      rw [if_pos ((hgood.suspended c q).mpr ⟨w, hwaits⟩), hwaits]
      rfl
    | thread _ hother => exact absurd hcompletes hother
    | other _ ha => exact absurd rfl (ha q)

instance (queues : Queues Unit ω) (w : ω) : Decidable (queues.Withdrawn w) :=
  inferInstanceAs (Decidable (¬ queues.Queued w ∧ (queues.work w).submitting = false))

instance (s : Sync Unit ω Unit) (a : Act Unit ω Unit) : Decidable (Careful s a) :=
  match a with
  | .queues a =>
    match ha : a.submits with
    | none => .isTrue (by simp [Careful, ha])
    | some w => decidable_of_iff (s.caller () ≠ .waits () w ∧ s.caller () ≠ .returns () w)
        ⟨fun h _ hv _ _ => Option.some.inj (ha.symm.trans hv) ▸ h, fun h => h w ha () ()⟩
  | .syncGo () =>
    match hcaller : s.caller () with
    | .found () w => decidable_of_iff (s.queues.workCurrent () = some w ∧ s.queues.Withdrawn w)
        (by simp [Careful, hcaller])
    | .missed () w => decidable_of_iff (s.queues.workCurrent () ≠ some w) (by simp [Careful, hcaller])
    | .idle | .waits _ _ | .returns _ _ => .isTrue (by simp [Careful, hcaller])
  | .syncTest _ _ _ | .syncReturn _ => .isTrue trivial

/-- A queue, two works that have never been submitted and one thread that cancels works. -/
def start : Sync Unit (Fin 2) Unit where
  queues := Queues.start
  value := fun _ => 0
  suspended := fun _ => []
  caller := fun _ => .idle
  cancelled := fun _ _ => false
  synced := fun _ _ => false

theorem start_initial : Initial start :=
  ⟨Queues.start_initial, fun _ => ⟨rfl, rfl⟩, fun _ => rfl, fun _ _ => ⟨rfl, rfl⟩⟩

/-- One work has been cancelled twice, and the caller waits for the other one. -/
theorem reachable_spared_waiting : ∃ s : Sync Unit (Fin 2) Unit, s.cancelled () 1 = true ∧
    s.synced () 1 = true ∧ s.queues.Spared () 1 ∧ s.caller () = .waits () 0 ∧
      s.queues.workCurrent () = some 0 := by
  have hrun : ∃ s ∈ runWithin exec Careful start [.syncTest () () 1, .syncGo (),
      .queues (.cancel () 1), .queues (.dowork () 0), .queues (.thread ()), .syncTest () () 0,
      .syncGo ()],
      s.cancelled () 1 = true ∧ s.synced () 1 = true ∧ s.caller () = .waits () 0 ∧
      s.queues.workThread () = .works := by decide +kernel
  obtain ⟨s, hwithin, hcancelled, hsynced, hwaits, hworks⟩ := Reachable.of_runWithin start_initial hrun
  obtain ⟨-, hcareful⟩ := reachable_spared s
  obtain ⟨hspared, hcaller⟩ := hcareful hwithin
  refine ⟨s, hcancelled, hsynced, hspared () 1 hsynced, hwaits, ?_⟩
  rcases hcaller () () 0 hwaits with hcurrent | ⟨hcompletes, -⟩
  · exact hcurrent
  · rw [hworks] at hcompletes
    cases hcompletes

/-- A caller waits for a work that has just been done. -/
theorem waiting_not_current : ∃ s : Sync Unit (Fin 2) Unit, Reachable Initial Step s ∧
    s.caller () = .waits () 0 ∧ s.queues.workCurrent () ≠ some 0 := by
  have hrun : ∃ s ∈ runAll exec start [.queues (.dowork () 0), .queues (.thread ()),
      .syncTest () () 0, .syncGo (), .queues (.thread ())],
      s.caller () = .waits () 0 ∧ s.queues.workCurrent () = none := by decide +kernel
  obtain ⟨s, hs, hwaits, hcurrent⟩ := Reachable.of_runAll start_initial hrun
  refine ⟨s, hs, hwaits, ?_⟩
  rw [hcurrent]
  simp only [ne_eq, reduceCtorEq, not_false_eq_true]

end Sync

end RtKernel.Workqueue

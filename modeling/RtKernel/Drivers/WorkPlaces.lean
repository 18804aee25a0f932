import RtKernel.Drivers.Workqueue

/-!
# Where works are

The flags of a work tell which list its node is in. This holds in every run in
which no work is submitted at once while it waits for its delay, only works to be
done are urged, and no delayed submission is interrupted before it starts the
timer; and it is lost with any other step.
-/

open List Option

namespace RtKernel.Workqueue.Queues

open Function

variable {κ ω : Type*} {s s' t : Queues κ ω} {q : κ} {w : ω}

/-- Of the works only `w` is touched. -/
structure Touches (w : ω) (s s' : Queues κ ω) : Prop where
  starting : s'.starting = s.starting
  work : ∀ v, v ≠ w → s'.work v = s.work v
  workList : ∀ v, v ≠ w → ∀ q, v ∈ s'.workList q ↔ v ∈ s.workList q
  delayedList : ∀ v, v ≠ w → ∀ q, v ∈ s'.delayedList q ↔ v ∈ s.delayedList q

theorem Touches.refl (w : ω) (s : Queues κ ω) : Touches w s s :=
  ⟨rfl, fun _ _ => rfl, fun _ _ _ => Iff.rfl, fun _ _ _ => Iff.rfl⟩

theorem Touches.trans (h : Touches w s s') (h' : Touches w s' t) : Touches w s t := by
  constructor
  · exact h'.starting.trans h.starting
  · intro v hv
    exact (h'.work v hv).trans (h.work v hv)
  · intro v hv q
    exact (h'.workList v hv q).trans (h.workList v hv q)
  · intro v hv q
    exact (h'.delayedList v hv q).trans (h.delayedList v hv q)

section

variable [DecidableEq ω]

@[simp] theorem setWork_self (f : RtWork κ → RtWork κ) : (s.setWork w f).work w = f (s.work w) :=
  update_self ..

@[simp] theorem setWork_setWork (f g : RtWork κ → RtWork κ) :
    (s.setWork w f).setWork w g = s.setWork w fun x => g (f x) := by
  simp [setWork]

theorem touches_setWork {f : RtWork κ → RtWork κ} : Touches w s (s.setWork w f) :=
  ⟨rfl, fun _ hv => update_of_ne hv _ _, fun _ _ _ => Iff.rfl, fun _ _ _ => Iff.rfl⟩

theorem touches_rtListRemove : Touches w s (s.rtListRemove w) := by
  constructor
  · rfl
  · exact fun _ _ => rfl
  all_goals
    intro v hv q
    exact mem_rtListRemove.trans (and_iff_left hv)

theorem touches_withdraw : Touches w s (s.withdraw w) :=
  touches_rtListRemove.trans (touches_setWork)

/-- A work that has been withdrawn is in no list of works to be done. -/
theorem withdraw_workList (q : κ) : w ∉ (s.withdraw w).workList q := fun h =>
  (mem_rtListRemove.mp h).2 rfl

theorem withdraw_delayedList (q : κ) : w ∉ (s.withdraw w).delayedList q := fun h =>
  (mem_rtListRemove.mp h).2 rfl

theorem withdraw_work : (s.withdraw w).work w = { s.work w with pending := false } :=
  update_self ..

end

section

variable [DecidableEq κ] {v : ω}

private theorem mem_update {l : κ → List ω} {items : List ω}
    (h : ∀ u, u ∈ items ↔ u = w ∨ u ∈ l q) (p : κ) :
    v ∈ update l q items p ↔ p = q ∧ v = w ∨ v ∈ l p := by
  by_cases hp : p = q
  · subst hp
    rw [update_self, h]
    tauto
  · rw [update_of_ne hp]
    tauto

theorem mem_insertWork (p : κ) :
    v ∈ (s.insertWork q w).workList p ↔ p = q ∧ v = w ∨ v ∈ s.workList p := by
  apply mem_update
  intro u
  rw [mem_append, mem_singleton, or_comm]

theorem mem_insertUrgent (p : κ) :
    v ∈ (s.insertUrgent q w).workList p ↔ p = q ∧ v = w ∨ v ∈ s.workList p := by
  apply mem_update
  intro u
  rw [mem_cons]

theorem mem_insertDelayed (p : κ) :
    v ∈ (s.insertDelayed q w).delayedList p ↔ p = q ∧ v = w ∨ v ∈ s.delayedList p := by
  apply mem_update
  intro u
  rw [mem_append, mem_singleton, or_comm]

theorem touches_insertWork : Touches w s (s.insertWork q w) := by
  constructor
  · rfl
  · exact fun _ _ => rfl
  · intro v hv p
    rw [mem_insertWork]
    tauto
  · exact fun _ _ _ => Iff.rfl

theorem touches_insertUrgent : Touches w s (s.insertUrgent q w) := by
  constructor
  · rfl
  · exact fun _ _ => rfl
  · intro v hv p
    rw [mem_insertUrgent]
    tauto
  · exact fun _ _ _ => Iff.rfl

theorem touches_insertDelayed : Touches w s (s.insertDelayed q w) := by
  constructor
  · rfl
  · exact fun _ _ => rfl
  · exact fun _ _ _ => Iff.rfl
  · intro v hv p
    rw [mem_insertDelayed]
    tauto

/-- Resuming the thread of a queue touches no work. -/
theorem resumeThread_eq : ∃ workThread,
    s.resumeThread q = { s with workThread := workThread } := by
  unfold resumeThread
  split_ifs
  · exact ⟨_, rfl⟩
  · exact ⟨s.workThread, rfl⟩

end

/-- The place of a work is the one that its flags and its timer tell. -/
inductive Placed (s : Queues κ ω) (w : ω) : Prop
  | idle (hpending : (s.work w).pending = false) (hsubmitting : (s.work w).submitting = false)
      (hactivated : (s.work w).timer.activated = false)
      (hattached : (s.work w).timer.attached = false)
      (hwork : ∀ q, w ∉ s.workList q) (hdelayed : ∀ q, w ∉ s.delayedList q)
  | queued (hpending : (s.work w).pending = true) (hsubmitting : (s.work w).submitting = false)
      (hactivated : (s.work w).timer.activated = false)
      (hattached : (s.work w).timer.attached = false)
      (hwork : ∃ q, w ∈ s.workList q) (hdelayed : ∀ q, w ∉ s.delayedList q)
  | delayed (hpending : (s.work w).pending = false) (hsubmitting : (s.work w).submitting = true)
      (hactivated : (s.work w).timer.activated = true)
      (hattached : (s.work w).timer.attached = true) (hqueue : (s.work w).workqueue ≠ none)
      (hwork : ∀ q, w ∉ s.workList q) (hdelayed : ∃ q, w ∈ s.delayedList q)

namespace Placed

theorem touches (h : Placed s v) (ht : Touches w s s') (hv : v ≠ w) : Placed s' v := by
  have hwork := ht.work v hv
  have hlist := ht.workList v hv
  have hdelayedList := ht.delayedList v hv
  cases h with
  | idle hpending hsubmitting hactivated hattached hnone hlater =>
    refine .idle ?_ ?_ ?_ ?_ (fun q hq => hnone q ((hlist q).mp hq))
      fun q hq => hlater q ((hdelayedList q).mp hq)
    all_goals rwa [hwork]
  | queued hpending hsubmitting hactivated hattached hsome hlater =>
    refine .queued ?_ ?_ ?_ ?_ (hsome.imp fun q hq => (hlist q).mpr hq)
      fun q hq => hlater q ((hdelayedList q).mp hq)
    all_goals rwa [hwork]
  | delayed hpending hsubmitting hactivated hattached hqueue hnone hlater =>
    refine .delayed ?_ ?_ ?_ ?_ ?_ (fun q hq => hnone q ((hlist q).mp hq))
      (hlater.imp fun q hq => (hdelayedList q).mpr hq)
    all_goals rwa [hwork]

theorem congr (h : Placed s w) (hwork : s'.work = s.work) (hlist : s'.workList = s.workList)
    (hdelayedList : s'.delayedList = s.delayedList) : Placed s' w := by
  obtain ⟨work, workList, delayedList, workCurrent, workThread, starting⟩ := s'
  subst hwork hlist hdelayedList
  cases h with
  | idle hpending hsubmitting hactivated hattached hnone hlater =>
    exact .idle hpending hsubmitting hactivated hattached hnone hlater
  | queued hpending hsubmitting hactivated hattached hsome hlater =>
    exact .queued hpending hsubmitting hactivated hattached hsome hlater
  | delayed hpending hsubmitting hactivated hattached hqueue hnone hlater =>
    exact .delayed hpending hsubmitting hactivated hattached hqueue hnone hlater

/-- The timer is on while the work is submitted with a delay. -/
theorem timer_eq (h : Placed s w) : (s.work w).timer.activated = (s.work w).submitting ∧
    (s.work w).timer.attached = (s.work w).submitting := by
  cases h with
  | idle _ hsubmitting hactivated hattached | queued _ hsubmitting hactivated hattached
  | delayed _ hsubmitting hactivated hattached =>
    exact ⟨hactivated.trans hsubmitting.symm, hattached.trans hsubmitting.symm⟩

end Placed

section

variable [DecidableEq κ]

theorem touches_resumeThread : Touches w s (s.resumeThread q) := by
  obtain ⟨workThread, heq⟩ := resumeThread_eq (s := s) (q := q)
  rw [heq]
  exact ⟨rfl, fun _ _ => rfl, fun _ _ _ => Iff.rfl, fun _ _ _ => Iff.rfl⟩

theorem Placed.resumeThread (h : Placed s w) : Placed (s.resumeThread q) w := by
  obtain ⟨workThread, heq⟩ := resumeThread_eq (s := s) (q := q)
  rw [heq]
  exact h.congr rfl rfl rfl

end

variable [DecidableEq κ] [DecidableEq ω] {ticks : Nat}

/-- Submitting a work at once leaves its timer and its flag for the delay alone. -/
theorem submitNow_keeps : (((s.submitNow q w).1.work w).submitting = (s.work w).submitting ∧
      ((s.submitNow q w).1.work w).timer = (s.work w).timer) ∧
      ∀ p, w ∉ (s.submitNow q w).1.delayedList p := by
  have hw := withdraw_work (s := s) (w := w)
  have hsubmitting : ((s.withdraw w).work w).submitting = (s.work w).submitting := by rw [hw]
  have htimer : ((s.withdraw w).work w).timer = (s.work w).timer := by rw [hw]
  have hkeeps : ∀ t : Queues κ ω, (t.work w).submitting = (s.work w).submitting →
      (t.work w).timer = (s.work w).timer → (∀ p, w ∉ t.delayedList p) →
      (((t.resumeThread q).work w).submitting = (s.work w).submitting ∧
        ((t.resumeThread q).work w).timer = (s.work w).timer) ∧
        ∀ p, w ∉ (t.resumeThread q).delayedList p := by
    intro t hsub htim hdelayed
    obtain ⟨workThread, heq⟩ := resumeThread_eq (s := t) (q := q)
    rw [heq]
    exact ⟨⟨hsub, htim⟩, hdelayed⟩
  unfold Queues.submitNow
  by_cases hcurrent : (s.withdraw w).workCurrent q ≠ some w
  · simp only [if_pos hcurrent]
    apply hkeeps
    · rw [setWork_self]
      exact hsubmitting
    · rw [setWork_self]
      exact htimer
    · exact withdraw_delayedList
  · simp only [if_neg hcurrent]
    apply hkeeps
    · exact hsubmitting
    · exact htimer
    · exact withdraw_delayedList

/-- Until its timer is started the work is in the list of delayed works, with a timer that is off. -/
theorem Placed.submitLater (h : Placed s w) (hticks : ticks < rtTickMax / 2) (q : κ) :
    ∃ s', s.submitLater q w ticks = some s' ∧ Touches w s s' ∧
      s'.work w = { pending := false, submitting := true, workqueue := some q
                    timer := { initTick := ticks, activated := false, attached := true } } ∧
      (∀ q, w ∉ s'.workList q) ∧ ∃ q, w ∈ s'.delayedList q := by
  obtain ⟨hactivated, hattached⟩ := h.timer_eq
  have hw := withdraw_work (s := s) (w := w)
  have htimer : (if ((s.withdraw w).work w).submitting then
      (rtTimerStop ((s.withdraw w).work w).timer).bind fun timer => rtTimerControl timer ticks
      else rtTimerInit ((s.withdraw w).work w).timer ticks) =
        some { initTick := ticks, activated := false, attached := true } := by
    rw [hw]
    by_cases hsubmitting : (s.work w).submitting = true
    · rw [hsubmitting] at hattached
      simp [hsubmitting, rtTimerStop, rtTimerControl, hattached, hticks]
    · rw [Bool.not_eq_true] at hsubmitting
      simp [hsubmitting, rtTimerInit, hattached, hticks]
  unfold Queues.submitLater
  simp only [htimer, map_some]
  refine ⟨_, rfl, ?_, ?_, withdraw_workList, q, (mem_insertDelayed q).mpr (.inl ⟨rfl, rfl⟩)⟩
  · exact ((touches_withdraw.trans (touches_setWork)).trans (touches_setWork)).trans
      touches_insertDelayed
  · have hself : ∀ s : Queues κ ω, (s.insertDelayed q w).work w = s.work w := fun _ => rfl
    rw [hself, setWork_self, setWork_self, hw]

theorem Placed.submit (h : Placed s w) (hticks : ticks < rtTickMax / 2) (q : κ) :
    ∃ s', (s.submitLater q w ticks).bind (fun s => s.startTimer w) = some s' ∧ Touches w s s' ∧
      Placed s' w := by
  obtain ⟨s', hlater, htouches, hwork, hnone, hlist⟩ := h.submitLater hticks q
  rw [hlater, bind_some, startTimer, hwork]
  refine ⟨_, rfl, htouches.trans (touches_setWork), ?_⟩
  apply Placed.delayed
  · rw [setWork_self, hwork]
  · rw [setWork_self, hwork]
  · rw [setWork_self]
  · rw [setWork_self]
  · rw [setWork_self, hwork]
    exact some_ne_none q
  · exact hnone
  · exact hlist

omit [DecidableEq κ] in
theorem Placed.cancel (h : Placed s w) (q : κ) : ∃ s' err,
    s.workqueueCancelWork q w = some (s', err) ∧ Touches w s s' ∧ Placed s' w := by
  obtain ⟨hactivated, hattached⟩ := h.timer_eq
  have hw := withdraw_work (s := s) (w := w)
  unfold workqueueCancelWork
  by_cases hsubmitting : (s.work w).submitting = true
  · rw [hsubmitting] at hattached
    simp only [hw, hsubmitting, rtTimerStop, rtTimerDetach, hattached, if_true, bind_some,
      map_some]
    refine ⟨_, _, rfl, ?_, ?_⟩
    · exact (touches_withdraw.trans (touches_setWork)).trans (touches_setWork)
    · apply Placed.idle
      · rw [setWork_self, setWork_self, hw]
      · rw [setWork_self, setWork_self]
      · rw [setWork_self, setWork_self]
      · rw [setWork_self, setWork_self]
      · exact withdraw_workList
      · exact withdraw_delayedList
  · rw [Bool.not_eq_true] at hsubmitting
    rw [hsubmitting] at hactivated hattached
    simp only [hw, hsubmitting, Bool.false_eq_true, if_false, map_some]
    refine ⟨_, _, rfl, touches_withdraw.trans (touches_setWork), ?_⟩
    apply Placed.idle
    · rw [setWork_self, hw]
    · rw [setWork_self, hw]
      exact hsubmitting
    · rw [setWork_self, hw]
      exact hactivated
    · rw [setWork_self, hw]
      exact hattached
    · exact withdraw_workList
    · exact withdraw_delayedList

omit [DecidableEq κ] in
/-- A work whose timer has been detached is in no list. -/
theorem detached (f : RtWork κ → RtWork κ) (hpending : (f (s.work w)).pending = false)
    (hsubmitting : (f (s.work w)).submitting = false)
    (hactivated : (f (s.work w)).timer.activated = false)
    (hattached : (f (s.work w)).timer.attached = false) :
    Touches w s ((s.setWork w f).rtListRemove w) ∧ Placed ((s.setWork w f).rtListRemove w) w ∧
      (((s.setWork w f).rtListRemove w).work w).submitting = false := by
  have hw : ((s.setWork w f).rtListRemove w).work w = f (s.work w) := setWork_self f
  refine ⟨touches_setWork.trans touches_rtListRemove, ?_, by rw [hw, hsubmitting]⟩
  apply Placed.idle
  · rw [hw, hpending]
  · rw [hw, hsubmitting]
  · rw [hw, hactivated]
  · rw [hw, hattached]
  all_goals exact fun q hq => (mem_rtListRemove.mp hq).2 rfl

section

variable (h : Placed s w)
include h

/-- An idle work is put into the list of works to be done, unless it is being done. -/
theorem Placed.insertUnless (hsubmitting : (s.work w).submitting = false) (f : RtWork κ → RtWork κ)
    (hf : ∀ x, (f x).pending = true ∧ (f x).submitting = x.submitting ∧ (f x).timer = x.timer) :
    Touches w s (if s.workCurrent q ≠ some w then (s.insertWork q w).setWork w f else s) ∧
      Placed (if s.workCurrent q ≠ some w then (s.insertWork q w).setWork w f else s) w := by
  split_ifs
  · refine ⟨touches_insertWork.trans (touches_setWork), ?_⟩
    obtain ⟨hactivated, hattached⟩ := h.timer_eq
    obtain ⟨hp, hs, ht⟩ := hf (s.work w)
    have hw : ((s.insertWork q w).setWork w f).work w = f (s.work w) := setWork_self f
    apply Placed.queued
    · rw [hw, hp]
    · rw [hw, hs, hsubmitting]
    · rw [hw, ht, hactivated, hsubmitting]
    · rw [hw, ht, hattached, hsubmitting]
    · exact ⟨q, (mem_insertWork q).mpr (.inl ⟨rfl, rfl⟩)⟩
    · cases h with
      | idle _ _ _ _ _ hnone => exact hnone
      | queued _ _ _ _ _ hnone => exact hnone
      | delayed _ hyes => rw [hyes] at hsubmitting; cases hsubmitting
  · exact ⟨.refl w s, h⟩

/-- A work without a delay may be submitted at once. -/
theorem Placed.submitNow (hsubmitting : (s.work w).submitting = false) (q : κ) :
    Touches w s (s.submitNow q w).1 ∧ Placed (s.submitNow q w).1 w := by
  obtain ⟨hactivated, hattached⟩ := h.timer_eq
  have hw := withdraw_work (s := s) (w := w)
  have hidle : Placed (s.withdraw w) w := by
    apply Placed.idle
    · rw [hw]
    · rw [hw]
      exact hsubmitting
    · rw [hw]
      exact hactivated.trans hsubmitting
    · rw [hw]
      exact hattached.trans hsubmitting
    · exact withdraw_workList
    · exact withdraw_delayedList
  have hinsert := hidle.insertUnless (q := q) ((congrArg RtWork.submitting hw).trans hsubmitting)
    (fun x => { x with pending := true, workqueue := some q }) fun x => ⟨rfl, rfl, rfl⟩
  unfold Queues.submitNow
  by_cases hcurrent : (s.withdraw w).workCurrent q ≠ some w
  · rw [if_pos hcurrent] at hinsert
    simp only [if_pos hcurrent]
    exact ⟨(touches_withdraw.trans hinsert.1).trans touches_resumeThread, hinsert.2.resumeThread⟩
  · simp only [if_neg hcurrent]
    exact ⟨touches_withdraw.trans touches_resumeThread, hidle.resumeThread⟩

/-- When its delay is over a work is to be done, unless it is being done. -/
theorem Placed.timeout (hactivated : (s.work w).timer.activated = true) :
    ∃ s', s.timeout w = some s' ∧ Touches w s s' ∧ Placed s' w := by
  cases h with
  | idle _ _ hoff | queued _ _ hoff => rw [hoff] at hactivated; cases hactivated
  | delayed hpending hsubmitting _ hattached hqueue hnone hlist =>
    obtain ⟨queue, hsome⟩ := ne_none_iff_exists'.mp hqueue
    unfold Queues.timeout delayedWorkTimeoutHandler
    simp only [hactivated, if_true, setWork_self, hsome, rtTimerDetach, hattached, map_some,
      setWork_setWork]
    obtain ⟨htouches, hplaced, hdone⟩ := detached (s := s) (w := w) (fun x => { x with
      timer := { initTick := (s.work w).timer.initTick, activated := false, attached := false }
      submitting := false }) hpending rfl rfl rfl
    have hinsert := hplaced.insertUnless (q := queue) hdone (fun x => { x with pending := true })
      fun x => ⟨rfl, rfl, rfl⟩
    exact ⟨_, rfl, (htouches.trans hinsert.1).trans touches_resumeThread, hinsert.2.resumeThread⟩

theorem Placed.urgent (hpending : (s.work w).pending = true) (q : κ) :
    Touches w s (s.rtWorkqueueUrgentWork q w).1 ∧ Placed (s.rtWorkqueueUrgentWork q w).1 w := by
  cases h with
  | idle hoff | delayed hoff => rw [hpending] at hoff; cases hoff
  | queued _ hsubmitting hactivated hattached _ _ =>
    refine ⟨(touches_rtListRemove.trans touches_insertUrgent).trans touches_resumeThread, ?_⟩
    apply Placed.resumeThread
    apply Placed.queued
    · exact hpending
    · exact hsubmitting
    · exact hactivated
    · exact hattached
    · exact ⟨q, (mem_insertUrgent q).mpr (.inl ⟨rfl, rfl⟩)⟩
    · exact fun p hp => (mem_rtListRemove.mp hp).2 rfl

end

/-- The thread of a queue takes the first work, and forgets its queue. -/
theorem workqueueThreadEntry_touches (h : ∀ v, Placed s v)
    (hthread : s.workqueueThreadEntry q = some s') : s'.starting = s.starting ∧ ∀ v, Placed s' v := by
  unfold workqueueThreadEntry at hthread
  cases hstate : s.workThread q with
  | suspended =>
    rw [hstate] at hthread
    cases hthread
  | looks =>
    rw [hstate] at hthread
    cases hlist : s.workList q with
    | nil =>
      rw [hlist] at hthread
      cases hthread
      exact ⟨rfl, fun v => (h v).congr rfl rfl rfl⟩
    | cons w rest =>
      rw [hlist] at hthread
      cases hthread
      have htouches : Touches w s ((s.rtListRemove w).setWork w fun x =>
        { x with pending := false, workqueue := none }) :=
        touches_rtListRemove.trans (touches_setWork)
      have hplaced : Placed ((s.rtListRemove w).setWork w fun x =>
          { x with pending := false, workqueue := none }) w := by
        have hmem : w ∈ s.workList q := hlist ▸ mem_cons_self
        cases h w with
        | idle _ _ _ _ hnone | delayed _ _ _ _ _ hnone => exact absurd hmem (hnone q)
        | queued _ hsubmitting hactivated hattached _ _ =>
          apply Placed.idle
          · rw [setWork_self]
          · rw [setWork_self]
            exact hsubmitting
          · rw [setWork_self]
            exact hactivated
          · rw [setWork_self]
            exact hattached
          all_goals exact fun p hp => (mem_rtListRemove.mp hp).2 rfl
      refine ⟨rfl, fun v => ?_⟩
      by_cases hv : v = w
      · subst hv
        exact hplaced.congr rfl rfl rfl
      · exact ((h v).touches htouches hv).congr rfl rfl rfl
  | works | completes =>
    rw [hstate] at hthread
    cases hthread
    exact ⟨rfl, fun v => (h v).congr rfl rfl rfl⟩

/-- The lists, the flags, the timers and the queues agree about every work. -/
structure Consistent (s : Queues κ ω) : Prop where
  work : ∀ w, (∃ q, w ∈ s.workList q) ↔ (s.work w).pending = true
  delayed : ∀ w, (∃ q, w ∈ s.delayedList q) ↔
    (s.work w).submitting = true ∧ (s.work w).timer.activated = true
  apart : ∀ w, ¬ ((∃ q, w ∈ s.workList q) ∧ ∃ q, w ∈ s.delayedList q)
  queue : ∀ w, (s.work w).timer.activated = true → (s.work w).workqueue ≠ none

/-- No work is submitted at once while it waits for its delay, only works to be done are urged,
and no submission is interrupted before it starts the timer. -/
def Careful (s : Queues κ ω) : Act κ ω → Prop
  | .dowork _ w => (s.work w).submitting = false
  | .submit _ w ticks => ticks ≠ 0 ∨ (s.work w).submitting = false
  | .urgent _ w => (s.work w).pending = true
  | .submitInterrupted .. => False
  | _ => True

instance (s : Queues κ ω) : DecidablePred s.Careful := fun a =>
  match a with
  | .dowork _ w => inferInstanceAs (Decidable ((s.work w).submitting = false))
  | .submit _ w ticks => inferInstanceAs (Decidable (ticks ≠ 0 ∨ (s.work w).submitting = false))
  | .urgent _ w => inferInstanceAs (Decidable ((s.work w).pending = true))
  | .submitInterrupted .. => .isFalse id
  | .cancel .. | .submitResumed _ | .timeout _ | .thread _ => .isTrue trivial

/-- Every work is in its place, and no submission has been interrupted. -/
structure Good (s : Queues κ ω) : Prop where
  starting : s.starting = []
  placed : ∀ w, Placed s w

namespace Good

section

variable (h : Good s) {a : Act κ ω}
include h

omit [DecidableEq κ] [DecidableEq ω] in
theorem consistent : Consistent s := by
  constructor
  · intro w
    cases h.placed w with
    | idle hpending _ _ _ hwork _ | queued hpending _ _ _ hwork _
    | delayed hpending _ _ _ _ hwork _ => simp [hpending, hwork]
  · intro w
    cases h.placed w with
    | idle _ hsubmitting _ _ _ hdelayed
    | queued _ hsubmitting _ _ _ hdelayed => simp [hsubmitting, hdelayed]
    | delayed _ hsubmitting hactivated _ _ _ hdelayed => simp [hsubmitting, hactivated, hdelayed]
  · rintro w ⟨⟨p, hp⟩, q, hq⟩
    cases h.placed w with
    | idle _ _ _ _ _ hdelayed | queued _ _ _ _ _ hdelayed => exact hdelayed q hq
    | delayed _ _ _ _ _ hwork _ => exact hwork p hp
  · intro w hactivated
    cases h.placed w with
    | idle _ _ hoff | queued _ _ hoff => rw [hoff] at hactivated; cases hactivated
    | delayed _ _ _ _ hqueue => exact hqueue

omit [DecidableEq κ] in
theorem touches (ht : Touches w s s') (hw : Placed s' w) : Good s' := by
  constructor
  · exact ht.starting.trans h.starting
  · intro v
    by_cases hv : v = w
    · exact hv ▸ hw
    · exact (h.placed v).touches ht hv

theorem step (hcareful : s.Careful a) (hstep : Step s a s') : Good s' := by
  unfold Step exec at hstep
  cases a with
  | dowork q w =>
    simp only [rtWorkqueueDowork, workqueueSubmitWork, if_true, map_some,
      some.injEq] at hstep
    obtain ⟨ht, hw⟩ := (h.placed w).submitNow hcareful q
    exact hstep ▸ h.touches ht hw
  | submit q w ticks =>
    simp only [rtWorkqueueSubmitWork, workqueueSubmitWork] at hstep
    split_ifs at hstep with hticks hzero
    · have hsubmitting := hcareful.resolve_left (not_not.mpr hzero)
      obtain ⟨ht, hw⟩ := (h.placed w).submitNow hsubmitting q
      rw [map_some, some.injEq] at hstep
      exact hstep ▸ h.touches ht hw
    · obtain ⟨t, hsubmit, ht, hw⟩ := (h.placed w).submit hticks q
      rw [hsubmit, map_some, map_some, some.injEq] at hstep
      exact hstep ▸ h.touches ht hw
    · cases hstep
  | urgent q w =>
    obtain ⟨ht, hw⟩ := (h.placed w).urgent hcareful q
    exact some.inj hstep ▸ h.touches ht hw
  | cancel q w =>
    obtain ⟨t, err, hcancel, ht, hw⟩ := (h.placed w).cancel q
    simp only [rtWorkqueueCancelWork, hcancel, map_some, some.injEq] at hstep
    exact hstep ▸ h.touches ht hw
  | submitInterrupted => exact hcareful.elim
  | submitResumed w =>
    simp only [h.starting, not_mem_nil, if_false] at hstep
    cases hstep
  | timeout w =>
    by_cases hactivated : (s.work w).timer.activated = true
    · obtain ⟨t, htimeout, ht, hw⟩ := (h.placed w).timeout hactivated
      simp only [htimeout, some.injEq] at hstep
      exact hstep ▸ h.touches ht hw
    · simp only [timeout, if_neg hactivated] at hstep
      cases hstep
  | thread q =>
    obtain ⟨hstarting, hplaced⟩ := workqueueThreadEntry_touches h.placed hstep
    exact ⟨hstarting.trans h.starting, hplaced⟩

/-- A step that is not careful leaves a work out of its place. -/
theorem careful (hstep : Step s a s') (hs' : Consistent s') : s.Careful a := by
  have hnow : ∀ q w, (s.submitNow q w).1 = s' → (s.work w).submitting = false := by
    intro q w heq
    by_contra hsubmitting
    rw [Bool.not_eq_false] at hsubmitting
    obtain ⟨hw, hdelayed⟩ := submitNow_keeps (s := s) (q := q) (w := w)
    rw [heq] at hw hdelayed
    have hactivated := (h.placed w).timer_eq.1
    obtain ⟨p, hp⟩ := (hs'.delayed w).mpr ⟨hw.1.trans hsubmitting,
      (congrArg RtTimer.activated hw.2).trans (hactivated.trans hsubmitting)⟩
    exact hdelayed p hp
  unfold Step exec at hstep
  cases a with
  | dowork q w => exact hnow q w (some.inj hstep)
  | submit q w ticks =>
    by_cases hzero : ticks = 0
    · subst hzero
      exact .inr (hnow q w (some.inj hstep))
    · exact .inl hzero
  | urgent q w =>
    have hwork : s'.work w = s.work w := by
      rw [← some.inj hstep, rtWorkqueueUrgentWork]
      obtain ⟨workThread, heq⟩ := resumeThread_eq (s := (s.rtListRemove w).insertUrgent q w) (q := q)
      rw [heq]
      rfl
    have hlist : w ∈ s'.workList q := by
      rw [← some.inj hstep, rtWorkqueueUrgentWork]
      obtain ⟨workThread, heq⟩ := resumeThread_eq (s := (s.rtListRemove w).insertUrgent q w) (q := q)
      rw [heq]
      exact (mem_insertUrgent q).mpr (.inl ⟨rfl, rfl⟩)
    have hpending := (hs'.work w).mp ⟨q, hlist⟩
    rw [hwork] at hpending
    exact hpending
  | submitInterrupted q w ticks =>
    simp only at hstep
    split_ifs at hstep with hticks
    obtain ⟨t, hlater, -, hwork, -, hlist⟩ := (h.placed w).submitLater hticks.2 q
    rw [hlater, map_some, some.injEq] at hstep
    subst hstep
    have hactivated := ((hs'.delayed w).mp hlist).2
    simp only [hwork, Bool.false_eq_true] at hactivated
  | cancel | submitResumed | timeout | thread => exact trivial

end

end Good

omit [DecidableEq κ] [DecidableEq ω] in
theorem Initial.good (h : Initial s) : Good s := by
  obtain ⟨hwork, hlists, hstarting⟩ := h
  refine ⟨hstarting, fun w => ?_⟩
  obtain ⟨initTick, hw⟩ := hwork w
  apply Placed.idle
  · rw [hw]
  · rw [hw]
  · rw [hw]
  · rw [hw]
  · intro q
    rw [(hlists q).1]
    exact not_mem_nil
  · intro q
    rw [(hlists q).2.1]
    exact not_mem_nil

/-- In a run of careful steps the lists, flags, timers and queues agree about every work, and no
assertion fails when a delay is over; a step keeps this if and only if it is careful. -/
theorem reachable_placed (s : Queues κ ω) (h : Reachable Initial (Within Step Careful) s) :
    s.Consistent ∧
      (∀ w, (s.work w).timer.activated = true → ∃ s', s.timeout w = some s') ∧
      ∀ a s', Step s a s' → (s'.Consistent ↔ s.Careful a) := by
  have hgood : Good s := h.inductWithin (·.good) (·.step)
  refine ⟨hgood.consistent, ?_, ?_⟩
  · intro w hactivated
    obtain ⟨s', htimeout, -, -⟩ := (hgood.placed w).timeout hactivated
    exact ⟨s', htimeout⟩
  · intro a s' hstep
    exact ⟨fun hs' => hgood.careful hstep hs', fun hcareful =>
      (hgood.step hcareful hstep).consistent⟩

/-- A queue and two works that have just been initialized. -/
def start : Queues Unit (Fin 2) where
  work := fun _ =>
    { pending := false, submitting := false, workqueue := none
      timer := { initTick := 0, activated := false, attached := false } }
  workList := fun _ => []
  delayedList := fun _ => []
  workCurrent := fun _ => none
  workThread := fun _ => .looks
  starting := []

theorem start_initial : Initial start :=
  ⟨fun _ => ⟨0, rfl⟩, fun _ => ⟨rfl, rfl, rfl, rfl⟩, rfl⟩

/-- One work is to be done, and the other one is delayed. -/
theorem reachable_placed_delayed : ∃ s : Queues Unit (Fin 2), s.workList () = [0] ∧
    s.delayedList () = [1] ∧ s.Consistent ∧
      (∀ w, (s.work w).timer.activated = true → ∃ s', s.timeout w = some s') ∧
      ∀ a s', Step s a s' → (s'.Consistent ↔ s.Careful a) := by
  have hrun : ∃ s ∈ runWithin exec Careful start [.submit () 0 5, .timeout 0, .dowork () 1,
      .urgent () 1, .thread (), .submit () 1 9],
      s.workList () = [0] ∧ s.delayedList () = [1] := by decide +kernel
  obtain ⟨s, hreach, hwork, hdelayed⟩ := Reachable.of_runWithin start_initial hrun
  exact ⟨s, hwork, hdelayed, reachable_placed s hreach⟩

/-- A work that waits for its delay is submitted at once and done: its timer is on, it is in no
list, and the assertion fails when the delay is over. -/
theorem doneEarly_not_consistent : ∃ s : Queues Unit (Fin 2), Reachable Initial Step s ∧
    ¬ s.Consistent ∧ (s.work 0).timer.activated = true ∧ (s.work 0).workqueue = none ∧
      s.timeout 0 = none := by
  have hrun : ∃ s ∈ runAll exec start [.submit () 0 5, .dowork () 0, .thread ()],
      (s.work 0).timer.activated = true ∧ (s.work 0).workqueue = none ∧
      (s.timeout 0).isNone = true := by decide +kernel
  obtain ⟨s, hreach, hactivated, hqueue, hnone⟩ := Reachable.of_runAll start_initial hrun
  refine ⟨s, hreach, ?_, hactivated, hqueue, Option.isNone_iff_eq_none.mp hnone⟩
  intro hs'
  exact hs'.queue 0 hactivated hqueue

end RtKernel.Workqueue.Queues

import RtKernel.Drivers.WorkAccounts

/-!
# Withdrawn works

A work that is in no list of works to be done and that has no delay stays so until it
is submitted.
-/

open Option

namespace RtKernel.Workqueue

open Function

namespace Queues

variable {κ ω : Type*} {s s' t : Queues κ ω} {q : κ} {w : ω}

/-- The work that is submitted. -/
def Act.submits : Act κ ω → Option ω
  | .dowork _ w | .submit _ w _ | .urgent _ w | .submitInterrupted _ w _ => some w
  | .cancel _ _ | .submitResumed _ | .timeout _ | .thread _ => none

/-- The timer of a work is attached while the work is submitted with a delay. -/
def Timed (s : Queues κ ω) (w : ω) : Prop :=
  (s.work w).timer.attached = (s.work w).submitting ∧
    ((s.work w).timer.activated = true → (s.work w).submitting = true)

/-- A work is in no list of works to be done, and has no delay. -/
def Withdrawn (s : Queues κ ω) (w : ω) : Prop := ¬ s.Queued w ∧ (s.work w).submitting = false

/-- What only touches works leaves the threads alone, unless they are suspended. -/
structure Steady (s s' : Queues κ ω) : Prop where
  workCurrent : s'.workCurrent = s.workCurrent
  workThread : ∀ q, s.workThread q ≠ .suspended → s'.workThread q = s.workThread q

theorem Steady.of_eq (hcurrent : s'.workCurrent = s.workCurrent)
    (hthread : s'.workThread = s.workThread) : Steady s s' :=
  ⟨hcurrent, fun q _ => congrFun hthread q⟩

theorem Steady.trans (h : Steady s s') (h' : Steady s' t) : Steady s t := by
  constructor
  · exact h'.workCurrent.trans h.workCurrent
  · intro q hq
    have hkept := h.workThread q hq
    rw [← hkept] at hq ⊢
    exact h'.workThread q hq

theorem Timed.congr (h : Timed s w) (hwork : s'.work w = s.work w) : Timed s' w := by
  unfold Timed
  rw [hwork]
  exact h

theorem Timed.setWork [DecidableEq ω] {f : RtWork κ → RtWork κ}
    (h : (f (s.work w)).timer.attached = (f (s.work w)).submitting ∧
      ((f (s.work w)).timer.activated = true → (f (s.work w)).submitting = true)) :
    Timed (s.setWork w f) w := by
  unfold Timed
  rw [setWork_self]
  exact h

section

variable [DecidableEq κ]

theorem Steady.resumeThread (h : Steady s t) : Steady s (t.resumeThread q) := by
  refine h.trans ?_
  unfold Queues.resumeThread
  split_ifs with hidle
  · refine ⟨rfl, fun p hp => update_of_ne ?_ _ _⟩
    rintro rfl
    exact hp hidle.2
  · exact Steady.of_eq rfl rfl

end

section

variable [DecidableEq ω]

theorem timed_withdraw (h : Timed s w) : Timed (s.withdraw w) w := by
  unfold Timed
  rw [withdraw_work]
  exact h

theorem timed_startTimer (h : Timed s w) (hstart : s.startTimer w = some s') :
    Timed s' w ∧ (s.work w).submitting = true := by
  obtain ⟨timer, htimer, rfl⟩ := map_eq_some_iff.mp hstart
  obtain ⟨hattached, htimer⟩ := ite_none_right_eq_some.mp htimer
  have hsubmitting := h.1.symm.trans hattached
  refine ⟨Timed.setWork ?_, hsubmitting⟩
  rw [← some.inj htimer]
  exact ⟨h.1, fun _ => hsubmitting⟩

theorem timed_cancel {err : WorkErr} (h : Timed s w)
    (hcancel : s.workqueueCancelWork q w = some (s', err)) :
    Timed s' w ∧ (s'.work w).submitting = false ∧ Steady s s' ∧
      (err = .eok → s.workCurrent q ≠ some w) := by
  obtain ⟨t, ht, heq⟩ := map_eq_some_iff.mp hcancel
  obtain ⟨rfl, rfl⟩ := Prod.mk.inj heq
  have hstopped : (t.work w).timer.attached = false ∧ (t.work w).timer.activated = false ∧
      (t.work w).submitting = false ∧ t.workCurrent = s.workCurrent ∧
        t.workThread = s.workThread := by
    by_cases hsubmitting : ((s.withdraw w).work w).submitting = true
    · simp only [if_pos hsubmitting] at ht
      obtain ⟨timer, htimer, rfl⟩ := map_eq_some_iff.mp ht
      obtain ⟨stopped, -, hdetach⟩ := bind_eq_some_iff.mp htimer
      obtain ⟨-, hdetach⟩ := ite_none_right_eq_some.mp hdetach
      rw [setWork_self, ← some.inj hdetach]
      exact ⟨rfl, rfl, rfl, rfl, rfl⟩
    · simp only [if_neg hsubmitting] at ht
      cases ht
      rw [Bool.not_eq_true] at hsubmitting
      obtain ⟨hattached, hactivated⟩ := timed_withdraw h
      refine ⟨hattached.trans hsubmitting, ?_, hsubmitting, rfl, rfl⟩
      by_contra hon
      rw [Bool.not_eq_false] at hon
      exact Bool.false_ne_true (hsubmitting.symm.trans (hactivated hon))
  obtain ⟨hattached, hactivated, hsubmitting, hcurrent, hthread⟩ := hstopped
  refine ⟨Timed.setWork ⟨hattached.trans hsubmitting.symm, fun hon => ?_⟩, ?_, ?_, ?_⟩
  · exact absurd (hactivated.symm.trans hon) Bool.false_ne_true
  · rw [setWork_self]
    exact hsubmitting
  · exact Steady.of_eq hcurrent hthread
  · intro herr
    by_contra hbusy
    rw [if_neg (not_not.mpr (hcurrent ▸ hbusy))] at herr
    cases herr

end

variable [DecidableEq κ] [DecidableEq ω]

theorem timed_submitNow (h : Timed s w) :
    Timed (s.submitNow q w).1 w ∧ Steady s (s.submitNow q w).1 := by
  obtain ⟨⟨hsubmitting, htimer⟩, -⟩ := submitNow_keeps (s := s) (q := q) (w := w)
  constructor
  · unfold Timed
    rw [hsubmitting, htimer]
    exact h
  · unfold submitNow
    by_cases hcurrent : (s.withdraw w).workCurrent q ≠ some w
    · simp only [if_pos hcurrent]
      exact Steady.resumeThread (Steady.of_eq rfl rfl)
    · simp only [if_neg hcurrent]
      exact Steady.resumeThread (Steady.of_eq rfl rfl)

theorem timed_submitLater {ticks : Nat} (hlater : s.submitLater q w ticks = some s') :
    Timed s' w ∧ Steady s s' := by
  obtain ⟨timer, -, hattached, rfl⟩ := submitLater_cases hlater
  have hwork : ∀ s : Queues κ ω, (s.insertDelayed q w).work w = s.work w := fun _ => rfl
  refine ⟨?_, Steady.of_eq rfl rfl⟩
  unfold Timed
  rw [hwork, setWork_self, setWork_self]
  exact ⟨hattached, fun _ => rfl⟩

theorem timed_timeout (h : Timed s w) (htimeout : s.timeout w = some s') :
    Timed s' w ∧ Steady s s' ∧ (s.work w).submitting = true := by
  obtain ⟨p, timer, t, -, hactivated, htimer, rfl, hwork, hs'⟩ := timeout_cases htimeout
  obtain ⟨-, htimer'⟩ := ite_none_right_eq_some.mp htimer
  have hdetached : (s'.work w).submitting = false ∧ (s'.work w).timer = timer := by
    rw [hs', work_resumeThread]
    split_ifs
    · rw [setWork_self]
      exact ⟨congrArg RtWork.submitting hwork, congrArg RtWork.timer hwork⟩
    · rw [hwork]
      exact ⟨rfl, rfl⟩
  refine ⟨?_, ?_, h.2 hactivated⟩
  · unfold Timed
    rw [hdetached.1, hdetached.2, ← some.inj htimer']
    exact ⟨rfl, id⟩
  · rw [hs']
    apply Steady.resumeThread
    split_ifs
    all_goals exact Steady.of_eq rfl rfl

theorem steady_urgent : Steady s (s.rtWorkqueueUrgentWork q w).1 :=
  Steady.resumeThread (Steady.of_eq rfl rfl)

omit [DecidableEq κ] in
/-- Of a step that touches one work the others are as they were. -/
theorem touches_others (htimed : ∀ v, Timed s v) (ht : Touches w s s') (hw : Timed s' w) :
    (∀ v, Timed s' v) ∧ ∀ v, v ≠ w → Withdrawn s v → Withdrawn s' v := by
  constructor
  · intro v
    by_cases hv : v = w
    · exact hv ▸ hw
    · exact (htimed v).congr (ht.work v hv)
  · intro v hv ⟨hqueued, hsubmitting⟩
    refine ⟨fun ⟨p, hp⟩ => hqueued ⟨p, (ht.workList v hv p).mp hp⟩, ?_⟩
    rw [ht.work v hv]
    exact hsubmitting

/-- What a step of a caller, of a timer or of a thread that submits keeps. -/
structure Keeps (s s' : Queues κ ω) (submits : Option ω) : Prop where
  timed : ∀ v, Timed s' v
  withdrawn : ∀ v, submits ≠ some v → Withdrawn s v → Withdrawn s' v
  restful : ∀ p, s'.Restful p
  steady : Steady s s'

section

variable (htimed : ∀ v, Timed s v)
include htimed

omit [DecidableEq κ] in
theorem Keeps.of_submits (ht : Touches w s s') (hw : Timed s' w)
    (hrestful : ∀ p, s'.Restful p) (hsteady : Steady s s') : Keeps s s' (some w) := by
  obtain ⟨htimed', hothers⟩ := touches_others htimed ht hw
  refine ⟨htimed', fun v hv => hothers v ?_, hrestful, hsteady⟩
  rintro rfl
  exact hv rfl

omit [DecidableEq κ] in
theorem Keeps.of_withdrawn (ht : Touches w s s') (hw : Timed s' w)
    (hrestful : ∀ p, s'.Restful p) (hsteady : Steady s s')
    (hwithdrawn : Withdrawn s w → Withdrawn s' w) : Keeps s s' none := by
  obtain ⟨htimed', hothers⟩ := touches_others htimed ht hw
  refine ⟨htimed', fun v _ hv => ?_, hrestful, hsteady⟩
  by_cases heq : v = w
  · subst heq
    exact hwithdrawn hv
  · exact hothers v heq hv

section

variable (hrestful : ∀ p, s.Restful p)
include hrestful

theorem keeps_submitNow : Keeps s (s.submitNow q w).1 (some w) := by
  obtain ⟨hw, hsteady⟩ := timed_submitNow (q := q) (htimed w)
  by_cases hcurrent : s.workCurrent q = some w
  · obtain ⟨queues, hnow, ht, -, -, -, hrestful'⟩ := submitNow_refuse hrestful hcurrent
    rw [hnow] at hw hsteady ⊢
    exact .of_submits htimed ht hw hrestful' hsteady
  · obtain ⟨queues, hnow, ht, -, hrestful'⟩ := submitNow_accept hrestful hcurrent
    rw [hnow] at hw hsteady ⊢
    exact .of_submits htimed ht hw hrestful' hsteady

theorem keeps_submitLater {ticks : Nat}
    (hlater : s.submitLater q w ticks = some s') : Keeps s s' (some w) := by
  obtain ⟨ht, -, -, -, hrestful'⟩ := submitLater_spec hrestful hlater
  obtain ⟨hw, hsteady⟩ := timed_submitLater hlater
  exact .of_submits htimed ht hw hrestful' hsteady

omit [DecidableEq κ] in
/-- A submission starts the timer only of a work that has a delay. -/
theorem keeps_startTimer (hstart : s.startTimer w = some s') : Keeps s s' none := by
  obtain ⟨ht, -, -, -, hrestful'⟩ := startTimer_spec hrestful hstart
  obtain ⟨hw, hsubmitting⟩ := timed_startTimer (htimed w) hstart
  have hsteady : Steady s s' := by
    obtain ⟨timer, -, rfl⟩ := map_eq_some_iff.mp hstart
    exact Steady.of_eq rfl rfl
  refine .of_withdrawn htimed ht hw hrestful' hsteady fun hwithdrawn => ?_
  exact absurd (hwithdrawn.2.symm.trans hsubmitting) Bool.false_ne_true

omit [DecidableEq κ] in
/-- A cancelled work is withdrawn, and not the current one where there is no error. -/
theorem keeps_cancel {err : WorkErr} (hcancel : s.workqueueCancelWork q w = some (s', err)) :
    Keeps s s' none ∧ Withdrawn s' w ∧ (err = .eok → s'.workCurrent q ≠ some w) := by
  obtain ⟨ht, hqueued, -, hrestful'⟩ := cancel_spec hrestful hcancel
  obtain ⟨hw, hsubmitting, hsteady, hcurrent⟩ := timed_cancel (htimed w) hcancel
  have hwithdrawn : Withdrawn s' w := ⟨hqueued, hsubmitting⟩
  refine ⟨.of_withdrawn htimed ht hw hrestful' hsteady fun _ => hwithdrawn, hwithdrawn, ?_⟩
  rw [hsteady.workCurrent]
  exact hcurrent

/-- What keeps all works that are not submitted withdrawn. -/
theorem exec_keeps {a : Act κ ω}
    (hstep : s.exec a = some s') (ha : ∀ q, a ≠ .thread q) : Keeps s s' a.submits := by
  cases a with
  | dowork q w =>
    cases hstep
    exact keeps_submitNow htimed hrestful
  | submit q w ticks =>
    obtain ⟨result, hresult, rfl⟩ := map_eq_some_iff.mp hstep
    unfold rtWorkqueueSubmitWork workqueueSubmitWork at hresult
    split_ifs at hresult with hticks hzero
    · cases hresult
      exact keeps_submitNow htimed hrestful
    · obtain ⟨queues, hqueues, rfl⟩ := map_eq_some_iff.mp hresult
      obtain ⟨later, hlater, hstart⟩ := bind_eq_some_iff.mp hqueues
      have hkeeps := keeps_submitLater htimed hrestful hlater
      have hkeeps' := keeps_startTimer hkeeps.timed hkeeps.restful hstart
      exact ⟨hkeeps'.timed, fun v hv h => hkeeps'.withdrawn v (by simp) (hkeeps.withdrawn v hv h),
        hkeeps'.restful, hkeeps.steady.trans hkeeps'.steady⟩
  | urgent q w =>
    cases hstep
    obtain ⟨ht, -, hwork, hrestful'⟩ := urgent_spec (q := q) (w := w) hrestful
    exact .of_submits htimed ht ((htimed w).congr (congrFun hwork w)) hrestful' steady_urgent
  | cancel q w =>
    obtain ⟨⟨queues, err⟩, hresult, rfl⟩ := map_eq_some_iff.mp hstep
    exact (keeps_cancel htimed hrestful hresult).1
  | submitInterrupted q w ticks =>
    obtain ⟨-, hqueues⟩ := ite_none_right_eq_some.mp hstep
    obtain ⟨later, hlater, rfl⟩ := map_eq_some_iff.mp hqueues
    obtain ⟨htimed', hwithdrawn, hrestful', hsteady⟩ := keeps_submitLater htimed hrestful hlater
    exact ⟨htimed', hwithdrawn, hrestful', hsteady.trans (Steady.of_eq rfl rfl)⟩
  | submitResumed w =>
    obtain ⟨-, hqueues⟩ := ite_none_right_eq_some.mp hstep
    obtain ⟨started, hstart, rfl⟩ := map_eq_some_iff.mp hqueues
    obtain ⟨htimed', hwithdrawn, hrestful', hsteady⟩ := keeps_startTimer htimed hrestful hstart
    exact ⟨htimed', hwithdrawn, hrestful', hsteady.trans (Steady.of_eq rfl rfl)⟩
  | timeout w =>
    obtain ⟨p, -, -, ht, -, -, -, hrestful'⟩ := timeout_spec hrestful hstep
    obtain ⟨hw, hsteady, hsubmitting⟩ := timed_timeout (htimed w) hstep
    refine .of_withdrawn htimed ht hw hrestful' hsteady fun hwithdrawn => ?_
    exact absurd (hwithdrawn.2.symm.trans hsubmitting) Bool.false_ne_true
  | thread q => exact absurd rfl (ha q)

end

/-- The thread of a queue takes no work that is withdrawn, and goes on to acknowledge a work. -/
theorem workqueueThreadEntry_keeps (hthread : s.workqueueThreadEntry q = some s') :
    (∀ v, Timed s' v) ∧ (∀ v, Withdrawn s v → Withdrawn s' v) ∧
      (∀ p v, Withdrawn s v → s'.workCurrent p = some v → s.workCurrent p = some v) ∧
      (∀ p, p ≠ q → s'.workCurrent p = s.workCurrent p ∧ s'.workThread p = s.workThread p) ∧
      (s.workThread q = .works → s'.workThread q = .completes) := by
  unfold workqueueThreadEntry at hthread
  cases hstate : s.workThread q with
  | suspended =>
    rw [hstate] at hthread
    cases hthread
  | looks =>
    rw [hstate] at hthread
    cases hlist : s.workList q with
    | nil =>
      rw [hlist] at hthread
      cases hthread
      exact ⟨htimed, fun _ => id, fun _ _ _ => id,
        fun p hp => ⟨rfl, update_of_ne hp _ _⟩, fun h => (by cases h)⟩
    | cons w rest =>
      rw [hlist] at hthread
      cases hthread
      have hqueued : s.Queued w := ⟨q, by rw [hlist]; exact .head _⟩
      have htouches : Touches w s ((s.rtListRemove w).setWork w fun x =>
          { x with pending := false, workqueue := none }) :=
        touches_rtListRemove.trans (touches_setWork)
      have hw : Timed ((s.rtListRemove w).setWork w fun x =>
          { x with pending := false, workqueue := none }) w := Timed.setWork (htimed w)
      obtain ⟨htimed', hothers⟩ := touches_others htimed htouches hw
      refine ⟨htimed', fun v hv => hothers v ?_ hv, ?_, fun p hp => ⟨update_of_ne hp _ _,
        update_of_ne hp _ _⟩, fun h => (by cases h)⟩
      · rintro rfl
        exact hv.1 hqueued
      · intro p v hv hcurrent
        have hupdate : update s.workCurrent q (some w) p = some v := hcurrent
        by_cases hp : p = q
        · subst hp
          rw [update_self, some_inj] at hupdate
          exact absurd (hupdate ▸ hqueued) hv.1
        · rw [update_of_ne hp] at hupdate
          exact hupdate
  | works =>
    rw [hstate] at hthread
    cases hthread
    refine ⟨htimed, fun _ => id, fun p v _ hcurrent => ?_, fun p hp => ⟨update_of_ne hp _ _,
      update_of_ne hp _ _⟩, fun _ => update_self q _ _⟩
    by_cases hp : p = q
    · subst hp
      have hnone : update s.workCurrent p none p = some v := hcurrent
      rw [update_self] at hnone
      cases hnone
    · have hkept : update s.workCurrent q none p = some v := hcurrent
      rw [update_of_ne hp] at hkept
      exact hkept
  | completes =>
    rw [hstate] at hthread
    cases hthread
    exact ⟨htimed, fun _ => id, fun _ _ _ => id,
      fun p hp => ⟨rfl, update_of_ne hp _ _⟩, fun h => (by cases h)⟩

end

end Queues

end RtKernel.Workqueue

import RtKernel.Timer.Timer
import Mathlib.Data.List.TakeWhile

/-!
# One call of `rt_timer_check`

The loop reads the front of the list anew after every callback and puts periodic
timers back into the same list. It ends because a timer that is put back is not
due at the tick being processed, which is so for every period but zero.
-/

open List Option

namespace RtKernel.Timer

/-- What a callback may do to the timers other than start one. -/
inductive QuietOp (τ : Type*)
  | init (t : τ) (time : Nat) (periodic : Bool)
  | stop (t : τ)
  | detach (t : τ)
  | control (t : τ) (cmd : Timers.Control)

/-- A time that `rt_timer_init` and `RT_TIMER_CTRL_SET_TIME` accept. -/
def Admitted (time : Nat) : Prop := time < rtTickMax / 2

instance (time : Nat) : Decidable (Admitted time) := inferInstanceAs (Decidable (_ < _))

namespace Timers

variable {τ : Type*} [DecidableEq τ]

/-- May the operation be called? A timer that is initialised is in no list. -/
def Legal (s : Timers τ) : QuietOp τ → Prop
  | .init t time _ => t ∉ s.timerList ∧ t ∉ s.list ∧ Admitted time
  | .control _ (.setTime time) => Admitted time
  | _ => True

def apply (s : Timers τ) : QuietOp τ → Timers τ
  | .init t time periodic => s.timerInit t time periodic
  | .stop t => (s.rtTimerStop t).getD s
  | .detach t => s.rtTimerDetach t
  | .control t cmd => s.rtTimerControl t cmd

/-- What a callback that starts no timer may leave behind. -/
def Quiet (s s' : Timers τ) : Prop :=
  Relation.ReflTransGen (fun s s' => ∃ o : QuietOp τ, s.Legal o ∧ s.apply o = s') s s'

/-- What callbacks do: the one of the timer that is called in the `n`th turn of the loop. -/
abbrev Callbacks (τ : Type*) := Nat → τ → Timers τ → Timers τ

/-- One turn of the loop with the timer `t`. -/
def turn (s : Timers τ) (cb : Callbacks τ) (n : Nat) (t : τ) : Timers τ :=
  (cb n t (s.beforeCallback t)).afterCallback t

/-- `rt_timer_check` from its `n`th turn on, at a tick that does not advance, with the timers
called. There is no result where the fuel does not suffice. -/
def rtTimerCheck (cb : Callbacks τ) : Nat → Nat → Timers τ → Option (Timers τ × List τ)
  | 0, _, _ => none
  | fuel + 1, n, s =>
    match s.expired s.rtTick with
    | none => some (s, [])
    | some t => (rtTimerCheck cb fuel (n + 1) (s.turn cb n t)).map fun r => (r.1, t :: r.2)

/-- The call returns and has called each timer at most once. -/
def FinishesOnce (cb : Callbacks τ) (s : Timers τ) : Prop :=
  ∃ fuel r, rtTimerCheck cb fuel 0 s = some r ∧ r.2.Nodup

/-- The timers after `k` turns of the loop, if there are as many. -/
def turns (cb : Callbacks τ) : Nat → Nat → Timers τ → Option (Timers τ)
  | 0, _, s => some s
  | k + 1, n, s =>
    match s.expired s.rtTick with
    | none => none
    | some t => turns cb k (n + 1) (s.turn cb n t)

/-- After its callback the timer `t` is put back with a period of zero. -/
def PutBackDue (s : Timers τ) (t : τ) : Prop :=
  s.list ≠ [] ∧ (s.timer t).periodic ∧ (s.timer t).activated ∧ (s.timer t).initTick = 0

/-- From the `n`th turn on no timer is put back with a period of zero. -/
def NonePutBackDue (cb : Callbacks τ) (n : Nat) (s : Timers τ) : Prop :=
  ∀ k s' t, turns cb k n s = some s' → s'.expired s'.rtTick = some t →
    ¬ PutBackDue (cb (n + k) t (s'.beforeCallback t)) t

/-- Timers may leave the lists; those that stay in the list time out as before. -/
structure Thinned (s s' : Timers τ) : Prop where
  rtTick : s'.rtTick = s.rtTick
  timerList : s'.timerList.Sublist s.timerList
  list : s'.list.Sublist s.list
  timeoutTick : ∀ p ∈ s'.timerList, (s'.timer p).timeoutTick = (s.timer p).timeoutTick
  initTick : (∀ p, Admitted (s.timer p).initTick) → ∀ p, Admitted (s'.timer p).initTick

omit [DecidableEq τ] in
theorem Thinned.refl (s : Timers τ) : Thinned s s :=
  ⟨rfl, .refl _, .refl _, fun _ _ => rfl, fun h => h⟩

omit [DecidableEq τ] in
theorem Thinned.trans {s s' s'' : Timers τ} (h : Thinned s s') (h' : Thinned s' s'') :
    Thinned s s'' where
  rtTick := h'.rtTick.trans h.rtTick
  timerList := h'.timerList.trans h.timerList
  list := h'.list.trans h.list
  timeoutTick p hp := (h'.timeoutTick p hp).trans (h.timeoutTick p (h'.timerList.subset hp))
  initTick ha := h'.initTick (h.initTick ha)

/-- Changing a timer without its timeout, or one that is not in the list. -/
theorem Thinned.setTimer (s : Timers τ) (t : τ) (f : RtTimer → RtTimer)
    (htimeout : t ∈ s.timerList → (f (s.timer t)).timeoutTick = (s.timer t).timeoutTick)
    (hinit : Admitted (s.timer t).initTick → Admitted (f (s.timer t)).initTick) :
    Thinned s (s.setTimer t f) := by
  refine ⟨rfl, .refl _, .refl _, fun p hp => ?_, fun ha p => ?_⟩
  · by_cases hpt : p = t
    · subst hpt
      rw [setTimer_self]
      exact htimeout hp
    · rw [setTimer_of_ne _ _ _ hpt]
  · by_cases hpt : p = t
    · subst hpt
      rw [setTimer_self]
      exact hinit (ha p)
    · rw [setTimer_of_ne _ _ _ hpt]
      exact ha p

theorem Thinned.timerRemove (s : Timers τ) (t : τ) : Thinned s (s.timerRemove t) where
  rtTick := rfl
  timerList := rtListRemove_sublist _
  list := rtListRemove_sublist _
  timeoutTick _ _ := rfl
  initTick ha := ha

theorem Thinned.rtTimerDetach (s : Timers τ) (t : τ) : Thinned s (s.rtTimerDetach t) :=
  (Thinned.timerRemove s t).trans (.setTimer _ t _ (fun _ => rfl) fun h => h)

variable {s : Timers τ}

theorem Thinned.apply {o : QuietOp τ} (h : s.Legal o) : Thinned s (s.apply o) := by
  cases o with
  | init t time periodic =>
    obtain ⟨hlist, -, htime⟩ := h
    exact .setTimer s t
      (fun _ => { initTick := time, timeoutTick := 0, activated := false, periodic })
      (fun hmem => absurd hmem hlist) fun _ => htime
  | stop t =>
    rw [Timers.apply, rtTimerStop]
    split_ifs
    · exact .rtTimerDetach s t
    · exact .refl s
  | detach t => exact .rtTimerDetach s t
  | control t cmd =>
    cases cmd with
    | setTime time =>
      exact .setTimer s t (fun x => { x with initTick := time }) (fun _ => rfl) fun _ => h
    | setOneshot =>
      exact .setTimer s t (fun x => { x with periodic := false }) (fun _ => rfl) fun ha => ha
    | setPeriodic =>
      exact .setTimer s t (fun x => { x with periodic := true }) (fun _ => rfl) fun ha => ha

variable {s' : Timers τ} {p : τ}

theorem Quiet.thinned (h : Quiet s s') : Thinned s s' := by
  induction h with
  | refl => exact .refl s
  | tail _ hstep ih =>
    obtain ⟨o, hlegal, rfl⟩ := hstep
    exact ih.trans (.apply hlegal)

/-- The timer is due at the current tick. -/
def Due (s : Timers τ) (t : τ) : Prop :=
  sub32 s.rtTick (s.timer t).timeoutTick < rtTickMax / 2

instance (s : Timers τ) : DecidablePred s.Due := fun _ => inferInstanceAs (Decidable (_ < _))

/-- The number of timers in the list that are due. -/
def dueCount (s : Timers τ) : Nat := s.timerList.countP fun t => s.Due t

/-- At the head of the loop, when the timers in `called` have been called. -/
structure Head (s : Timers τ) (called : List τ) : Prop where
  nodup : s.timerList.Nodup
  list : s.list = []
  admitted : ∀ t, Admitted (s.timer t).initTick
  /-- What has been called is not due again. -/
  notDue : ∀ t ∈ called, t ∈ s.timerList → ¬ s.Due t

omit [DecidableEq τ] in
theorem Thinned.due_iff (h : Thinned s s') (hp : p ∈ s'.timerList) :
    s'.Due p ↔ s.Due p := by
  unfold Due
  rw [h.rtTick, h.timeoutTick p hp]

omit [DecidableEq τ] in
theorem Thinned.dueCount_le (h : Thinned s s') : s'.dueCount ≤ s.dueCount := by
  unfold dueCount
  have hsame : s'.timerList.countP (fun t => s'.Due t) = s'.timerList.countP fun t => s.Due t := by
    apply countP_congr
    intro p hp
    simp only [decide_eq_true_eq]
    exact h.due_iff hp
  rw [hsame]
  exact h.timerList.countP_le

variable {t : τ}

/-- A timer started with a time other than zero is not due. -/
theorem not_due_rtTimerStart (ha : Admitted (s.timer t).initTick)
    (hzero : (s.timer t).initTick ≠ 0) : ¬ (s.rtTimerStart t).Due t := by
  unfold Due Admitted at *
  rw [rtTimerStart_rtTick, rtTimerStart_self, rtTickMax_half]
  rw [rtTickMax_half] at ha
  dsimp only
  unfold sub32 add32
  omega

theorem rtTimerStart_perm (s : Timers τ) (t : τ) :
    (s.rtTimerStart t).timerList.Perm (t :: rtListRemove s.timerList t) :=
  perm_orderedInsert _ _ _

theorem rtTimerStart_dueCount (ht : t ∉ s.timerList)
    (hnot : ¬ (s.rtTimerStart t).Due t) : (s.rtTimerStart t).dueCount = s.dueCount := by
  have hperm := rtTimerStart_perm s t
  rw [rtListRemove_of_notMem ht] at hperm
  unfold dueCount
  rw [hperm.countP_eq, countP_cons_of_neg (by simpa using hnot)]
  apply countP_congr
  intro p hp
  have hpt : p ≠ t := fun he => ht (he ▸ hp)
  simp only [decide_eq_true_eq]
  rw [Due, Due, rtTimerStart_rtTick, rtTimerStart_of_ne _ _ hpt]

variable {cb : Callbacks τ} {n : Nat} {time : Nat}

/-- One turn leaves fewer timers due, and the one called not due again. -/
theorem Head.turn {called : List τ} (h : Head s called) (ht : s.expired s.rtTick = some t)
    (hquiet : Quiet (s.beforeCallback t) (cb n t (s.beforeCallback t)))
    (hback : ¬ PutBackDue (cb n t (s.beforeCallback t)) t) :
    t ∉ called ∧ Head (s.turn cb n t) (t :: called) ∧
      (s.turn cb n t).dueCount < s.dueCount := by
  obtain ⟨rest, hlist, hexp⟩ := expired_eq_some ht
  have hdue : s.Due t := hexp
  have hmem : t ∈ s.timerList := hlist ▸ mem_cons_self
  have htrest : t ∉ rest := by
    have hn := h.nodup
    rw [hlist] at hn
    exact (nodup_cons.mp hn).1
  have hcalled : t ∉ called := fun hc => h.notDue t hc hmem hdue
  have hu := hquiet.thinned
  have hblist : (s.beforeCallback t).timerList = rest := by
    rw [beforeCallback_timerList, hlist, rtListRemove_cons_self htrest]
  have hbtmp : (s.beforeCallback t).list = [t] := by
    rw [beforeCallback_list, h.list, rtListRemove_nil]
  have hbtimer : ∀ p, ((s.beforeCallback t).timer p).timeoutTick = (s.timer p).timeoutTick ∧
      ((s.beforeCallback t).timer p).initTick = (s.timer p).initTick := by
    intro p
    by_cases hp : p = t
    · rw [hp, beforeCallback_self]
      exact ⟨rfl, rfl⟩
    · rw [beforeCallback_of_ne _ _ hp]
      exact ⟨rfl, rfl⟩
  have hbdue : ∀ p, (s.beforeCallback t).Due p ↔ s.Due p := by
    intro p
    rw [Due, Due, beforeCallback_rtTick, (hbtimer p).1]
  have hbcount : (s.beforeCallback t).dueCount < s.dueCount := by
    have hcons : (t :: rest).countP (fun p => decide (s.Due p)) =
        rest.countP (fun p => decide (s.Due p)) + 1 :=
      countP_cons_of_pos (decide_eq_true hdue)
    unfold dueCount
    rw [hblist, hlist, hcons]
    simp only [hbdue]
    exact Nat.lt_succ_self _
  unfold Timers.turn
  generalize cb n t (s.beforeCallback t) = u at hu hback
  have hucount := hu.dueCount_le
  have hutm : t ∉ u.timerList := fun hm => htrest (hblist ▸ hu.timerList.subset hm)
  have hunodup : u.timerList.Nodup := by
    refine List.Nodup.sublist (hblist ▸ hu.timerList) ?_
    have hn := h.nodup
    rw [hlist] at hn
    exact (nodup_cons.mp hn).2
  have huadm := hu.initTick fun p => (hbtimer p).2 ▸ h.admitted p
  have hunot : ∀ p ∈ t :: called, p ∈ u.timerList → ¬ u.Due p := by
    intro p hp hpm hd
    have hpt : p ≠ t := fun he => hutm (he ▸ hpm)
    have hps : p ∈ s.timerList := hlist ▸ mem_cons_of_mem t (hblist ▸ hu.timerList.subset hpm)
    exact h.notDue p ((mem_cons.mp hp).resolve_left hpt) hps
      ((hbdue p).mp ((hu.due_iff hpm).mp hd))
  refine ⟨hcalled, ?_⟩
  by_cases hempty : u.list = []
  · -- the callback stopped its own timer
    rw [afterCallback, if_pos hempty]
    exact ⟨⟨hunodup, hempty, huadm, hunot⟩, by omega⟩
  · have huone : u.list = [t] := by
      have hsub := hu.list
      rw [hbtmp] at hsub
      exact (sublist_singleton.mp hsub).resolve_left hempty
    have hgone : rtListRemove u.list t = [] := by
      rw [huone]
      exact rtListRemove_cons_self not_mem_nil
    by_cases hper : (u.timer t).periodic ∧ (u.timer t).activated
    · rw [afterCallback_restart hempty hper]
      have hzero : (u.timer t).initTick ≠ 0 := fun hz => hback ⟨hempty, hper.1, hper.2, hz⟩
      have hnot := not_due_rtTimerStart (huadm t) hzero
      refine ⟨⟨?_, hgone, ?_, ?_⟩, ?_⟩
      · have hperm := rtTimerStart_perm u t
        rw [rtListRemove_of_notMem hutm] at hperm
        exact hperm.nodup_iff.mpr (nodup_cons.mpr ⟨hutm, hunodup⟩)
      · intro p
        by_cases hp : p = t
        · rw [hp, rtTimerStart_self]
          exact huadm t
        · rw [rtTimerStart_of_ne _ _ hp]
          exact huadm p
      · intro p hp hpm
        by_cases hpt : p = t
        · exact hpt ▸ hnot
        · have hpu := (mem_rtTimerStart.mp hpm).resolve_left hpt
          have hkeep := hunot p hp hpu
          rw [Due] at hkeep ⊢
          rwa [rtTimerStart_rtTick, rtTimerStart_of_ne _ _ hpt]
      · rw [rtTimerStart_dueCount hutm hnot]
        omega
    · rw [afterCallback_remove hempty hper]
      have hrem := Thinned.timerRemove u t
      refine ⟨⟨hunodup.sublist hrem.timerList, hgone, huadm, ?_⟩, ?_⟩
      · intro p hp hpm hd
        exact hunot p hp (hrem.timerList.subset hpm) ((hrem.due_iff hpm).mp hd)
      · have := hrem.dueCount_le
        omega

theorem NonePutBackDue.turn
    (h : NonePutBackDue cb n s) (ht : s.expired s.rtTick = some t) :
    NonePutBackDue cb (n + 1) (s.turn cb n t) := by
  intro k s' p hk hp
  have hturns : turns cb (k + 1) n s = some s' := by
    rw [turns, ht]
    exact hk
  have hn : n + 1 + k = n + (k + 1) := by omega
  rw [hn]
  exact h (k + 1) s' p hturns hp

/-- When no timer is put back with a period of zero, as many turns as timers are due suffice. -/
theorem Head.finishes (hquiet : ∀ n t s, Quiet s (cb n t s)) :
    ∀ fuel n (s : Timers τ) called, Head s called → s.dueCount < fuel → NonePutBackDue cb n s →
      ∃ r, rtTimerCheck cb fuel n s = some r ∧ r.2.Nodup ∧ ∀ t ∈ r.2, t ∉ called := by
  intro fuel
  induction fuel with
  | zero =>
    intro n s called _ hfuel
    omega
  | succ fuel ih =>
    intro n s called h hfuel hnone
    rw [rtTimerCheck]
    cases ht : s.expired s.rtTick with
    | none => exact ⟨_, rfl, nodup_nil, fun t hmem => absurd hmem not_mem_nil⟩
    | some t =>
      have hback := hnone 0 s t rfl ht
      obtain ⟨hcalled, hhead, hless⟩ := h.turn ht (hquiet n t _) hback
      obtain ⟨r, hr, hnodup, hnew⟩ := ih (n + 1) _ _ hhead (by omega) (hnone.turn ht)
      refine ⟨(r.1, t :: r.2), ?_, ?_, ?_⟩
      · dsimp only
        rw [hr]
        rfl
      · exact nodup_cons.mpr ⟨fun hmem => hnew t hmem (.head _), hnodup⟩
      · intro p hp
        rcases mem_cons.mp hp with rfl | hp
        · exact hcalled
        · exact fun hc => hnew p hp (mem_cons_of_mem t hc)

/-- The timers in the list time out at the tick before, now, or less than half a turn ahead. -/
def OnTime (s : Timers τ) : Prop :=
  ∀ p ∈ s.timerList, sub32 (add32 (s.timer p).timeoutTick 1) s.rtTick ≤ rtTickMax / 2

/-- The timer `p` stops the loop of `rt_timer_start` for a timer with the time `time`. -/
def StopsAt (s : Timers τ) (time : Nat) (p : τ) : Prop :=
  sub32 (s.timer p).timeoutTick (add32 s.rtTick time) ≠ 0 ∧
    sub32 (s.timer p).timeoutTick (add32 s.rtTick time) < rtTickMax / 2

/-- Where `rt_timer_start` puts the timer: in front of the first that stops its loop. -/
theorem rtTimerStart_split (s : Timers τ) (t : τ) :
    ∃ pre post, rtListRemove s.timerList t = pre ++ post ∧
      (s.rtTimerStart t).timerList = pre ++ t :: post ∧
      (∀ p ∈ pre, ¬ s.StopsAt (s.timer t).initTick p) ∧
      ∀ p ∈ post.head?, s.StopsAt (s.timer t).initTick p := by
  let s₁ := (s.timerRemove t).setTimer t fun x => { x with activated := false }
  let s₂ := s₁.setTimer t fun x => { x with timeoutTick := add32 s.rtTick x.initTick }
  have hstart : (s.rtTimerStart t).timerList =
      (rtListRemove s.timerList t).orderedInsert s₂.stopsAt t := rfl
  have hstops : ∀ p ≠ t, (s₂.stopsAt t p ↔ s.StopsAt (s.timer t).initTick p) := by
    intro p hpt
    unfold stopsAt StopsAt
    rw [setTimer_self, setTimer_of_ne _ _ _ hpt, setTimer_self, setTimer_of_ne _ _ _ hpt]
    rfl
  obtain ⟨pre, post, hsplit, hins, hpre, hpost⟩ :=
    orderedInsert_split s₂.stopsAt t (rtListRemove s.timerList t)
  have hne : ∀ p ∈ pre ++ post, p ≠ t := fun p hp => (mem_rtListRemove.mp (hsplit ▸ hp)).2
  refine ⟨pre, post, hsplit, hstart.trans hins, fun p hp => ?_, fun p hp => ?_⟩
  · rw [← hstops p (hne p (mem_append_left post hp))]
    exact hpre p hp
  · rw [← hstops p (hne p (mem_append_right pre (mem_of_mem_head? hp)))]
    exact hpost p hp

/-- Callbacks that take no timer out of the list but their own. -/
def StopNoOther (cb : Callbacks τ) : Prop :=
  ∀ n t s, ∀ p ∈ Timers.timerList s, p ≠ t → p ∈ (cb n t s).timerList

/-- What holds at the head of the loop in a system that keeps its timers on time. -/
structure Sane (s : Timers τ) : Prop where
  nodup : s.timerList.Nodup
  list : s.list = []
  admitted : ∀ p, Admitted (s.timer p).initTick
  onTime : s.OnTime

omit [DecidableEq τ] in
/-- What is due is passed by every timer that is started. -/
theorem Sane.not_stopsAt (h : s.Sane) (hp : p ∈ s.timerList) (hdue : s.Due p)
    (htime : Admitted time) : ¬ s.StopsAt time p := by
  have hon := h.onTime p hp
  unfold StopsAt Due Admitted at *
  rw [rtTickMax_half] at *
  unfold sub32 add32 at *
  omega

omit [DecidableEq τ] in
/-- A timer with the time zero passes only what is due. -/
theorem Sane.due_of_passed (h : s.Sane) (hp : p ∈ s.timerList)
    (hpass : ¬ s.StopsAt 0 p) : s.Due p := by
  have hon := h.onTime p hp
  unfold StopsAt Due at *
  rw [rtTickMax_half] at *
  unfold sub32 add32 at *
  omega

variable {rest : List τ}

/-- What a callback leaves that takes no other timer out of the list. -/
theorem Sane.callback (h : s.Sane) (hquiet : ∀ n t s, Quiet s (cb n t s)) (hothers : StopNoOther cb)
    (hlist : s.timerList = t :: rest) (n : Nat) : (cb n t (s.beforeCallback t)).timerList = rest ∧
      (cb n t (s.beforeCallback t)).list.Sublist [t] ∧
      (cb n t (s.beforeCallback t)).rtTick = s.rtTick ∧
      (∀ p, Admitted ((cb n t (s.beforeCallback t)).timer p).initTick) ∧
      ∀ p ∈ rest, ((cb n t (s.beforeCallback t)).timer p).timeoutTick = (s.timer p).timeoutTick := by
  have hnodup := h.nodup
  rw [hlist, nodup_cons] at hnodup
  obtain ⟨htrest, hrest⟩ := hnodup
  have hblist : (s.beforeCallback t).timerList = rest := by
    rw [beforeCallback_timerList, hlist, rtListRemove_cons_self htrest]
  have hu := (hquiet n t (s.beforeCallback t)).thinned
  have hkeep : (cb n t (s.beforeCallback t)).timerList = rest := by
    have hsub : (cb n t (s.beforeCallback t)).timerList.Sublist rest := hblist ▸ hu.timerList
    have hall : rest ⊆ (cb n t (s.beforeCallback t)).timerList := fun p hp =>
      hothers n t _ p (hblist ▸ hp) fun he => htrest (he ▸ hp)
    exact hsub.eq_of_length_le (subperm_of_subset hrest hall).length_le
  refine ⟨hkeep, ?_, hu.rtTick.trans (beforeCallback_rtTick s t), ?_, ?_⟩
  · have hsub := hu.list
    rwa [beforeCallback_list, h.list, rtListRemove_nil] at hsub
  · refine hu.initTick fun p => ?_
    by_cases hp : p = t
    · rw [hp, beforeCallback_self]
      exact h.admitted t
    · rw [beforeCallback_of_ne _ _ hp]
      exact h.admitted p
  · intro p hp
    have hpt : p ≠ t := fun he => htrest (he ▸ hp)
    rw [hu.timeoutTick p (hkeep ▸ hp), beforeCallback_of_ne _ _ hpt]

/-- What a turn does to the list: its timer leaves it, or is put back in front of the first that
stops the loop of `rt_timer_start`. -/
theorem Sane.turn_spec (h : s.Sane)
    (hquiet : ∀ n t s, Quiet s (cb n t s)) (hothers : StopNoOther cb)
    (hlist : s.timerList = t :: rest) (n : Nat) :
    Sane (s.turn cb n t) ∧ (s.turn cb n t).rtTick = s.rtTick ∧
      (∀ p ∈ rest, ((s.turn cb n t).timer p).timeoutTick = (s.timer p).timeoutTick) ∧
      ((s.turn cb n t).timerList = rest ∧ ¬ PutBackDue (cb n t (s.beforeCallback t)) t ∨
        ∃ time pre post, Admitted time ∧ rest = pre ++ post ∧
          (s.turn cb n t).timerList = pre ++ t :: post ∧
          ((s.turn cb n t).timer t).timeoutTick = add32 s.rtTick time ∧
          (PutBackDue (cb n t (s.beforeCallback t)) t → time = 0) ∧
          (∀ p ∈ pre, ¬ s.StopsAt time p) ∧ ∀ p ∈ post.head?, s.StopsAt time p) := by
  obtain ⟨hulist, hutmp, hutick, huadm, hutimeout⟩ := h.callback hquiet hothers hlist n
  have hnodup := h.nodup
  rw [hlist, nodup_cons] at hnodup
  obtain ⟨htrest, hrest⟩ := hnodup
  have honrest : ∀ p ∈ rest, p ≠ t ∧
      sub32 (add32 (s.timer p).timeoutTick 1) s.rtTick ≤ rtTickMax / 2 := fun p hp =>
    ⟨fun he => htrest (he ▸ hp), h.onTime p (hlist ▸ mem_cons_of_mem t hp)⟩
  unfold Timers.turn
  generalize cb n t (s.beforeCallback t) = u at hulist hutmp hutick huadm hutimeout
  have huremove : rtListRemove u.timerList t = rest := by
    rw [hulist, rtListRemove_of_notMem htrest]
  by_cases hempty : u.list = []
  · -- the callback stopped its own timer
    rw [afterCallback, if_pos hempty]
    refine ⟨⟨hulist ▸ hrest, hempty, huadm, ?_⟩, hutick, hutimeout,
      .inl ⟨hulist, fun hback => hback.1 hempty⟩⟩
    intro p hp
    rw [hulist] at hp
    rw [hutimeout p hp, hutick]
    exact (honrest p hp).2
  · have hgone : rtListRemove u.list t = [] := by
      rw [(sublist_singleton.mp hutmp).resolve_left hempty]
      exact rtListRemove_cons_self not_mem_nil
    by_cases hper : (u.timer t).periodic ∧ (u.timer t).activated
    · rw [afterCallback_restart hempty hper]
      obtain ⟨pre, post, hsplit, hnew, hpass, hstop⟩ := rtTimerStart_split u t
      rw [huremove] at hsplit
      have hself : ((u.rtTimerStart t).timer t).timeoutTick =
          add32 s.rtTick (u.timer t).initTick := by
        rw [rtTimerStart_self, hutick]
      have hkeep : ∀ p ∈ rest, ((u.rtTimerStart t).timer p).timeoutTick =
          (s.timer p).timeoutTick := by
        intro p hp
        rw [rtTimerStart_of_ne _ _ (honrest p hp).1, hutimeout p hp]
      have hsame : ∀ p ∈ rest, u.StopsAt (u.timer t).initTick p ↔
          s.StopsAt (u.timer t).initTick p := by
        intro p hp
        rw [StopsAt, StopsAt, hutimeout p hp, hutick]
      refine ⟨⟨?_, hgone, ?_, ?_⟩, (rtTimerStart_rtTick u t).trans hutick, hkeep, .inr
        ⟨(u.timer t).initTick, pre, post, huadm t, hsplit, hnew, hself, fun hback => hback.2.2.2,
          fun p hp => ?_, fun p hp => ?_⟩⟩
      · have hperm := rtTimerStart_perm u t
        rw [huremove] at hperm
        exact hperm.nodup_iff.mpr (nodup_cons.mpr ⟨htrest, hrest⟩)
      · intro p
        by_cases hp : p = t
        · rw [hp, rtTimerStart_self]
          exact huadm t
        · rw [rtTimerStart_of_ne _ _ hp]
          exact huadm p
      · intro p hp
        rw [rtTimerStart_rtTick, hutick]
        rcases mem_rtTimerStart.mp hp with rfl | hp
        · have hadm := huadm p
          rw [hself]
          unfold Admitted at hadm
          unfold sub32 add32
          omega
        · rw [hulist] at hp
          rw [hkeep p hp]
          exact (honrest p hp).2
      · rw [← hsame p (hsplit ▸ mem_append_left post hp)]
        exact hpass p hp
      · rw [← hsame p (hsplit ▸ mem_append_right pre (mem_of_mem_head? hp))]
        exact hstop p hp
    · rw [afterCallback_remove hempty hper]
      refine ⟨⟨?_, hgone, huadm, ?_⟩, hutick, hutimeout,
        .inl ⟨huremove, fun hback => hper ⟨hback.2.1, hback.2.2.1⟩⟩⟩
      · rw [timerRemove_timerList, huremove]
        exact hrest
      · intro p hp
        rw [timerRemove_timerList, huremove] at hp
        rw [timerRemove_timer, timerRemove_rtTick, hutimeout p hp, hutick]
        exact (honrest p hp).2

/-- A timer that is due in the list, behind timers that are due. -/
structure Waiting (s : Timers τ) (t : τ) : Prop where
  due : s.Due t
  front : ∃ pre post, s.timerList = pre ++ t :: post ∧ ∀ p ∈ pre, s.Due p

/-- A timer that is put back with a period of zero waits for another turn. -/
theorem Sane.waiting (h : s.Sane) (hquiet : ∀ n t s, Quiet s (cb n t s)) (hothers : StopNoOther cb)
    (hlist : s.timerList = t :: rest) (n : Nat)
    (hback : PutBackDue (cb n t (s.beforeCallback t)) t) : Waiting (s.turn cb n t) t := by
  obtain ⟨-, htick, hkeep, hput⟩ := h.turn_spec hquiet hothers hlist n
  rcases hput with ⟨-, hnot⟩ | ⟨time, pre, post, htime, hrest, hnew, hself, hzero, hpass, -⟩
  · exact absurd hback hnot
  · obtain rfl := hzero hback
    refine ⟨?_, pre, post, hnew, fun p hp => ?_⟩
    · unfold Due
      rw [htick, hself, rtTickMax_half]
      unfold sub32 add32
      omega
    · have hpr : p ∈ rest := hrest ▸ mem_append_left post hp
      have hdue := h.due_of_passed (hlist ▸ mem_cons_of_mem t hpr) (hpass p hp)
      unfold Due at *
      rwa [htick, hkeep p hpr]

/-- A timer keeps waiting while one in front of it has its turn. -/
theorem Waiting.turn {t p : τ} (h : s.Waiting t) (hs : s.Sane)
    (hquiet : ∀ n t s, Quiet s (cb n t s)) (hothers : StopNoOther cb)
    (hlist : s.timerList = p :: rest) (hpt : p ≠ t) (n : Nat) : Waiting (s.turn cb n p) t := by
  obtain ⟨pre, post, hfront, hdue⟩ := h.front
  obtain ⟨pre, rfl, hrest⟩ : ∃ pre', pre = p :: pre' ∧ rest = pre' ++ t :: post := by
    rcases pre with - | ⟨q, pre⟩
    · exact absurd (List.cons.inj (hlist.symm.trans hfront)).1 hpt
    · obtain ⟨rfl, hrest⟩ := List.cons.inj (hlist.symm.trans hfront)
      exact ⟨pre, rfl, hrest⟩
  obtain ⟨-, htick, hkeep, hput⟩ := hs.turn_spec hquiet hothers hlist n
  have hfirst : ∀ x ∈ pre ++ [t], x ∈ rest ∧ s.Due x := by
    intro x hx
    rcases mem_append.mp hx with hx | hx
    · exact ⟨hrest ▸ mem_append_left _ hx, hdue x (mem_cons_of_mem p hx)⟩
    · obtain rfl := mem_singleton.mp hx
      exact ⟨hrest ▸ mem_append_right _ (.head _), h.due⟩
  have hdue' : ∀ x ∈ pre ++ [t], (s.turn cb n p).Due x := by
    intro x hx
    obtain ⟨hxr, hd⟩ := hfirst x hx
    unfold Due at *
    rwa [htick, hkeep x hxr]
  refine ⟨hdue' t (by simp), ?_⟩
  rcases hput with ⟨hnew, -⟩ | ⟨time, pre', post', htime, hsplit, hnew, -, -, -, hstop⟩
  · exact ⟨pre, post, hnew.trans hrest, fun x hx => hdue' x (mem_append_left _ hx)⟩
  · -- no timer up to `t` stops the loop that puts `p` back
    have hnone : ∀ x ∈ pre ++ [t], ¬ s.StopsAt time x := fun x hx =>
      hs.not_stopsAt (hlist ▸ mem_cons_of_mem p (hfirst x hx).1) (hfirst x hx).2 htime
    have hboth : (pre ++ [t]) ++ post = pre' ++ post' := by
      rw [← hsplit, hrest, append_assoc]
      rfl
    obtain ⟨mid, hmid⟩ : ∃ mid, pre' = (pre ++ [t]) ++ mid := by
      rcases append_eq_append_iff.mp hboth with ⟨mid, hmid, -⟩ | ⟨mid, hmid, hpost⟩
      · exact ⟨mid, hmid⟩
      · rcases mid with - | ⟨x, mid⟩
        · exact ⟨[], by rw [hmid, append_nil, append_nil]⟩
        · have hx : x ∈ pre ++ [t] := hmid ▸ mem_append_right _ (.head _)
          have hxs : x ∈ post'.head? := by
            rw [hpost]
            rfl
          exact absurd (hstop x hxs) (hnone x hx)
    refine ⟨pre, mid ++ p :: post', ?_, fun x hx => hdue' x (mem_append_left _ hx)⟩
    rw [hnew, hmid]
    simp

omit [DecidableEq τ] in
theorem Waiting.expired (h : s.Waiting t) :
    ∃ p rest, s.timerList = p :: rest ∧ s.expired s.rtTick = some p := by
  obtain ⟨pre, post, hfront, hdue⟩ := h.front
  rcases pre with - | ⟨p, pre⟩
  · refine ⟨t, post, hfront, ?_⟩
    unfold Timers.expired
    rw [hfront]
    exact if_pos h.due
  · refine ⟨p, pre ++ t :: post, hfront, ?_⟩
    unfold Timers.expired
    rw [hfront]
    exact if_pos (hdue p (.head _))

/-- A call that returns has called a timer that was waiting. -/
theorem Waiting.called (hquiet : ∀ n t s, Quiet s (cb n t s)) (hothers : StopNoOther cb) :
    ∀ fuel n (s : Timers τ) r, s.Sane → s.Waiting t → rtTimerCheck cb fuel n s = some r →
      t ∈ r.2 := by
  intro fuel
  induction fuel with
  | zero =>
    intro n s r _ _ hr
    cases hr
  | succ fuel ih =>
    intro n s r hs h hr
    obtain ⟨p, rest, hlist, hexp⟩ := h.expired
    rw [rtTimerCheck, hexp] at hr
    obtain ⟨r', hr', rfl⟩ := map_eq_some_iff.mp hr
    by_cases hpt : p = t
    · exact hpt ▸ mem_cons_self
    · exact mem_cons_of_mem p (ih (n + 1) _ r' (hs.turn_spec hquiet hothers hlist n).1
        (h.turn hs hquiet hothers hlist hpt n) hr')

/-- A call that calls no timer twice puts none back with a period of zero. -/
theorem Sane.nonePutBackDue (hquiet : ∀ n t s, Quiet s (cb n t s)) (hothers : StopNoOther cb) :
    ∀ k fuel n (s : Timers τ) r s' t, s.Sane → rtTimerCheck cb fuel n s = some r → r.2.Nodup →
      turns cb k n s = some s' → s'.expired s'.rtTick = some t →
      ¬ PutBackDue (cb (n + k) t (s'.beforeCallback t)) t := by
  intro k
  induction k with
  | zero =>
    intro fuel n s r s' t hs hr hnodup hturns ht hback
    cases hturns
    cases fuel with
    | zero => cases hr
    | succ fuel =>
      rw [rtTimerCheck, ht] at hr
      obtain ⟨r', hr', rfl⟩ := map_eq_some_iff.mp hr
      obtain ⟨rest, hlist, -⟩ := expired_eq_some ht
      have hwait := hs.waiting hquiet hothers hlist n hback
      have hmem := hwait.called hquiet hothers fuel (n + 1) _ r'
        (hs.turn_spec hquiet hothers hlist n).1 hr'
      exact (nodup_cons.mp hnodup).1 hmem
  | succ k ih =>
    intro fuel n s r s' t hs hr hnodup hturns ht
    rw [turns] at hturns
    cases hp : s.expired s.rtTick with
    | none => simp [hp] at hturns
    | some p =>
      rw [hp] at hturns
      cases fuel with
      | zero => cases hr
      | succ fuel =>
        rw [rtTimerCheck, hp] at hr
        obtain ⟨r', hr', rfl⟩ := map_eq_some_iff.mp hr
        obtain ⟨rest, hlist, -⟩ := expired_eq_some hp
        have hn : n + (k + 1) = n + 1 + k := by omega
        rw [hn]
        exact ih fuel (n + 1) _ r' s' t (hs.turn_spec hquiet hothers hlist n).1 hr'
          (nodup_cons.mp hnodup).2 hturns ht

/-- One call of `rt_timer_check` finishes and calls each timer at most once where it puts none
back with a period of zero, and unless a callback stops another timer only there. -/
theorem finishesOnce_of_nonePutBackDue {s : Timers τ} (hnodup : s.timerList.Nodup)
    (hlist : s.list = []) (hadmitted : ∀ p, Admitted (s.timer p).initTick) {cb : Callbacks τ}
    (hquiet : ∀ n t s, Quiet s (cb n t s)) :
    (NonePutBackDue cb 0 s → FinishesOnce cb s) ∧
      (s.OnTime → StopNoOther cb → FinishesOnce cb s → NonePutBackDue cb 0 s) := by
  refine ⟨fun hnone => ?_, ?_⟩
  · have hhead : Head s [] := ⟨hnodup, hlist, hadmitted, fun t ht => absurd ht List.not_mem_nil⟩
    obtain ⟨r, hr, hr', -⟩ :=
      hhead.finishes hquiet (s.dueCount + 1) 0 s [] (Nat.lt_succ_self _) hnone
    exact ⟨_, r, hr, hr'⟩
  · rintro honTime hothers ⟨fuel, r, hr, hr'⟩ k s' t hturns ht
    exact Sane.nonePutBackDue hquiet hothers k fuel 0 s r s' t ⟨hnodup, hlist, hadmitted, honTime⟩
      hr hr' hturns ht

/-- A periodic timer with the time `time`, started at tick 100; the check runs at tick 101. -/
def onePeriodic (time : Nat) : Timers Unit :=
  let s : Timers Unit :=
    { rtTick := 100, timer := fun _ => ⟨0, 0, false, false⟩, timerList := [], list := [] }
  { (s.timerInit () time true).rtTimerStart () with rtTick := 101 }

/-- Callbacks that leave the timers alone. -/
def idle : Callbacks Unit := fun _ _ s => s

theorem onePeriodic_admitted (h : Admitted time) :
    ∀ p, Admitted ((onePeriodic time).timer p).initTick := fun _ => h

/-- A timer with a period of one tick is called once and put back for the next tick. -/
theorem finishesOnce_onePeriodic : FinishesOnce idle (onePeriodic 1) := by
  refine (finishesOnce_of_nonePutBackDue (by decide) rfl (onePeriodic_admitted (by decide))
    fun _ _ _ => .refl).1 fun k s' t hturns ht => ?_
  rcases k with - | k
  · cases hturns
    cases t
    exact fun hback => absurd hback.2.2.2 (by decide)
  · -- the second turn finds no timer due
    have hnone : (turn (onePeriodic 1) idle 0 ()).expired 101 = none := by decide
    have hturns' : turns idle k 1 (turn (onePeriodic 1) idle 0 ()) = some s' := hturns
    rcases k with - | k
    · cases hturns'
      exact absurd (hnone.symm.trans ht) (by simp)
    · have : turns idle (k + 1) 1 (turn (onePeriodic 1) idle 0 ()) = none := by
        rw [turns]
        exact congrArg (fun o => match o with
          | none => none
          | some t => turns idle k 2 (turn (turn (onePeriodic 1) idle 0 ()) idle 1 t)) hnone
      rw [this] at hturns'
      cases hturns'

/-- The only timer has the period zero, is started and due. -/
structure OnlyZero (s : Timers Unit) : Prop where
  timerList : s.timerList = [()]
  list : s.list = []
  due : s.Due ()
  flags : (s.timer ()).periodic ∧ (s.timer ()).activated
  initTick : (s.timer ()).initTick = 0

theorem OnlyZero.turn {s : Timers Unit} (h : OnlyZero s) (n : Nat) :
    OnlyZero (Timers.turn s idle n ()) := by
  have hlist : (s.beforeCallback ()).list ≠ [] := by
    exact cons_ne_nil _ _
  have hself : (s.beforeCallback ()).timer () = s.timer () := by
    have hkeep : ∀ x : RtTimer, x.periodic = true →
        { x with activated := x.activated && x.periodic } = x := by
      rintro ⟨_, _, _, _⟩ rfl
      simp
    rw [beforeCallback_self]
    exact hkeep _ h.flags.1
  have hturn : Timers.turn s idle n () = (s.beforeCallback ()).rtTimerStart () :=
    afterCallback_restart hlist (hself ▸ h.flags)
  have hback : (Timers.turn s idle n ()).timer () =
      { s.timer () with timeoutTick := add32 s.rtTick 0, activated := true } := by
    rw [hturn, rtTimerStart_self, hself, beforeCallback_rtTick, h.initTick]
  refine ⟨?_, ?_, ?_, ?_, ?_⟩
  · have hperm := rtTimerStart_perm (s.beforeCallback ()) ()
    rw [beforeCallback_timerList, h.timerList] at hperm
    rw [hturn]
    exact perm_singleton.mp hperm
  · rw [hturn, rtTimerStart_list, beforeCallback_list, h.list]
    rfl
  · unfold Due
    rw [hback, hturn, rtTimerStart_rtTick, beforeCallback_rtTick, rtTickMax_half]
    dsimp only
    unfold sub32 add32
    omega
  · rw [hback]
    exact ⟨h.flags.1, rfl⟩
  · rw [hback]
    exact h.initTick

theorem OnlyZero.never {s : Timers Unit} (h : OnlyZero s) (fuel : Nat) :
    ∀ n, rtTimerCheck idle fuel n s = none := by
  induction fuel generalizing s with
  | zero => exact fun _ => rfl
  | succ fuel ih =>
    intro n
    have hexp : s.expired s.rtTick = some () := by
      unfold expired
      rw [h.timerList]
      exact if_pos h.due
    rw [rtTimerCheck, hexp]
    dsimp only
    rw [ih (h.turn n)]
    rfl

/-- The time zero is accepted, and a periodic timer that has it keeps the check from ending. -/
theorem onePeriodic_zero_never :
    (onePeriodic 0).timerList.Nodup ∧ (onePeriodic 0).list = [] ∧
      (∀ p, Admitted ((onePeriodic 0).timer p).initTick) ∧ (onePeriodic 0).OnTime ∧
      (∀ n t s, Quiet s (idle n t s)) ∧ ¬ FinishesOnce idle (onePeriodic 0) ∧
      ∀ fuel, rtTimerCheck idle fuel 0 (onePeriodic 0) = none := by
  have hzero : OnlyZero (onePeriodic 0) := ⟨rfl, rfl, by decide, by decide, rfl⟩
  refine ⟨by decide, rfl, onePeriodic_admitted (by decide), fun () _ => by decide,
    fun _ _ _ => .refl, ?_, fun fuel => hzero.never fuel 0⟩
  rintro ⟨fuel, r, hr, -⟩
  rw [hzero.never fuel 0] at hr
  cases hr

end Timers

end RtKernel.Timer

import RtKernel.Core.HalfRange
import RtKernel.Core.RtList

/-!
# Software timers

The timers that are started form one list, ordered by the tick they time out at.
`rt_timer_check` takes timers off its front and calls them with interrupts
disabled; what it does before and after a callback are separate functions, since
the callback may start, stop and detach timers, also the one it belongs to.
-/

namespace RtKernel.Timer

open Function

/-- `struct rt_timer`. -/
structure RtTimer where
  initTick : Nat
  timeoutTick : Nat
  /-- `RT_TIMER_FLAG_ACTIVATED`. -/
  activated : Bool
  /-- `RT_TIMER_FLAG_PERIODIC`. -/
  periodic : Bool

/-- The timers of the system. -/
structure Timers (τ : Type*) where
  rtTick : Nat
  timer : τ → RtTimer
  /-- `_timer_list`. -/
  timerList : List τ
  /-- The local list of `rt_timer_check`. -/
  list : List τ

namespace Timers

variable {τ : Type*} [DecidableEq τ]

/-- Change one timer. -/
def setTimer (s : Timers τ) (t : τ) (f : RtTimer → RtTimer) : Timers τ :=
  { s with timer := update s.timer t (f (s.timer t)) }

/-- `_timer_remove`. -/
def timerRemove (s : Timers τ) (t : τ) : Timers τ :=
  { s with timerList := rtListRemove s.timerList t, list := rtListRemove s.list t }

/-- `_timer_init`. -/
def timerInit (s : Timers τ) (t : τ) (time : Nat) (periodic : Bool) : Timers τ :=
  s.setTimer t fun _ =>
    { initTick := time, timeoutTick := 0, activated := false, periodic := periodic }

/-- The loop of `rt_timer_start` stops in front of the timer `p`. -/
def stopsAt (s : Timers τ) (t p : τ) : Prop :=
  sub32 (s.timer p).timeoutTick (s.timer t).timeoutTick ≠ 0 ∧
    sub32 (s.timer p).timeoutTick (s.timer t).timeoutTick < rtTickMax / 2

instance (s : Timers τ) : DecidableRel s.stopsAt := fun _ _ => inferInstanceAs (Decidable (_ ∧ _))

/-- `rt_timer_start`. -/
def rtTimerStart (s : Timers τ) (t : τ) : Timers τ :=
  -- stop timer firstly
  let s := s.timerRemove t
  let s := s.setTimer t fun x => { x with activated := false }
  let s := s.setTimer t fun x => { x with timeoutTick := add32 s.rtTick x.initTick }
  let s := { s with timerList := s.timerList.orderedInsert s.stopsAt t }
  s.setTimer t fun x => { x with activated := true }

/-- `rt_timer_detach`, and what `rt_timer_delete` does before the memory is released. -/
def rtTimerDetach (s : Timers τ) (t : τ) : Timers τ :=
  (s.timerRemove t).setTimer t fun x => { x with activated := false }

/-- `rt_timer_stop`, which refuses a timer that is not activated. -/
def rtTimerStop (s : Timers τ) (t : τ) : Option (Timers τ) :=
  if (s.timer t).activated then some (s.rtTimerDetach t) else none

/-- The commands of `rt_timer_control` that change a timer. -/
inductive Control
  | setTime (time : Nat)
  | setOneshot
  | setPeriodic

/-- `rt_timer_control`. -/
def rtTimerControl (s : Timers τ) (t : τ) : Control → Timers τ
  | .setTime time => s.setTimer t fun x => { x with initTick := time }
  | .setOneshot => s.setTimer t fun x => { x with periodic := false }
  | .setPeriodic => s.setTimer t fun x => { x with periodic := true }

/-- The timer at the front of the list, when `rt_timer_check` finds it timed out. -/
def expired (s : Timers τ) (currentTick : Nat) : Option τ :=
  match s.timerList with
  | [] => none
  | t :: _ => if sub32 currentTick (s.timer t).timeoutTick < rtTickMax / 2 then some t else none

/-- What `rt_timer_check` does with an expired timer before its callback. -/
def beforeCallback (s : Timers τ) (t : τ) : Timers τ :=
  let s := s.timerRemove t
  let s := if (s.timer t).periodic then s else s.setTimer t fun x => { x with activated := false }
  { s with list := t :: s.list }

/-- What `rt_timer_check` does with an expired timer after its callback. -/
def afterCallback (s : Timers τ) (t : τ) : Timers τ :=
  -- the timer object was detached or started again
  if s.list = [] then s
  else
    let s := s.timerRemove t
    if (s.timer t).periodic ∧ (s.timer t).activated then
      (s.setTimer t fun x => { x with activated := false }).rtTimerStart t
    else s

section

variable (s : Timers τ) (t : τ) {p : τ}

@[simp] theorem setTimer_rtTick (f) : (s.setTimer t f).rtTick = s.rtTick := rfl
@[simp] theorem setTimer_timerList (f) : (s.setTimer t f).timerList = s.timerList := rfl
@[simp] theorem setTimer_list (f) : (s.setTimer t f).list = s.list := rfl
@[simp] theorem setTimer_self (f) : (s.setTimer t f).timer t = f (s.timer t) :=
  update_self ..
theorem setTimer_of_ne (f) (h : p ≠ t) : (s.setTimer t f).timer p = s.timer p :=
  update_of_ne h ..

@[simp] theorem timerRemove_rtTick : (s.timerRemove t).rtTick = s.rtTick := rfl
@[simp] theorem timerRemove_timer : (s.timerRemove t).timer = s.timer := rfl
@[simp] theorem timerRemove_timerList :
    (s.timerRemove t).timerList = rtListRemove s.timerList t := rfl
@[simp] theorem timerRemove_list : (s.timerRemove t).list = rtListRemove s.list t := rfl

@[simp] theorem rtTimerStart_rtTick : (s.rtTimerStart t).rtTick = s.rtTick := rfl
@[simp] theorem rtTimerStart_list : (s.rtTimerStart t).list = rtListRemove s.list t := rfl

/-- A started timer times out `init_tick` ticks from now. -/
@[simp] theorem rtTimerStart_self : (s.rtTimerStart t).timer t =
    { s.timer t with timeoutTick := add32 s.rtTick (s.timer t).initTick, activated := true } := by
  simp [rtTimerStart]

theorem rtTimerStart_of_ne (h : p ≠ t) : (s.rtTimerStart t).timer p = s.timer p := by
  simp [rtTimerStart, setTimer_of_ne _ _ _ h]

@[simp] theorem beforeCallback_rtTick : (s.beforeCallback t).rtTick = s.rtTick := by
  rw [beforeCallback]
  split_ifs <;> rfl

@[simp] theorem beforeCallback_timerList :
    (s.beforeCallback t).timerList = rtListRemove s.timerList t := by
  rw [beforeCallback]
  split_ifs <;> rfl

@[simp] theorem beforeCallback_list : (s.beforeCallback t).list = t :: rtListRemove s.list t := by
  rw [beforeCallback]
  split_ifs <;> rfl

theorem beforeCallback_of_ne (h : p ≠ t) : (s.beforeCallback t).timer p = s.timer p := by
  rw [beforeCallback]
  split_ifs
  · rfl
  · exact update_of_ne h ..

/-- A one-shot timer is no longer activated in its callback. -/
@[simp] theorem beforeCallback_self : (s.beforeCallback t).timer t =
    { s.timer t with activated := (s.timer t).activated && (s.timer t).periodic } := by
  rw [beforeCallback]
  by_cases h : (s.timer t).periodic = true
  · simp only [h, timerRemove_timer, if_true, Bool.and_true]
    rw [← h]
  · simp [h]

variable {s : Timers τ}

omit [DecidableEq τ] in
/-- The timer that expires is the first of the list. -/
theorem expired_eq_some {currentTick : Nat} {t : τ}
    (h : s.expired currentTick = some t) : ∃ rest, s.timerList = t :: rest ∧
      sub32 currentTick (s.timer t).timeoutTick < rtTickMax / 2 := by
  unfold expired at h
  split at h
  · cases h
  · next p rest hl =>
    split_ifs at h with hexp
    cases h
    exact ⟨rest, hl, hexp⟩

/-- A callback that leaves its own timer alone is followed by a restart if the timer is periodic
and activated. -/
theorem afterCallback_restart {t : τ} (hlist : s.list ≠ [])
    (h : (s.timer t).periodic ∧ (s.timer t).activated) : s.afterCallback t = s.rtTimerStart t := by
  have hidem : ∀ l : List τ, rtListRemove (rtListRemove l t) t = rtListRemove l t := fun l =>
    rtListRemove_of_notMem fun hm => (mem_rtListRemove.mp hm).2 rfl
  rw [afterCallback, if_neg hlist]
  refine (if_pos h).trans ?_
  simp [rtTimerStart, timerRemove, setTimer, hidem]

theorem afterCallback_remove {t : τ} (hlist : s.list ≠ [])
    (h : ¬ ((s.timer t).periodic ∧ (s.timer t).activated)) :
    s.afterCallback t = s.timerRemove t := by
  rw [afterCallback, if_neg hlist]
  exact if_neg h

end

theorem mem_rtTimerStart {s : Timers τ} {t p : τ} :
    p ∈ (s.rtTimerStart t).timerList ↔ p = t ∨ p ∈ s.timerList := by
  simp only [rtTimerStart, setTimer_timerList, timerRemove_timerList, List.mem_orderedInsert,
    mem_rtListRemove]
  tauto

end Timers

end RtKernel.Timer

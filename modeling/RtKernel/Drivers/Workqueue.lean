import RtKernel.Core.HalfRange
import RtKernel.Core.RtList
import RtKernel.Core.Run

/-!
# Work queues

A work is done by the thread of a queue, at once or after a delay. It has one list
node, which is in the list of works to be done, in the list of delayed works, or in
none, and flags and a timer that tell which. Soft timers are not configured, so the
callback of a timer runs with interrupts disabled, as does what checks the timers.

`κ` are the queues and `ω` the works. There is no result where an assertion fails.
-/

namespace RtKernel.Workqueue

open Function

/-- The timer of a work. -/
structure RtTimer where
  initTick : Nat
  /-- `RT_TIMER_FLAG_ACTIVATED`. -/
  activated : Bool
  /-- The object has the type of a timer and is in the list of all timers. -/
  attached : Bool

/-- `rt_timer_init`, which asserts that the object is not in the list of all timers. -/
def rtTimerInit (timer : RtTimer) (time : Nat) : Option RtTimer :=
  if time < rtTickMax / 2 ∧ ¬ timer.attached then
    some { initTick := time, activated := false, attached := true }
  else none

/-- `rt_timer_stop`; a timer that is not activated stays so. -/
def rtTimerStop (timer : RtTimer) : Option RtTimer :=
  if timer.attached then some { timer with activated := false } else none

/-- `rt_timer_control` with `RT_TIMER_CTRL_SET_TIME`. -/
def rtTimerControl (timer : RtTimer) (time : Nat) : Option RtTimer :=
  if timer.attached ∧ time < rtTickMax / 2 then some { timer with initTick := time } else none

/-- `rt_timer_start`. -/
def rtTimerStart (timer : RtTimer) : Option RtTimer :=
  if timer.attached then some { timer with activated := true } else none

/-- `rt_timer_detach`. -/
def rtTimerDetach (timer : RtTimer) : Option RtTimer :=
  if timer.attached then some { timer with activated := false, attached := false } else none

/-- `struct rt_work`, without its list node. -/
structure RtWork (κ : Type*) where
  /-- `RT_WORK_STATE_PENDING`. -/
  pending : Bool
  /-- `RT_WORK_STATE_SUBMITTING`. -/
  submitting : Bool
  timer : RtTimer
  workqueue : Option κ

/-- Where the thread of a queue is in `_workqueue_thread_entry`. -/
inductive WorkThread
  /-- It looks for a work next. -/
  | looks
  | suspended
  /-- It is in `work_func`. -/
  | works
  /-- It acknowledges completion next. -/
  | completes
  deriving DecidableEq

/-- What a call returns. -/
inductive WorkErr
  | eok
  | ebusy
  | error
  deriving DecidableEq

/-- The works, and each `struct rt_workqueue`. -/
structure Queues (κ ω : Type*) where
  work : ω → RtWork κ
  workList : κ → List ω
  delayedList : κ → List ω
  workCurrent : κ → Option ω
  workThread : κ → WorkThread
  /-- The works whose delayed submission has enabled interrupts and not started the timer yet. -/
  starting : List ω

namespace Queues

variable {κ ω : Type*} [DecidableEq κ] [DecidableEq ω]

/-- The fields of a work are changed. -/
def setWork (s : Queues κ ω) (w : ω) (f : RtWork κ → RtWork κ) : Queues κ ω :=
  { s with work := update s.work w (f (s.work w)) }

/-- `rt_list_remove` of the node of a work. -/
def rtListRemove (s : Queues κ ω) (w : ω) : Queues κ ω :=
  { s with
    workList := fun q => RtKernel.rtListRemove (s.workList q) w
    delayedList := fun q => RtKernel.rtListRemove (s.delayedList q) w }

/-- The last place of `work_list`. -/
def insertWork (s : Queues κ ω) (q : κ) (w : ω) : Queues κ ω :=
  { s with workList := update s.workList q (s.workList q ++ [w]) }

/-- The first place of `work_list`. -/
def insertUrgent (s : Queues κ ω) (q : κ) (w : ω) : Queues κ ω :=
  { s with workList := update s.workList q (w :: s.workList q) }

/-- The last place of `delayed_list`. -/
def insertDelayed (s : Queues κ ω) (q : κ) (w : ω) : Queues κ ω :=
  { s with delayedList := update s.delayedList q (s.delayedList q ++ [w]) }

/-- A thread that is suspended and does no work is resumed. -/
def resumeThread (s : Queues κ ω) (q : κ) : Queues κ ω :=
  if s.workCurrent q = none ∧ s.workThread q = .suspended then
    { s with workThread := update s.workThread q .looks }
  else s

/-- What `_workqueue_submit_work` does first. -/
def withdraw (s : Queues κ ω) (w : ω) : Queues κ ω :=
  (s.rtListRemove w).setWork w fun x => { x with pending := false }

/-- `_workqueue_submit_work` with a delay of zero. -/
def submitNow (s : Queues κ ω) (q : κ) (w : ω) : Queues κ ω × WorkErr :=
  let s := s.withdraw w
  let (s, err) :=
    if s.workCurrent q ≠ some w then
      ((s.insertWork q w).setWork w fun x => { x with pending := true, workqueue := some q }, .eok)
    else (s, .ebusy)
  (s.resumeThread q, err)

/-- `_workqueue_submit_work` with a delay, until interrupts are enabled. -/
def submitLater (s : Queues κ ω) (q : κ) (w : ω) (ticks : Nat) : Option (Queues κ ω) :=
  let s := s.withdraw w
  let timer :=
    if (s.work w).submitting then
      (rtTimerStop (s.work w).timer).bind fun timer => rtTimerControl timer ticks
    else rtTimerInit (s.work w).timer ticks
  timer.map fun timer =>
    let s := s.setWork w fun x => { x with timer := timer, submitting := true }
    let s := s.setWork w fun x => { x with workqueue := some q }
    s.insertDelayed q w

/-- `_workqueue_submit_work` with a delay, after interrupts are enabled. -/
def startTimer (s : Queues κ ω) (w : ω) : Option (Queues κ ω) :=
  (rtTimerStart (s.work w).timer).map fun timer => s.setWork w fun x => { x with timer := timer }

/-- `_workqueue_submit_work`. -/
def workqueueSubmitWork (s : Queues κ ω) (q : κ) (w : ω) (ticks : Nat) :
    Option (Queues κ ω × WorkErr) :=
  if ticks = 0 then some (s.submitNow q w)
  else if ticks < rtTickMax / 2 then
    ((s.submitLater q w ticks).bind fun s => s.startTimer w).map fun s => (s, .eok)
  else some (s.withdraw w, .error)

/-- `_workqueue_cancel_work`. -/
def workqueueCancelWork (s : Queues κ ω) (q : κ) (w : ω) : Option (Queues κ ω × WorkErr) :=
  let s := s.withdraw w
  let stopped :=
    if (s.work w).submitting then
      ((rtTimerStop (s.work w).timer).bind rtTimerDetach).map fun timer =>
        s.setWork w fun x => { x with timer := timer, submitting := false }
    else some s
  stopped.map fun s =>
    (s.setWork w fun x => { x with workqueue := none },
      if s.workCurrent q ≠ some w then .eok else .ebusy)

/-- `_delayed_work_timeout_handler`. -/
def delayedWorkTimeoutHandler (s : Queues κ ω) (w : ω) : Option (Queues κ ω) :=
  match (s.work w).workqueue with
  | none => none -- RT_ASSERT(queue != RT_NULL)
  | some queue =>
    (rtTimerDetach (s.work w).timer).map fun timer =>
      let s := s.setWork w fun x => { x with timer := timer, submitting := false }
      let s := s.rtListRemove w
      let s :=
        if s.workCurrent queue ≠ some w then
          (s.insertWork queue w).setWork w fun x => { x with pending := true }
        else s
      s.resumeThread queue

/-- `rt_workqueue_dowork`. -/
def rtWorkqueueDowork (s : Queues κ ω) (q : κ) (w : ω) : Option (Queues κ ω × WorkErr) :=
  s.workqueueSubmitWork q w 0

/-- `rt_workqueue_submit_work`. -/
def rtWorkqueueSubmitWork (s : Queues κ ω) (q : κ) (w : ω) (ticks : Nat) :
    Option (Queues κ ω × WorkErr) :=
  if ticks < rtTickMax / 2 then s.workqueueSubmitWork q w ticks else none

/-- `rt_workqueue_urgent_work`. -/
def rtWorkqueueUrgentWork (s : Queues κ ω) (q : κ) (w : ω) : Queues κ ω × WorkErr :=
  let s := s.rtListRemove w
  let s := s.insertUrgent q w
  (s.resumeThread q, .eok)

/-- `rt_workqueue_cancel_work`. -/
def rtWorkqueueCancelWork (s : Queues κ ω) (q : κ) (w : ω) : Option (Queues κ ω × WorkErr) :=
  s.workqueueCancelWork q w

/-- `_workqueue_thread_entry`, from one place where others may run to the next. -/
def workqueueThreadEntry (s : Queues κ ω) (q : κ) : Option (Queues κ ω) :=
  match s.workThread q with
  | .suspended => none
  | .looks =>
    match s.workList q with
    | [] => some { s with workThread := update s.workThread q .suspended }
    | w :: _ =>
      let s := s.rtListRemove w
      let s := { s with workCurrent := update s.workCurrent q (some w) }
      let s := s.setWork w fun x => { x with pending := false, workqueue := none }
      some { s with workThread := update s.workThread q .works }
  | .works =>
    some { s with
      workCurrent := update s.workCurrent q none
      workThread := update s.workThread q .completes }
  | .completes => some { s with workThread := update s.workThread q .looks }

/-- `rt_timer_check` finds that the timer of a work has timed out. -/
def timeout (s : Queues κ ω) (w : ω) : Option (Queues κ ω) :=
  if (s.work w).timer.activated then
    (s.setWork w fun x => { x with timer := { x.timer with activated := false } }).delayedWorkTimeoutHandler w
  else none

/-- What may happen. -/
inductive Act (κ ω : Type*)
  | dowork (q : κ) (w : ω)
  | submit (q : κ) (w : ω) (ticks : Nat)
  | urgent (q : κ) (w : ω)
  | cancel (q : κ) (w : ω)
  /-- A delayed submission is interrupted before it starts the timer. -/
  | submitInterrupted (q : κ) (w : ω) (ticks : Nat)
  /-- An interrupted submission goes on. -/
  | submitResumed (w : ω)
  | timeout (w : ω)
  | thread (q : κ)

/-- One step of a run. -/
def exec (s : Queues κ ω) : Act κ ω → Option (Queues κ ω)
  | .dowork q w => (s.rtWorkqueueDowork q w).map Prod.fst
  | .submit q w ticks => (s.rtWorkqueueSubmitWork q w ticks).map Prod.fst
  | .urgent q w => some (s.rtWorkqueueUrgentWork q w).1
  | .cancel q w => (s.rtWorkqueueCancelWork q w).map Prod.fst
  | .submitInterrupted q w ticks =>
    if 0 < ticks ∧ ticks < rtTickMax / 2 then
      (s.submitLater q w ticks).map fun s => { s with starting := w :: s.starting }
    else none
  | .submitResumed w =>
    if w ∈ s.starting then
      (s.startTimer w).map fun s => { s with starting := s.starting.erase w }
    else none
  | .timeout w => s.timeout w
  | .thread q => s.workqueueThreadEntry q

/-- A step that may be taken. -/
def Step (s : Queues κ ω) (a : Act κ ω) (s' : Queues κ ω) : Prop := exec s a = some s'

/-- `rt_workqueue_create` and `rt_work_init` have been called. -/
def Initial (s : Queues κ ω) : Prop :=
  (∀ w, ∃ initTick, s.work w =
    { pending := false, submitting := false, workqueue := none
      timer := { initTick := initTick, activated := false, attached := false } }) ∧
    (∀ q, s.workList q = [] ∧ s.delayedList q = [] ∧ s.workCurrent q = none ∧
      s.workThread q = .looks) ∧ s.starting = []

end Queues

end RtKernel.Workqueue

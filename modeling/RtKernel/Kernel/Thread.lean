import RtKernel.Core.ReadyTable
import RtKernel.Core.Word

/-!
# Threads and the scheduler

The state is that of one processor: the threads, the table of ready queues, the
lists that threads are suspended on, and the thread that runs. A thread has one
list node, so it is unlinked without naming the list it is in. The suspend lists
belong to objects of another part of the kernel and are named by `ω`.

Each function is the part of the source that runs with interrupts disabled.
There is no result where an assertion fails or a list head is taken for a thread.
-/

namespace RtKernel

/-- The state of a thread, `stat & RT_THREAD_STAT_MASK`. -/
inductive Stat
  | init
  | ready
  | suspend
  | running
  | close
  deriving DecidableEq

/-- The error codes. -/
inductive RtErr
  | eok
  | error
  | etimeout
  | efull
  | eempty
  | einval
  deriving DecidableEq

/-- `RT_THREAD_PRIORITY_MAX`. -/
def rtThreadPriorityMax : Nat := 32

/-- `struct rt_thread`. -/
structure RtThread where
  stat : Stat
  /-- `RT_THREAD_STAT_YIELD`. -/
  yield : Bool
  currentPriority : Nat
  numberMask : BitVec 32
  initTick : Nat
  remainingTick : Nat
  error : RtErr
  /-- `thread_timer` is activated. -/
  timer : Bool

/-- The threads and the scheduler. -/
structure Kernel (τ ω : Type*) where
  thread : τ → RtThread
  /-- `rt_thread_ready_priority_group` and `rt_thread_priority_table`. -/
  ready : ReadyTable τ
  /-- The suspend lists. -/
  wait : ω → List τ
  /-- `_rt_thread_defunct`. -/
  defunct : List τ
  /-- `rt_current_thread`. -/
  current : τ
  /-- `rt_scheduler_lock_nest`. -/
  schedulerLockNest : Nat

namespace Kernel

variable {τ ω : Type*} [DecidableEq τ]

/-- Change one thread. -/
def setThread (k : Kernel τ ω) (t : τ) (f : RtThread → RtThread) : Kernel τ ω :=
  { k with thread := Function.update k.thread t (f (k.thread t)) }

/-- `rt_list_remove(&(thread->tlist))`. -/
def tlistRemove (k : Kernel τ ω) (t : τ) : Kernel τ ω :=
  { k with
    ready := k.ready.unlink t
    wait := fun w => rtListRemove (k.wait w) t
    defunct := rtListRemove k.defunct t }

/-- `rt_schedule_insert_thread`. -/
def rtScheduleInsertThread (k : Kernel τ ω) (t : τ) : Kernel τ ω :=
  -- it's current thread, it should be RUNNING thread
  if t = k.current then k.setThread t fun x => { x with stat := .running }
  else
    let k := k.setThread t fun x => { x with stat := .ready }
    let thread := k.thread t
    { k with ready := k.ready.insert thread.currentPriority thread.numberMask t }

/-- `rt_schedule_remove_thread`. -/
def rtScheduleRemoveThread (k : Kernel τ ω) (t : τ) : Kernel τ ω :=
  let k := k.tlistRemove t
  let thread := k.thread t
  { k with ready := k.ready.clear thread.currentPriority thread.numberMask }

/-- The part of `rt_schedule` that switches to another thread. -/
def switchTo (k : Kernel τ ω) (toThread : τ) (needInsertFromThread : Bool) : Kernel τ ω :=
  let fromThread := k.current
  let k := { k with current := toThread }
  let k := if needInsertFromThread then k.rtScheduleInsertThread fromThread else k
  let k := k.rtScheduleRemoveThread toThread
  k.setThread toThread fun x => { x with stat := .running }

/-- `rt_schedule`. -/
def rtSchedule (k : Kernel τ ω) : Option (Kernel τ ω) :=
  if k.schedulerLockNest = 0 ∧ k.ready.group ≠ 0 then
    let highest := rtFfs k.ready.group - 1
    match k.ready.queue highest with
    | [] => none
    | head :: _ =>
      let cur := k.thread k.current
      let running : Bool := cur.stat = .running
      let stay : Bool := running ∧
        (cur.currentPriority < highest ∨ cur.currentPriority = highest ∧ cur.yield = false)
      let toThread := if stay then k.current else head
      let k := if running then k.setThread k.current fun x => { x with yield := false } else k
      if toThread ≠ k.current then some (k.switchTo toThread running)
      else
        let k := k.rtScheduleRemoveThread k.current
        some (k.setThread k.current fun x => { x with stat := .running })
  else some k

/-- The locked part of `rt_thread_suspend`, of the thread that runs. -/
def suspend (k : Kernel τ ω) : Kernel τ ω :=
  let k := k.rtScheduleRemoveThread k.current
  k.setThread k.current fun x => { x with stat := .suspend, timer := false }

/-- `rt_thread_suspend`. -/
def rtThreadSuspend (k : Kernel τ ω) : Kernel τ ω :=
  if (k.thread k.current).stat = .ready ∨ (k.thread k.current).stat = .running then k.suspend
  else k

/-- The locked part of `rt_thread_resume`. -/
def resume (k : Kernel τ ω) (t : τ) : Kernel τ ω :=
  let k := k.tlistRemove t
  let k := k.setThread t fun x => { x with timer := false }
  k.rtScheduleInsertThread t

/-- `rt_thread_resume`. -/
def rtThreadResume (k : Kernel τ ω) (t : τ) : Kernel τ ω :=
  if (k.thread t).stat = .suspend then k.resume t else k

/-- `rt_thread_startup` up to its call of `rt_thread_resume`. -/
def rtThreadStartup (k : Kernel τ ω) (t : τ) : Option (Kernel τ ω) :=
  if (k.thread t).stat = .init then
    some (k.setThread t fun x =>
      { x with numberMask := bit x.currentPriority, stat := .suspend, yield := false })
  else none

/-- `_thread_timeout` up to its call of `rt_schedule`, on the timer's expiry. -/
def threadTimeout (k : Kernel τ ω) (t : τ) : Option (Kernel τ ω) :=
  if (k.thread t).stat = .suspend then
    let k := k.setThread t fun x => { x with timer := false, error := .etimeout }
    let k := k.tlistRemove t
    some (k.rtScheduleInsertThread t)
  else none

/-- `rt_thread_control` with `RT_THREAD_CTRL_CHANGE_PRIORITY`. -/
def changePriority (k : Kernel τ ω) (t : τ) (priority : Nat) : Kernel τ ω :=
  let set (k : Kernel τ ω) : Kernel τ ω := k.setThread t fun x =>
    { x with currentPriority := priority, numberMask := bit priority }
  if (k.thread t).stat = .ready then
    let k := k.rtScheduleRemoveThread t
    let k := set k
    k.rtScheduleInsertThread t
  else set k

/-- `rt_thread_yield` up to its call of `rt_schedule`. -/
def rtThreadYield (k : Kernel τ ω) : Kernel τ ω :=
  k.setThread k.current fun x => { x with remainingTick := x.initTick, yield := true }

/-- `rt_thread_sleep` up to its call of `rt_schedule`. -/
def rtThreadSleep (k : Kernel τ ω) : Kernel τ ω :=
  let k := k.setThread k.current fun x => { x with error := .eok }
  let k := k.rtThreadSuspend
  k.setThread k.current fun x => { x with timer := true }

/-- Mark a thread closed and hand it to the idle thread. -/
def closeThread (k : Kernel τ ω) (t : τ) : Kernel τ ω :=
  let k := k.setThread t fun x => { x with timer := false, stat := .close, yield := false }
  { k with defunct := t :: k.defunct }

/-- `_thread_exit` up to its call of `rt_schedule`. -/
def threadExit (k : Kernel τ ω) : Kernel τ ω :=
  (k.rtScheduleRemoveThread k.current).closeThread k.current

/-- The time slice of `rt_tick_increase`; the second component tells whether `rt_schedule` is
called. -/
def tickSlice (k : Kernel τ ω) : Kernel τ ω × Bool :=
  let k := k.setThread k.current fun x => { x with remainingTick := sub32 x.remainingTick 1 }
  if (k.thread k.current).remainingTick = 0 then
    (k.setThread k.current fun x => { x with remainingTick := x.initTick, yield := true }, true)
  else (k, false)

/-- `rt_enter_critical`. -/
def rtEnterCritical (k : Kernel τ ω) : Kernel τ ω :=
  { k with schedulerLockNest := k.schedulerLockNest + 1 }

/-- `rt_exit_critical` up to its call of `rt_schedule`. -/
def rtExitCritical (k : Kernel τ ω) : Kernel τ ω :=
  { k with schedulerLockNest := k.schedulerLockNest - 1 }

end Kernel

end RtKernel

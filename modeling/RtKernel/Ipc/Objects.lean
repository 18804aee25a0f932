import RtKernel.Ipc.Event
import RtKernel.Ipc.Mailbox
import RtKernel.Ipc.MessageQueue
import RtKernel.Ipc.Mutex
import RtKernel.Ipc.Semaphore

/-!
# All objects together

Threads use objects of all five kinds, wait on any of their lists, and change each
other's priorities. Every part of a call is one of a few things to the scheduler
and the suspend lists, and that is said here once.
-/

namespace RtKernel

open Kernel Function

/-- The suspend lists of the objects; `ι` are the objects of a kind. -/
inductive WaitList (ι : Type*)
  | sem (x : ι)
  | mutex (x : ι)
  | mailbox (x : ι) (side : Side)
  | queue (x : ι) (side : Side)
  | event (x : ι)
  deriving DecidableEq

/-- The objects, and what the threads have filled in for events. -/
structure Objects (τ ι β : Type*) where
  sem : ι → Sem.RtSemaphore
  mutex : ι → Mutex.RtMutex τ
  mailbox : ι → Mailbox.RtMailbox β
  queue : ι → MessageQueue.RtMessagequeue β
  event : ι → Event.RtEvent
  info : τ → Event.EventInfo

namespace Objects

variable {τ ι β : Type*}

/-- The flag of the object that a list belongs to. -/
def flag (o : Objects τ ι β) : WaitList ι → IpcFlag
  | .sem x => (o.sem x).flag
  | .mutex _ => .prio
  | .mailbox x _ => (o.mailbox x).flag
  | .queue x _ => (o.queue x).flag
  | .event x => (o.event x).flag

section

variable (o : Objects τ ι β) (x : ι)

@[simp] theorem flag_sem : o.flag (.sem x) = (o.sem x).flag := rfl

@[simp] theorem flag_mailbox (side : Side) : o.flag (.mailbox x side) = (o.mailbox x).flag := rfl

@[simp] theorem flag_queue (side : Side) : o.flag (.queue x side) = (o.queue x).flag := rfl

@[simp] theorem flag_event : o.flag (.event x) = (o.event x).flag := rfl

end

/-- What begins a call of the current thread. -/
inductive Request (ι β : Type*)
  | semTake (x : ι) (timeout : Int)
  | mutexTake (x : ι) (timeout : Int)
  | mutexRelease (x : ι)
  | mbSend (x : ι) (value : β) (timeout : Int)
  | mbRecv (x : ι) (timeout : Int)
  | mq (x : ι) (r : MessageQueue.Request β)
  | eventRecv (x : ι) (set : BitVec 32) (option : BitVec 8) (timeout : Int)

/-- A call that is suspended, has been suspended, or has another part. -/
inductive Call (ι β : Type*)
  | sem (x : ι)
  | mutex (x : ι)
  | mailbox (x : ι) (c : Mailbox.Call β)
  | queue (x : ι) (c : MessageQueue.Call β)
  | event (x : ι)

/-- A call that never waits, of a thread or an interrupt. -/
inductive Post (ι β : Type*)
  | semRelease (x : ι)
  | semReset (x : ι) (value : Nat)
  | mbSend (x : ι) (value : β)
  | mbUrgent (x : ι) (value : β)
  | mbRecv (x : ι)
  | mbReset (x : ι)
  | mqReset (x : ι)
  | eventSend (x : ι) (set : BitVec 32)
  | eventReset (x : ι)

/-- The list that a call has been suspended on. -/
def waitsOn : Call ι β → Option (WaitList ι)
  | .sem x => some (.sem x)
  | .mutex x => some (.mutex x)
  | .mailbox x c => (Mailbox.waitsOn c).map (.mailbox x)
  | .queue x c => (MessageQueue.waitsOn c).map (.queue x)
  | .event x => some (.event x)

/-- What a part of a call leaves: what is to come of the call, and whether it calls `rt_schedule`. -/
structure Part (τ ι β : Type*) where
  kernel : Kernel τ (WaitList ι)
  objects : Objects τ ι β
  call : Option (Call ι β)
  needSchedule : Bool

/-- A part calls `rt_schedule` when it has resumed or suspended a thread. -/
def needSchedule : Ending → Bool
  | .returns _ => false
  | _ => true

def nextNeedSchedule : MessageQueue.Next β → Bool
  | .returns _ => false
  | .schedules => true
  | .goes c => (MessageQueue.waitsOn c).isSome

variable [DecidableEq ι]

def setSem (o : Objects τ ι β) (x : ι) (sem : Sem.RtSemaphore) : Objects τ ι β :=
  { o with sem := update o.sem x sem }

def setMutex (o : Objects τ ι β) (x : ι) (mutex : Mutex.RtMutex τ) : Objects τ ι β :=
  { o with mutex := update o.mutex x mutex }

def setMailbox (o : Objects τ ι β) (x : ι) (mb : Mailbox.RtMailbox β) : Objects τ ι β :=
  { o with mailbox := update o.mailbox x mb }

def setQueue (o : Objects τ ι β) (x : ι) (mq : MessageQueue.RtMessagequeue β) : Objects τ ι β :=
  { o with queue := update o.queue x mq }

def setEvent (o : Objects τ ι β) (x : ι) (event : Event.RtEvent) (info : τ → Event.EventInfo) :
    Objects τ ι β :=
  { o with event := update o.event x event, info := info }

/-- A part of a mailbox call. -/
def mailboxPart (o : Objects τ ι β) (x : ι) (c : Mailbox.Call β) (k : Kernel τ (WaitList ι))
    (mb : Mailbox.RtMailbox β) (ending : Ending) : Part τ ι β :=
  { kernel := k, objects := o.setMailbox x mb
    call := if ending = .waits then some (.mailbox x c) else none
    needSchedule := needSchedule ending }

/-- A part of a message queue call. -/
def queuePart (o : Objects τ ι β) (x : ι) (k : Kernel τ (WaitList ι))
    (mq : MessageQueue.RtMessagequeue β) (next : MessageQueue.Next β) : Part τ ι β :=
  { kernel := k, objects := o.setQueue x mq
    call := next.call.map (.queue x)
    needSchedule := nextNeedSchedule next }

variable [DecidableEq τ]

/-- The first part of a call. -/
def start (k : Kernel τ (WaitList ι)) (o : Objects τ ι β) : Request ι β → Option (Part τ ι β)
  | .semTake x timeout =>
      (Sem.rtSemTake k (o.sem x) (.sem x) timeout).map fun (k, sem, outcome) =>
        { kernel := k, objects := o.setSem x sem
          call := if outcome = .waits then some (.sem x) else none
          needSchedule := outcome = .waits }
  | .mutexTake x timeout =>
      (Mutex.rtMutexTake k (o.mutex x) (.mutex x) timeout).map fun (k, mutex, outcome) =>
        { kernel := k, objects := o.setMutex x mutex
          call := if outcome = .waits then some (.mutex x) else none
          needSchedule := outcome = .waits }
  | .mutexRelease x =>
      let (k', mutex, _) := Mutex.rtMutexRelease k (o.mutex x) (.mutex x)
      -- `need_schedule` is set where a waiter is resumed
      some
        { kernel := k', objects := o.setMutex x mutex, call := none
          needSchedule := (o.mutex x).owner = some k.current ∧ ((o.mutex x).hold + 255) % 256 = 0 ∧
            k.wait (.mutex x) ≠ [] }
  | .mbSend x value timeout =>
      (Mailbox.rtMbSendWait k (o.mailbox x) (.mailbox x) value timeout).map fun (k, mb, ending) =>
        o.mailboxPart x (.sendWait value timeout) k mb ending
  | .mbRecv x timeout =>
      (Mailbox.rtMbRecv k (o.mailbox x) (.mailbox x) timeout).map fun (k, mb, ending, _) =>
        o.mailboxPart x (.recv timeout) k mb ending
  | .mq x r =>
      (MessageQueue.start k (o.queue x) (.queue x) r).map fun (k, mq, next) =>
        o.queuePart x k mq next
  | .eventRecv x set option timeout =>
      (Event.rtEventRecv k (o.event x) o.info (.event x) set option timeout).map
        fun (k, event, info, ending) =>
          { kernel := k, objects := o.setEvent x event info
            call := if ending = .waits then some (.event x) else none
            needSchedule := needSchedule ending }

/-- The next part of a call, with `left` ticks left of a finite timeout. -/
def proceed (k : Kernel τ (WaitList ι)) (o : Objects τ ι β) (left : Nat) :
    Call ι β → Option (Part τ ι β)
  | .mailbox x (.sendWait value timeout) =>
      let timeout := remaining timeout left
      let (k, mb, ending) := Mailbox.sendLoop k (o.mailbox x) (.mailbox x) value timeout
      some (o.mailboxPart x (.sendWait value timeout) k mb ending)
  | .mailbox x (.recv timeout) =>
      let timeout := remaining timeout left
      let (k, mb, ending, _) := Mailbox.recvLoop k (o.mailbox x) (.mailbox x) timeout
      some (o.mailboxPart x (.recv timeout) k mb ending)
  | .queue x c =>
      (MessageQueue.proceed k (o.queue x) (.queue x) left c).map fun (k, mq, next) =>
        o.queuePart x k mq next
  | .sem _ | .mutex _ | .event _ =>
      some { kernel := k, objects := o, call := none, needSchedule := false }

/-- `rt_sem_control` with `RT_IPC_CMD_RESET`, up to its call of `rt_schedule`. -/
def rtSemReset (k : Kernel τ (WaitList ι)) (sem : Sem.RtSemaphore) (x : WaitList ι) (value : Nat) :
    Kernel τ (WaitList ι) × Sem.RtSemaphore :=
  (k.ipcListResumeAll x, { sem with value := value % 65536 })

/-- A call that never waits, up to its call of `rt_schedule`. -/
def post (k : Kernel τ (WaitList ι)) (o : Objects τ ι β) :
    Post ι β → Option (Kernel τ (WaitList ι) × Objects τ ι β × Bool)
  | .semRelease x =>
      let (k', sem, _) := Sem.rtSemRelease k (o.sem x) (.sem x)
      -- `need_schedule` is set where a waiter is resumed
      some (k', o.setSem x sem, k.wait (.sem x) ≠ [])
  | .semReset x value =>
      let (k, sem) := rtSemReset k (o.sem x) (.sem x) value
      some (k, o.setSem x sem, true)
  | .mbSend x value =>
      (Mailbox.rtMbSendWait k (o.mailbox x) (.mailbox x) value 0).map fun (k, mb, ending) =>
        (k, o.setMailbox x mb, needSchedule ending)
  | .mbUrgent x value =>
      let (k, mb, ending) := Mailbox.rtMbUrgent k (o.mailbox x) (.mailbox x) value
      some (k, o.setMailbox x mb, needSchedule ending)
  | .mbRecv x =>
      (Mailbox.rtMbRecv k (o.mailbox x) (.mailbox x) 0).map fun (k, mb, ending, _) =>
        (k, o.setMailbox x mb, needSchedule ending)
  | .mbReset x =>
      let (k, mb) := Mailbox.rtMbReset k (o.mailbox x) (.mailbox x)
      some (k, o.setMailbox x mb, true)
  | .mqReset x =>
      (MessageQueue.rtMqReset k (o.queue x) (.queue x)).map fun (k, mq) =>
        (k, o.setQueue x mq, true)
  | .eventSend x set =>
      let (k, event, info, ending) := Event.rtEventSend k (o.event x) o.info (.event x) set
      some (k, o.setEvent x event info, needSchedule ending)
  | .eventReset x =>
      let (k, event) := Event.rtEventReset k (o.event x) (.event x)
      some (k, o.setEvent x event o.info, true)

/-- What the current thread, an interrupt or the timer does. -/
inductive Act (τ ι β : Type*)
  /-- The current thread begins a call. -/
  | call (r : Request ι β)
  /-- The current thread goes on with its call. -/
  | go (left : Nat)
  | post (p : Post ι β)
  | changePriority (t : τ) (priority : Nat)
  /-- `rt_thread_resume`, which does not call `rt_schedule`. -/
  | resume (t : τ)
  /-- An object is detached or deleted, which does not call `rt_schedule` either. -/
  | detach (x : WaitList ι)
  | sleep
  | yield
  | enterCritical
  | exitCritical
  | timeout (t : τ)
  | tick
  | schedule

/-- The threads and the objects. -/
structure Sys (τ ι β : Type*) extends Callers τ (WaitList ι) (Call ι β) where
  objects : Objects τ ι β
  /-- What runs calls `rt_schedule` before it returns. -/
  needSchedule : Bool

namespace Sys

/-- The current thread runs, is in no call, and has returned from the last one. -/
def Returned (s : Sys τ ι β) : Prop := s.Free ∧ s.needSchedule = false

instance (s : Sys τ ι β) : Decidable s.Returned := inferInstanceAs (Decidable (_ ∧ _))

/-- The current thread has done a part of its call. -/
def finish (s : Sys τ ι β) (p : Part τ ι β) : Sys τ ι β :=
  let callers := Callers.enter { s.toCallers with kernel := p.kernel } p.call
  { toCallers := callers, objects := p.objects, needSchedule := p.needSchedule }

/-- A step; there is none where it cannot happen or an assertion fails. -/
def exec (s : Sys τ ι β) : Act τ ι β → Option (Sys τ ι β)
  | .call r => if s.Returned then (start s.kernel s.objects r).map s.finish else none
  | .go left =>
      -- the idle thread never waits, so `rt_schedule` comes back only to a thread that runs
      if s.Running ∧ s.needSchedule = false then
        (s.call s.kernel.current).bind fun c =>
          if waitsOn c ≠ none ∧ (s.kernel.thread s.kernel.current).error ≠ .eok then
            some { s with toCallers := s.toCallers.enter none }
          else (proceed s.kernel s.objects left c).map s.finish
      else none
  | .post p =>
      (Objects.post s.kernel s.objects p).map fun (k, objects, needSchedule) =>
        { s with kernel := k, objects := objects, needSchedule := s.needSchedule || needSchedule }
  | .changePriority t priority =>
      if priority < rtThreadPriorityMax then
        some { s with kernel := s.kernel.changePriority t priority }
      else none
  | .resume t => some { s with kernel := s.kernel.rtThreadResume t }
  | .detach x => some { s with kernel := s.kernel.ipcListResumeAll x }
  | .sleep =>
      if s.Returned then some { s with kernel := s.kernel.rtThreadSleep, needSchedule := true }
      else none
  | .yield => some { s with kernel := s.kernel.rtThreadYield, needSchedule := true }
  | .enterCritical => some { s with kernel := s.kernel.rtEnterCritical }
  | .exitCritical =>
      let k := s.kernel.rtExitCritical
      some { s with kernel := k, needSchedule := s.needSchedule || k.schedulerLockNest = 0 }
  | .timeout t =>
      (s.toCallers.timeout t).map fun c => { s with toCallers := c, needSchedule := true }
  | .tick =>
      let (k, needSchedule) := s.kernel.tickSlice
      some { s with kernel := k, needSchedule := s.needSchedule || needSchedule }
  | .schedule => s.kernel.rtSchedule.map fun k => { s with kernel := k, needSchedule := false }

def Step (s : Sys τ ι β) (a : Act τ ι β) (s' : Sys τ ι β) : Prop := s.exec a = some s'

/-- No call has been made, and no mutex has been taken. -/
structure Initial (s : Sys τ ι β) : Prop where
  inv : ∃ started, s.kernel.Inv started
  wait : ∀ x, s.kernel.wait x = []
  call : ∀ t, s.call t = none
  mutex : ∀ x, s.objects.mutex x = Mutex.rtMutexInit
  /-- The first `rt_schedule` is still to come. -/
  needSchedule : s.needSchedule = true

end Sys

end Objects

end RtKernel

import RtKernel.Core.Chain
import RtKernel.Core.Deque
import RtKernel.Ipc.Wakeup

/-!
# Message queues

The messages of a pool are on a list of free ones, in the queue, or with a call
that fills or reads one with interrupts enabled. So a send or a receive has two
locked parts, and what other calls do in between is arbitrary.
-/

namespace RtKernel.MessageQueue

open Kernel Function

/-- `RT_MQ_ENTRY_MAX`, the largest `rt_uint16_t`. -/
def rtMqEntryMax : Nat := 65535

/-- `struct rt_messagequeue` and the messages of its pool, which are named by their number; the
suspend lists are kept with the threads. -/
structure RtMessagequeue (β : Type*) where
  msgSize : Nat
  maxMsgs : Nat
  entry : Nat
  msgQueueHead : Option Nat
  msgQueueTail : Option Nat
  msgQueueFree : Option Nat
  flag : IpcFlag
  /-- `next` of a `struct rt_mq_message`. -/
  next : Nat → Option Nat
  /-- The bytes behind a `struct rt_mq_message`. -/
  bytes : Nat → List β

/-- A call that is between two locked parts. -/
inductive Call (β : Type*)
  /-- `rt_mq_send_wait`, suspended, or about to go on with its loop. -/
  | sendWait (buffer : List β) (timeout : Int)
  /-- `rt_mq_send_wait` or `rt_mq_urgent`, with a message to fill. -/
  | sendCopy (msg : Nat) (buffer : List β) (urgent : Bool)
  /-- The same, with a message to link. -/
  | sendLink (msg : Nat) (buffer : List β) (urgent : Bool)
  /-- `rt_mq_recv`, suspended, or about to go on with its loop. -/
  | recvWait (size : Nat) (timeout : Int)
  /-- `rt_mq_recv`, with a message to read. -/
  | recvCopy (msg : Nat) (size : Nat)
  /-- `rt_mq_recv`, with a message to free. -/
  | recvFree (msg : Nat) (size : Nat) (buffer : List β)

/-- Where a part of a call ends: it returns, it returns `RT_EOK` after `rt_schedule`, or another
part is to come. -/
inductive Next (β : Type*)
  | returns (err : RtErr)
  | schedules
  | goes (c : Call β)

/-- Return as `resumeFirst` says. -/
def Next.ofEnding {β : Type*} : Ending → Next β
  | .returns err => .returns err
  | _ => .schedules

/-- The call that is still to go on. -/
def Next.call {β : Type*} : Next β → Option (Call β)
  | .goes c => some c
  | _ => none

/-- The message in the hands of a call. -/
def Call.msg {β : Type*} : Call β → Option Nat
  | .sendCopy msg _ _ | .sendLink msg _ _ | .recvCopy msg _ | .recvFree msg _ _ => some msg
  | .sendWait _ _ | .recvWait _ _ => none

/-- The list that a call has been suspended on. -/
def waitsOn {β : Type*} : Call β → Option Side
  | .sendWait _ _ => some .sender
  | .recvWait _ _ => some .receiver
  | _ => none

variable {τ ω ι β : Type*} [DecidableEq τ] [DecidableEq ω]

/-- Put a message to the free list. -/
def putFree (mq : RtMessagequeue β) (msg : Nat) : RtMessagequeue β :=
  { mq with next := update mq.next msg mq.msgQueueFree, msgQueueFree := some msg }

/-- `rt_mq_init`, for a pool with the bytes `msgpool`. -/
def rtMqInit (msgpool : Nat → List β) (next : Nat → Option Nat) (msgSize poolSize : Nat)
    (flag : IpcFlag) : RtMessagequeue β :=
  let msgSize := rtAlign msgSize % 65536
  let maxMsgs := poolSize / (msgSize + 4) % 65536
  (List.range maxMsgs).foldl putFree
    { msgSize := msgSize, maxMsgs := maxMsgs, entry := 0, msgQueueHead := none
      msgQueueTail := none, msgQueueFree := none, flag := flag, next := next, bytes := msgpool }

/-- `rt_mq_send_wait` from the head of its loop to where it has a message or is suspended. -/
def sendLoop (k : Kernel τ ω) (mq : RtMessagequeue β) (x : Side → ω) (buffer : List β)
    (timeout : Int) : Kernel τ ω × RtMessagequeue β × Next β :=
  match mq.msgQueueFree with
  | none =>
      if timeout = 0 then (k.setError .eok, mq, .returns .efull)
      else (k.block (x .sender) mq.flag (0 < timeout), mq, .goes (.sendWait buffer timeout))
  | some msg =>
      (k, { mq with msgQueueFree := mq.next msg }, .goes (.sendCopy msg buffer false))

/-- `rt_mq_send_wait` to where it has a message or is suspended. -/
def rtMqSendWait (k : Kernel τ ω) (mq : RtMessagequeue β) (x : Side → ω) (buffer : List β)
    (timeout : Int) : Option (Kernel τ ω × RtMessagequeue β × Next β) :=
  if buffer = [] then none -- RT_ASSERT(size != 0)
  else if timeout ≠ 0 ∧ k.schedulerLockNest ≠ 0 then none -- RT_DEBUG_SCHEDULER_AVAILABLE
  else if mq.msgSize < buffer.length then some (k, mq, .returns .error)
  else if mq.msgQueueFree = none ∧ timeout = 0 then some (k, mq, .returns .efull)
  else some (sendLoop k mq x buffer timeout)

/-- `rt_mq_urgent` to where it has a message. -/
def rtMqUrgent (mq : RtMessagequeue β) (buffer : List β) : Option (RtMessagequeue β × Next β) :=
  if buffer = [] then none -- RT_ASSERT(size != 0)
  else if mq.msgSize < buffer.length then some (mq, .returns .error)
  else match mq.msgQueueFree with
    | none => some (mq, .returns .efull)
    | some msg =>
        some ({ mq with msgQueueFree := mq.next msg }, .goes (.sendCopy msg buffer true))

/-- `rt_memcpy` of a whole buffer. -/
def rtMemcpy (dst src : List β) : List β := src ++ dst.drop src.length

/-- The unlocked part of `rt_mq_send_wait` or `rt_mq_urgent`. -/
def sendCopy (mq : RtMessagequeue β) (msg : Nat) (buffer : List β) (urgent : Bool) :
    RtMessagequeue β :=
  { mq with
    next := if urgent then mq.next else update mq.next msg none
    bytes := update mq.bytes msg (rtMemcpy (mq.bytes msg) buffer) }

/-- Link a message behind the last one. -/
def linkBack (mq : RtMessagequeue β) (msg : Nat) : RtMessagequeue β :=
  { mq with
    next := match mq.msgQueueTail with
      | some tail => update mq.next tail (some msg)
      | none => mq.next
    msgQueueTail := some msg
    msgQueueHead := if mq.msgQueueHead = none then some msg else mq.msgQueueHead }

/-- Link a message to the beginning. -/
def linkFront (mq : RtMessagequeue β) (msg : Nat) : RtMessagequeue β :=
  { mq with
    next := update mq.next msg mq.msgQueueHead
    msgQueueHead := some msg
    msgQueueTail := if mq.msgQueueTail = none then some msg else mq.msgQueueTail }

/-- The last part of `rt_mq_send_wait` or `rt_mq_urgent`. -/
def sendLink (k : Kernel τ ω) (mq : RtMessagequeue β) (x : Side → ω) (msg : Nat) (urgent : Bool) :
    Kernel τ ω × RtMessagequeue β × Next β :=
  let mq := if urgent then linkFront mq msg else linkBack mq msg
  if mq.entry < rtMqEntryMax then
    let (k, ending) := k.resumeFirst (x .receiver)
    (k, { mq with entry := mq.entry + 1 }, .ofEnding ending)
  else (k, mq, .returns .efull)

/-- Move the head of the queue, of which `msg` is the first message. -/
def unlink (mq : RtMessagequeue β) (msg : Nat) : RtMessagequeue β :=
  { mq with
    msgQueueHead := mq.next msg
    msgQueueTail := if mq.msgQueueTail = some msg then none else mq.msgQueueTail }

/-- `rt_mq_recv` from the head of its loop to where it has a message or is suspended; there is no
result where the null pointer is followed. -/
def recvLoop (k : Kernel τ ω) (mq : RtMessagequeue β) (x : Side → ω) (size : Nat) (timeout : Int) :
    Option (Kernel τ ω × RtMessagequeue β × Next β) :=
  if mq.entry = 0 then
    if timeout = 0 then
      some (setError (k.setError .eok) .etimeout, mq, .returns .etimeout)
    else
      some (k.block (x .receiver) mq.flag (0 < timeout), mq, .goes (.recvWait size timeout))
  else mq.msgQueueHead.map fun msg =>
    (k, { unlink mq msg with entry := mq.entry - 1 }, .goes (.recvCopy msg size))

/-- `rt_mq_recv` to where it has a message or is suspended. -/
def rtMqRecv (k : Kernel τ ω) (mq : RtMessagequeue β) (x : Side → ω) (size : Nat) (timeout : Int) :
    Option (Kernel τ ω × RtMessagequeue β × Next β) :=
  if size = 0 then none -- RT_ASSERT(size != 0)
  else if timeout ≠ 0 ∧ k.schedulerLockNest ≠ 0 then none -- RT_DEBUG_SCHEDULER_AVAILABLE
  else if mq.entry = 0 ∧ timeout = 0 then some (k, mq, .returns .etimeout)
  else recvLoop k mq x size timeout

/-- The bytes that `rt_mq_recv` copies with interrupts enabled. -/
def recvCopy (mq : RtMessagequeue β) (msg : Nat) (size : Nat) : List β :=
  (mq.bytes msg).take (if mq.msgSize < size then mq.msgSize else size)

/-- The last part of `rt_mq_recv`. -/
def recvFree (k : Kernel τ ω) (mq : RtMessagequeue β) (x : Side → ω) (msg : Nat) :
    Kernel τ ω × RtMessagequeue β × Next β :=
  let mq := putFree mq msg
  let (k, ending) := k.resumeFirst (x .sender)
  (k, mq, .ofEnding ending)

/-- The loop of `rt_mq_control`; there is no result where it does not end in the given turns. -/
def freeAll (mq : RtMessagequeue β) : Nat → Option (RtMessagequeue β)
  | 0 => if mq.msgQueueHead = none then some mq else none
  | turns + 1 =>
      match mq.msgQueueHead with
      | none => some mq
      | some msg => freeAll (putFree (unlink mq msg) msg) turns

/-- `rt_mq_control` with `RT_IPC_CMD_RESET`, up to its call of `rt_schedule`. -/
def rtMqReset (k : Kernel τ ω) (mq : RtMessagequeue β) (x : Side → ω) :
    Option (Kernel τ ω × RtMessagequeue β) :=
  let k := k.ipcListResumeAll (x .receiver)
  let k := k.ipcListResumeAll (x .sender)
  (freeAll mq mq.maxMsgs).map fun mq => (k, { mq with entry := 0 })

/-- A call that begins. -/
inductive Request (β : Type*)
  | sendWait (buffer : List β) (timeout : Int)
  | urgent (buffer : List β)
  | recv (size : Nat) (timeout : Int)

/-- How long a call may wait. -/
def Request.timeout : Request β → Int
  | .sendWait _ timeout | .recv _ timeout => timeout
  | .urgent _ => 0

/-- The first part of a call. -/
def start (k : Kernel τ ω) (mq : RtMessagequeue β) (x : Side → ω) :
    Request β → Option (Kernel τ ω × RtMessagequeue β × Next β)
  | .sendWait buffer timeout => rtMqSendWait k mq x buffer timeout
  | .urgent buffer => (rtMqUrgent mq buffer).map fun (mq, next) => (k, mq, next)
  | .recv size timeout => rtMqRecv k mq x size timeout

/-- The next part of a call, with `left` ticks left of a finite timeout. -/
def proceed (k : Kernel τ ω) (mq : RtMessagequeue β) (x : Side → ω) (left : Nat) :
    Call β → Option (Kernel τ ω × RtMessagequeue β × Next β)
  | .sendWait buffer timeout => some (sendLoop k mq x buffer (remaining timeout left))
  | .sendCopy msg buffer urgent =>
      some (k, sendCopy mq msg buffer urgent, .goes (.sendLink msg buffer urgent))
  | .sendLink msg _ urgent => some (sendLink k mq x msg urgent)
  | .recvWait size timeout => recvLoop k mq x size (remaining timeout left)
  | .recvCopy msg size => some (k, mq, .goes (.recvFree msg size (recvCopy mq msg size)))
  | .recvFree msg _ _ => some (recvFree k mq x msg)

/-- What a receive has returned of the message that was taken as number `ticket`. -/
structure Receipt (β : Type*) where
  ticket : Nat
  size : Nat
  buffer : List β

/-- What is recorded of a run beside the state of the code; `γ` are the threads and the
interrupts. -/
structure Log (γ β : Type*) where
  history : List (QueueEvent (List β))
  /-- How many messages have been taken from the queue. -/
  takes : Nat
  /-- How many had been taken before the one that a call reads. -/
  ticket : γ → Nat
  received : List (Receipt β)

namespace Log

variable {γ : Type*} [DecidableEq γ]

def link (log : Log γ β) (buffer : List β) (urgent : Bool) : Log γ β :=
  { log with history := log.history ++ [if urgent then .front buffer else .back buffer] }

def take (log : Log γ β) (g : γ) : Log γ β :=
  { log with
    history := log.history ++ [.take], takes := log.takes + 1
    ticket := update log.ticket g log.takes }

def receive (log : Log γ β) (g : γ) (size : Nat) (buffer : List β) : Log γ β :=
  { log with
    received := log.received ++ [{ ticket := log.ticket g, size := size, buffer := buffer }] }

def reset (log : Log γ β) : Log γ β := { log with history := log.history ++ [.reset] }

/-- What is recorded when `g` does the next part of the call `c`. -/
def note (log : Log γ β) (g : γ) (c : Option (Call β)) (next : Next β) : Log γ β :=
  match c, next.call with
  | some (.sendLink _ buffer urgent), _ => log.link buffer urgent
  | some (.recvFree _ size buffer), _ => log.receive g size buffer
  | _, some (.recvCopy _ _) => log.take g
  | _, _ => log

end Log

/-- What the current thread, an interrupt or the timer does. -/
inductive Act (τ ι β : Type*)
  /-- The current thread begins a call. -/
  | call (r : Request β)
  /-- The current thread goes on with its call. -/
  | go (left : Nat)
  /-- An interrupt begins a call. -/
  | isrCall (i : ι) (r : Request β)
  /-- An interrupt goes on with its call. -/
  | isrGo (i : ι)
  | reset
  | timeout (t : τ)
  /-- The current thread waits for something else. -/
  | sleep
  | resume (t : τ)
  | background (b : Background τ)

/-- The threads, the interrupts and a message queue. -/
structure Sys (τ ι β : Type*) extends Callers τ Side (Call β) where
  mq : RtMessagequeue β
  /-- The call each interrupt is in. -/
  isr : ι → Option (Call β)
  log : Log (τ ⊕ ι) β

namespace Sys

variable [DecidableEq ι]

/-- The current thread has done a part of its call. -/
def finish (s : Sys τ ι β) (k : Kernel τ Side) (mq : RtMessagequeue β) (next : Next β) :
    Sys τ ι β :=
  let g := s.kernel.current
  let callers := Callers.enter { s.toCallers with kernel := k } next.call
  { s with toCallers := callers, mq := mq, log := s.log.note (.inl g) (s.call g) next }

/-- An interrupt has done a part of its call. -/
def isrFinish (s : Sys τ ι β) (i : ι) (k : Kernel τ Side) (mq : RtMessagequeue β) (next : Next β) :
    Sys τ ι β :=
  { s with
    kernel := k, mq := mq, isr := update s.isr i next.call
    log := s.log.note (.inr i) (s.isr i) next }

/-- A step; there is none where it cannot happen, an assertion fails or a pointer is null. -/
def exec (s : Sys τ ι β) : Act τ ι β → Option (Sys τ ι β)
  | .call r =>
      if s.Free then
        (start s.kernel s.mq id r).map fun (k, mq, next) => s.finish k mq next
      else none
  | .go left =>
      -- the idle thread never waits, so `rt_schedule` comes back only to a thread that runs
      if s.Running then
        (s.call s.kernel.current).bind fun c =>
          if waitsOn c ≠ none ∧ (s.kernel.thread s.kernel.current).error ≠ .eok then
            some { s with toCallers := s.toCallers.enter none }
          else (proceed s.kernel s.mq id left c).map fun (k, mq, next) => s.finish k mq next
      else none
  | .isrCall i r =>
      if (s.isr i).isNone ∧ r.timeout = 0 then
        (start s.kernel s.mq id r).map fun (k, mq, next) => s.isrFinish i k mq next
      else none
  | .isrGo i =>
      (s.isr i).bind fun c =>
        (proceed s.kernel s.mq id 0 c).map fun (k, mq, next) => s.isrFinish i k mq next
  | .reset =>
      (rtMqReset s.kernel s.mq id).map fun (k, mq) =>
        { s with kernel := k, mq := mq, log := s.log.reset }
  | .timeout t => (s.toCallers.timeout t).map fun c => { s with toCallers := c }
  | .sleep => if s.Free then some { s with kernel := s.kernel.rtThreadSleep } else none
  | .resume t => some { s with kernel := s.kernel.rtThreadResume t }
  | .background b => (s.toCallers.background b).map fun c => { s with toCallers := c }

def Step (s : Sys τ ι β) (a : Act τ ι β) (s' : Sys τ ι β) : Prop := s.exec a = some s'

omit [DecidableEq τ] [DecidableEq ι] in
/-- The message queue has been initialised, and no call has been made. -/
structure Initial (s : Sys τ ι β) : Prop where
  inv : ∃ started, s.kernel.Inv started
  wait : ∀ x, s.kernel.wait x = []
  call : ∀ t, s.call t = none
  isr : ∀ i, s.isr i = none
  mq : ∃ msgpool next msgSize poolSize flag, s.mq = rtMqInit msgpool next msgSize poolSize flag
  history : s.log.history = []
  takes : s.log.takes = 0
  received : s.log.received = []

end Sys

end RtKernel.MessageQueue

import RtKernel.Drivers.RingBuffer

/-!
# Pipes

The bytes of a pipe are in a ring buffer, which lives while somebody has the pipe open.
A call that finds nothing to read, or no room for all it writes, waits in a queue. A
wake-up of a queue resumes the first thread that waits in it, and is remembered in a
flag that any thread of the queue clears.

The pipe is a named one: an unnamed pipe is deleted when nobody has it open. `τ` are
the threads. There is no result where an assertion fails or a pointer is null.
-/

namespace RtKernel.Pipe

open RingBuffer Function

/-- `rt_wqueue_t`. -/
structure RtWqueue (τ : Type*) where
  /-- `RT_WQ_FLAG_WAKEUP`. -/
  flag : Bool
  waitingList : List τ

/-- `rt_wqueue_wakeup`, with the thread that is resumed. -/
def rtWqueueWakeup {τ : Type*} (queue : RtWqueue τ) : RtWqueue τ × Option τ :=
  match queue.waitingList with
  | [] => ({ queue with flag := true }, none)
  | entry :: rest => ({ flag := true, waitingList := rest }, some entry)

/-- `rt_wqueue_wait`, until the thread is suspended; it is not where the queue has been woken up. -/
def rtWqueueWait {τ : Type*} (queue : RtWqueue τ) (tid : τ) : RtWqueue τ × Bool :=
  if queue.flag then ({ queue with flag := false }, false)
  else ({ queue with waitingList := queue.waitingList ++ [tid] }, true)

/-- What a thread does with a pipe, and for what it waits. -/
inductive Side
  | reader
  | writer
  deriving DecidableEq

/-- Who is woken up. -/
def Side.other : Side → Side
  | .reader => .writer
  | .writer => .reader

/-- `fd->flags & O_ACCMODE`. -/
inductive Access
  | rdonly
  | wronly
  | rdwr
  | other
  deriving DecidableEq

/-- By how much an open file changes `readers` or `writers`. -/
def Access.counts : Access → Side → Nat
  | .rdonly, .reader | .wronly, .writer | .rdwr, _ => 1
  | .rdonly, .writer | .wronly, .reader | .other, _ => 0

/-- A call of `pipe_fops_read` or `pipe_fops_write`. -/
inductive Call
  | read (count : Nat) (nonblock : Bool)
  /-- The bytes at `pbuf`, and how many have been written. -/
  | write (pbuf : List UInt8) (ret : Nat) (nonblock : Bool)
  deriving DecidableEq

def Call.side : Call → Side
  | .read _ _ => .reader
  | .write _ _ _ => .writer

/-- What a call returns. -/
inductive Result
  | bytes (len : Nat)
  | eagain
  | epipe
  deriving DecidableEq

/-- Where a thread is. -/
inductive Phase
  | idle
  /-- It takes the lock next. -/
  | enters (c : Call)
  /-- It has waited, and takes the lock next. -/
  | rechecks (c : Call)
  /-- It has had the lock, wakes up the other side next, and then returns or waits. -/
  | wakes (c : Call) (result : Option Result)
  /-- It is in `rt_wqueue_wait` next. -/
  | waits (c : Call)
  | suspended (c : Call)
  /-- It has been resumed and clears the flag next. -/
  | woken (c : Call)
  /-- It wakes up a reader next if there is no writer, in `pipe_fops_close`. -/
  | closes
  /-- It wakes up a writer next if there is no reader. -/
  | closesWriters
  deriving DecidableEq

/-- What happens to a call: it returns when so many writers have the pipe open and so many accepted
bytes have not been returned, or it goes to wait when so many bytes could be transferred. -/
inductive Event
  | returns (side : Side) (result : Result) (writers left : Nat)
  | blocks (available : Nat)
  deriving DecidableEq

/-- `struct rt_pipe_device`, with the threads. -/
structure RtPipe (τ : Type*) where
  fifo : Option RtRingbuffer
  bufsz : Nat
  /-- `readers` and `writers`. -/
  openers : Side → Nat
  refCount : Nat
  /-- `reader_queue` and `writer_queue`. -/
  queue : Side → RtWqueue τ
  /-- Who holds `lock`. -/
  lock : Option τ
  phase : τ → Phase
  /-- How many files are open. -/
  opened : Access → Nat
  /-- What has been written, and what has been read, since the pipe was open for nobody. -/
  accepted : List UInt8
  returned : List UInt8
  history : List Event

/-- `rt_ringbuffer_create`, where the pool is what `rt_malloc` returns. -/
def rtRingbufferCreate (size : Nat) (pool : Option (Nat → UInt8)) : Option (Option RtRingbuffer) :=
  if size = 0 then none -- RT_ASSERT(size > 0)
  else
    let size := rtAlignDown size
    match pool with
    | none => some none
    | some pool =>
      if size = 0 then some none -- nothing is allocated
      else if size < 2 ^ 15 then (rtRingbufferInit pool size).map some
      else none -- the size is negative as rt_int16_t

namespace RtPipe

variable {τ : Type*} [DecidableEq τ]

/-- The bytes in the buffer. -/
def dataLen (s : RtPipe τ) : Nat := s.fifo.elim 0 rtRingbufferDataLen

/-- The bytes that there is room for. -/
def spaceLen (s : RtPipe τ) : Nat := s.fifo.elim 0 rtRingbufferSpaceLen

def setPhase (s : RtPipe τ) (t : τ) (phase : Phase) : RtPipe τ :=
  { s with phase := update s.phase t phase }

def setQueue (s : RtPipe τ) (side : Side) (queue : RtWqueue τ) : RtPipe τ :=
  { s with queue := update s.queue side queue }

def record (s : RtPipe τ) (e : Event) : RtPipe τ := { s with history := s.history ++ [e] }

/-- A call returns. -/
def finish (s : RtPipe τ) (t : τ) (side : Side) (result : Result) : RtPipe τ :=
  (s.record (.returns side result (s.openers .writer) (s.accepted.length - s.returned.length))).setPhase
    t .idle

/-- A thread is resumed. -/
def resume : Phase → Phase
  | .suspended c => .woken c
  | phase => phase

/-- `rt_wqueue_wakeup` of the queue of a side. -/
def wakeup (s : RtPipe τ) (side : Side) : RtPipe τ :=
  match rtWqueueWakeup (s.queue side) with
  | (queue, none) => s.setQueue side queue
  | (queue, some entry) => (s.setQueue side queue).setPhase entry (resume (s.phase entry))

/-- `pipe_fops_open`. -/
def pipeFopsOpen (s : RtPipe τ) (access : Access) (pool : Option (Nat → UInt8)) :
    Option (RtPipe τ) :=
  let opens (s : RtPipe τ) : RtPipe τ :=
    { s with
      openers := fun side => (s.openers side + access.counts side) % 2 ^ 8
      refCount := (s.refCount + 1) % 2 ^ 8
      opened := update s.opened access (s.opened access + 1) }
  if s.refCount = 0 then
    (rtRingbufferCreate s.bufsz pool).map fun
      | none => s -- -RT_ENOMEM
      | some fifo => opens { s with fifo := some fifo }
  else some (opens s)

/-- `pipe_fops_close`, until somebody may have to be woken up. -/
def pipeFopsClose (s : RtPipe τ) (t : τ) (access : Access) : RtPipe τ :=
  { s with
    openers := fun side => (s.openers side + 2 ^ 8 - access.counts side) % 2 ^ 8
    opened := update s.opened access (s.opened access - 1)
    lock := some t
    phase := update s.phase t .closes }

/-- The end of `pipe_fops_close`. -/
def release (s : RtPipe τ) : RtPipe τ :=
  let s := if s.refCount = 1 then { s with fifo := none, accepted := [], returned := [] } else s
  { s with refCount := (s.refCount + 2 ^ 8 - 1) % 2 ^ 8, lock := none }

/-- The lock is held in the loop of `pipe_fops_read`. -/
def pipeFopsRead (s : RtPipe τ) (t : τ) (count : Nat) (nonblock : Bool) : Option (RtPipe τ) :=
  if s.openers .writer = 0 then some (s.finish t .reader (.bytes 0))
  else
    s.fifo.bind fun fifo =>
      (rtRingbufferGet fifo (count % 2 ^ 16)).map fun (fifo, len, bytes) =>
        let s := { s with fifo := some fifo }
        if 0 < len then
          { s with
            returned := s.returned ++ bytes
            -- the writer is woken up before the lock is released
            lock := some t
            phase := update s.phase t (.wakes (.read count nonblock) (some (.bytes len))) }
        else if nonblock then s.finish t .reader .eagain
        else (s.record (.blocks s.dataLen)).setPhase t (.wakes (.read count nonblock) none)

/-- The lock is held in the loop of `pipe_fops_write`. -/
def pipeFopsWrite (s : RtPipe τ) (t : τ) (pbuf : List UInt8) (ret : Nat) (nonblock wakes : Bool) :
    Option (RtPipe τ) :=
  if s.openers .reader = 0 then
    let result := if ret = 0 then .epipe else .bytes ret
    if wakes then some (s.setPhase t (.wakes (.write pbuf ret nonblock) (some result)))
    else some (s.finish t .writer result)
  else
    s.fifo.bind fun fifo =>
      (rtRingbufferPut fifo (pbuf.take (pbuf.length % 2 ^ 16))).map fun (fifo, len) =>
        let s := { s with fifo := some fifo, accepted := s.accepted ++ pbuf.take len }
        let call := .write (pbuf.drop len) (ret + len) nonblock
        if pbuf.drop len = [] then s.setPhase t (.wakes call (some (.bytes (ret + len))))
        else if nonblock then
          s.setPhase t (.wakes call (some (if ret + len = 0 then .eagain else .bytes (ret + len))))
        else (s.record (.blocks s.spaceLen)).setPhase t (.wakes call none)

/-- A thread takes the lock. -/
def access (s : RtPipe τ) (t : τ) (c : Call) (again : Bool) : Option (RtPipe τ) :=
  if s.lock = none then
    match c with
    | .read count nonblock => s.pipeFopsRead t count nonblock
    | .write pbuf ret nonblock => s.pipeFopsWrite t pbuf ret nonblock again
  else none

/-- What `pipe_fops_read` and `pipe_fops_write` do before they take the lock. -/
def enter (s : RtPipe τ) (t : τ) (c : Call) : RtPipe τ :=
  match c with
  | .read _ _ =>
    if s.openers .writer = 0 then s.finish t .reader (.bytes 0) else s.setPhase t (.enters c)
  | .write _ _ _ =>
    if s.openers .reader = 0 then s.finish t .writer .epipe else s.setPhase t (.enters c)

/-- A thread has woken up the other side. -/
def afterWakeup (s : RtPipe τ) (t : τ) (c : Call) : Option Result → RtPipe τ
  | none => s.setPhase t (.waits c)
  | some result =>
    match c with
    | .read _ _ => { s with lock := none }.finish t .reader result
    | .write _ _ _ => s.finish t .writer result

/-- `rt_wqueue_wait` of a call. -/
def wait (s : RtPipe τ) (t : τ) (c : Call) : RtPipe τ :=
  match rtWqueueWait (s.queue c.side) t with
  | (queue, true) => (s.setQueue c.side queue).setPhase t (.suspended c)
  | (queue, false) => (s.setQueue c.side queue).setPhase t (.rechecks c)

/-- What a thread does next. -/
def next (s : RtPipe τ) (t : τ) : Option (RtPipe τ) :=
  match s.phase t with
  | .idle | .suspended _ => none
  | .enters c => s.access t c false
  | .rechecks c => s.access t c true
  | .wakes c result => some ((s.wakeup c.side.other).afterWakeup t c result)
  | .waits c => some (s.wait t c)
  | .woken c =>
    some ((s.setQueue c.side { s.queue c.side with flag := false }).setPhase t (.rechecks c))
  | .closes =>
    let s := if s.openers .writer = 0 then s.wakeup .reader else s
    some (s.setPhase t .closesWriters)
  | .closesWriters =>
    let s := if s.openers .reader = 0 then s.wakeup .writer else s
    some (s.release.setPhase t .idle)

/-- What may happen. -/
inductive Act (τ : Type*)
  | openFile (access : Access) (pool : Option (Nat → UInt8))
  | closeFile (t : τ) (access : Access)
  | read (t : τ) (count : Nat) (nonblock : Bool)
  | write (t : τ) (buf : List UInt8) (nonblock : Bool)
  | next (t : τ)

/-- One step of a run. -/
def exec (s : RtPipe τ) : Act τ → Option (RtPipe τ)
  | .openFile access pool => if s.lock = none then s.pipeFopsOpen access pool else none
  | .closeFile t access =>
    if s.lock = none ∧ s.phase t = .idle ∧ 0 < s.opened access then some (s.pipeFopsClose t access)
    else none
  | .read t count nonblock =>
    if s.phase t = .idle ∧ 0 < count then some (s.enter t (.read count nonblock)) else none
  | .write t buf nonblock =>
    if s.phase t = .idle ∧ buf ≠ [] then some (s.enter t (.write buf 0 nonblock)) else none
  | .next t => s.next t

/-- `rt_pipe_create` has been called. -/
structure Initial (s : RtPipe τ) : Prop where
  fifo : s.fifo = none
  bufsz : s.bufsz < 2 ^ 16
  openers : ∀ side, s.openers side = 0
  refCount : s.refCount = 0
  queue : ∀ side, s.queue side = { flag := false, waitingList := [] }
  lock : s.lock = none
  phase : ∀ t, s.phase t = .idle
  opened : ∀ access, s.opened access = 0
  ghost : s.accepted = [] ∧ s.returned = [] ∧ s.history = []

end RtPipe

end RtKernel.Pipe

import RtKernel.Drivers.RingBlkBuf
import RtKernel.Drivers.RingBuffer
import RtKernel.Ipc.Semaphore
import RtKernel.Mem.Strings

/-!
# Asynchronous log output

A log call puts what it has formatted into a buffer and sends a notice; the output thread waits
for the notice, and gives what the buffers hold to the backends. A log with a header is a frame
in a block of a ring block buffer, a raw log is bytes in a ring buffer. Threads hold the output
lock while they log, interrupts do not.
-/

namespace RtKernel.Ulog

open Rbb RingBuffer

/-- `ULOG_FRAME_MAGIC`. -/
def ulogFrameMagic : UInt8 := 0x10

/-- `struct ulog_frame`, with the text that its pointers lead to. -/
structure UlogFrame where
  magic : UInt8
  isRaw : Bool
  logLen : Nat
  level : Nat
  log : List UInt8
  tag : List UInt8
  deriving DecidableEq

/-- A call of `ulog_output_to_all_backend`. -/
structure Entry where
  level : Nat
  tag : List UInt8
  isRaw : Bool
  log : List UInt8
  deriving DecidableEq

/-- What `ulog_voutput` has formatted: a log that the filters let through. `log_len` has 23 bits, and
`ULOG_LINE_BUF_SIZE` fits into them. -/
structure Log where
  level : Nat
  tag : List UInt8
  text : List UInt8
  short : text.length < 2 ^ 23
  deriving DecidableEq

/-- The log frame that `do_output` packages. -/
def Log.frame (log : Log) : UlogFrame :=
  { magic := ulogFrameMagic, isRaw := false, logLen := log.text.length, level := log.level
    log := Kservice.Chars.rtStrncpy (log.text.takeWhile (· ≠ 0)) log.text.length, tag := log.tag }

/-- What `ulog_async_output` gives to the backends of a log frame. -/
def UlogFrame.entry (frame : UlogFrame) : Entry :=
  { level := frame.level, tag := frame.tag, isRaw := frame.isRaw
    log := frame.log.take frame.logLen }

/-- The size of the block for a log: `struct ulog_frame`, the text and its end sign. -/
def Log.blkSize (log : Log) : Nat := rtAlign (16 + (log.text.length + 1))

/-- `LOG_LVL_DBG`. -/
def logLvlDbg : Nat := 7

/-- Where a log call is. -/
inductive Caller
  | idle
  -- `ulog_voutput`
  | voutput (log : Log)
  | recursion (log : Log)
  | output (log : Log)
  | package (logBlk : Nat) (log : Log)
  | putBlk (logBlk : Nat) (log : Log)
  | notice
  | clear
  -- `ulog_raw`
  | raw (logBuf : List UInt8)
  | create (logBuf : List UInt8)
  | rawLock (logBuf : List UInt8)
  | outputRaw (logBuf : List UInt8)
  | putRing (logBuf : List UInt8)
  | putIndex (rb writeIndex : Nat)
  | rawNotice
  | unlock
  deriving DecidableEq

/-- Where the output thread is; `timed` tells how long it waits next. -/
inductive Out
  | start (timed : Bool)
  | get (timed : Bool)
  | output (timed : Bool) (logBlk : Nat)
  | free (timed : Bool) (logBlk : Nat)
  | raw (timed : Bool)
  | getRing (timed : Bool) (logLen : Nat)
  | getIndex (timed : Bool) (rb readIndex : Nat) (log : List UInt8)
  | outputRaw (timed : Bool) (log : List UInt8)
  | reset (timed : Bool)
  | take (timed : Bool)
  | suspended (timed : Bool)
  deriving DecidableEq

/-- `struct rt_ulog`, with the ring buffers that have been created, the callers and the output
thread. `async_rb` is the place of its ring buffer among them. -/
structure RtUlog (τ : Type*) where
  asyncEnabled : Bool
  asyncRbb : RtRbb
  /-- The frame in the buffer of each block. -/
  frames : Nat → UlogFrame
  asyncRb : Option Nat
  rings : List RtRingbuffer
  /-- The value of `async_notice`. -/
  asyncNotice : Nat
  /-- The thread that holds `output_locker`. -/
  outputLocker : Option τ
  /-- `ulog_voutput_recursion`. -/
  voutputRecursion : Bool
  pc : τ → Caller
  out : Out
  /-- The logs for which a block has been allocated. -/
  called : List Log
  /-- What the backends have been given. -/
  entries : List Entry

/-- `ULOG_ASYNC_OUTPUT_BUF_SIZE`, and the callers that are interrupts. -/
structure Setup (τ : Type*) where
  bufSize : Nat
  isr : τ → Bool

namespace RtUlog

variable {τ : Type*}

/-- `rt_sem_release` of `async_notice`, for which only the output thread waits. -/
def semRelease (s : RtUlog τ) : RtUlog τ :=
  match s.out with
  | .suspended _ => { s with out := .start true }
  | _ => if s.asyncNotice < Sem.rtSemValueMax then { s with asyncNotice := s.asyncNotice + 1 } else s

/-- `rt_rbb_blk_alloc` for a log. -/
def blkAlloc (s : RtUlog τ) (log : Log) : Option (RtUlog τ × Option Nat) :=
  (rtRbbBlkAlloc s.asyncRbb log.blkSize).map fun (rbb, logBlk) =>
    match logBlk with
    | none => ({ s with asyncRbb := rbb }, none)
    | some n => ({ s with asyncRbb := rbb, called := s.called ++ [log] }, some n)

/-- The log frame is packaged in the buffer of the block. -/
def package (s : RtUlog τ) (logBlk : Nat) (log : Log) : RtUlog τ :=
  { s with frames := Function.update s.frames logBlk log.frame }

/-- `rt_rbb_blk_put`. -/
def blkPut (s : RtUlog τ) (logBlk : Nat) : Option (RtUlog τ) :=
  (rtRbbBlkPut s.asyncRbb logBlk).map fun rbb => { s with asyncRbb := rbb }

/-- What `rt_ringbuffer_put` does before it stores `write_index`. -/
def ringPut (s : RtUlog τ) (rb : Nat) (logBuf : List UInt8) : Option (RtUlog τ × Nat) :=
  s.rings[rb]?.bind fun ring =>
    (rtRingbufferPut ring logBuf).map fun (ring', _) =>
      ({ s with rings := s.rings.set rb { ring' with writeIndex := ring.writeIndex } },
        ring'.writeIndex)

/-- `rt_ringbuffer_put` stores `write_index`. -/
def ringPutIndex (s : RtUlog τ) (rb writeIndex : Nat) : Option (RtUlog τ) :=
  s.rings[rb]?.map fun ring =>
    { s with rings := s.rings.set rb { ring with writeIndex := writeIndex } }

/-- What `rt_ringbuffer_get` does before it stores `read_index`. -/
def ringGet (s : RtUlog τ) (rb logLen : Nat) : Option (RtUlog τ × Nat × List UInt8) :=
  s.rings[rb]?.bind fun ring =>
    (rtRingbufferGet ring logLen).map fun (ring', _, log) =>
      ({ s with rings := s.rings.set rb { ring' with readIndex := ring.readIndex } },
        ring'.readIndex, log)

/-- `rt_ringbuffer_get` stores `read_index`. -/
def ringGetIndex (s : RtUlog τ) (rb readIndex : Nat) : Option (RtUlog τ) :=
  s.rings[rb]?.map fun ring =>
    { s with rings := s.rings.set rb { ring with readIndex := readIndex } }

/-- `rt_ringbuffer_create`, which fails without memory. -/
def ringCreate (c : Setup τ) (s : RtUlog τ) (malloc : Bool) : Option (RtUlog τ) :=
  if malloc then
    (rtRingbufferInit (fun _ => 0) c.bufSize).map fun ring =>
      { s with asyncRb := some s.rings.length, rings := s.rings ++ [ring] }
  else some { s with asyncRb := none }

/-- The rest of `ulog_voutput` in an interrupt, where nothing else runs. -/
def isrVoutput (s : RtUlog τ) (log : Log) : Option (RtUlog τ) :=
  if s.voutputRecursion then some s -- rt_kprintf
  else
    (s.blkAlloc log).bind fun (s, logBlk) =>
      match logBlk with
      | none => some s
      | some n => ((s.package n log).blkPut n).map semRelease

/-- The rest of `ulog_raw` in an interrupt. -/
def isrRaw (s : RtUlog τ) (logBuf : List UInt8) : Option (RtUlog τ) :=
  match s.asyncRb with
  | none => some s
  | some rb =>
      (s.ringPut rb logBuf).bind fun (s, writeIndex) =>
        (s.ringPutIndex rb writeIndex).map semRelease

variable [DecidableEq τ]

def setPc (s : RtUlog τ) (t : τ) (pc : Caller) : RtUlog τ :=
  { s with pc := Function.update s.pc t pc }

/-- `output_lock` in a thread, when the mutex is free. -/
def lock (s : RtUlog τ) (t : τ) (pc : Caller) : Option (RtUlog τ) :=
  if s.outputLocker = none then some { s.setPc t pc with outputLocker := some t } else none

/-- The next step of a log call; `malloc` tells if there is memory for a ring buffer. There is
none while another thread holds the lock. -/
def callerStep (c : Setup τ) (s : RtUlog τ) (t : τ) (malloc : Bool) : Option (RtUlog τ) :=
  match s.pc t with
  | .idle => none
  | .voutput log =>
      if c.isr t then (s.isrVoutput log).map fun s => s.setPc t .idle
      else s.lock t (.recursion log)
  | .recursion log =>
      if s.voutputRecursion then some (s.setPc t .unlock) -- rt_kprintf
      else some { s.setPc t (.output log) with voutputRecursion := true }
  | .output log =>
      (s.blkAlloc log).map fun (s, logBlk) =>
        match logBlk with
        | none => s.setPc t .clear -- rt_kprintf
        | some n => s.setPc t (.package n log)
  | .package n log => some ((s.package n log).setPc t (.putBlk n log))
  | .putBlk n _ => (s.blkPut n).map fun s => s.setPc t .notice
  | .notice => some (s.semRelease.setPc t .clear)
  | .clear => some { s.setPc t .unlock with voutputRecursion := false }
  | .raw logBuf =>
      match s.asyncRb with
      | none => some (s.setPc t (.create logBuf))
      | some _ => some (s.setPc t (.rawLock logBuf))
  | .create logBuf => (s.ringCreate c malloc).map fun s => s.setPc t (.rawLock logBuf)
  | .rawLock logBuf =>
      if c.isr t then (s.isrRaw logBuf).map fun s => s.setPc t .idle
      else s.lock t (.outputRaw logBuf)
  | .outputRaw logBuf =>
      match s.asyncRb with
      | none => some (s.setPc t .unlock)
      | some _ => some (s.setPc t (.putRing logBuf))
  | .putRing logBuf =>
      s.asyncRb.bind fun rb =>
        (s.ringPut rb logBuf).map fun (s, writeIndex) => s.setPc t (.putIndex rb writeIndex)
  | .putIndex rb writeIndex =>
      (s.ringPutIndex rb writeIndex).map fun s => s.setPc t .rawNotice
  | .rawNotice => some (s.semRelease.setPc t .unlock)
  | .unlock => some { s.setPc t .idle with outputLocker := none }

/-- The next step of the output thread; `malloc` tells if there is memory for the raw logs. -/
def outStep (s : RtUlog τ) (malloc : Bool) : Option (RtUlog τ) :=
  match s.out with
  | .start timed => some { s with out := if s.asyncEnabled then .get timed else .reset timed }
  | .get timed =>
      (rtRbbBlkGet s.asyncRbb).map fun (rbb, logBlk) =>
        match logBlk with
        | none => { s with asyncRbb := rbb, out := .raw timed }
        | some n => { s with asyncRbb := rbb, out := .output timed n }
  | .output timed n =>
      let frame := s.frames n
      if frame.magic = ulogFrameMagic then
        some { s with entries := s.entries ++ [frame.entry], out := .free timed n }
      else some { s with out := .free timed n }
  | .free timed n =>
      (rtRbbBlkFree s.asyncRbb n).map fun rbb => { s with asyncRbb := rbb, out := .get timed }
  | .raw timed =>
      match s.asyncRb with
      | none => some { s with out := .reset timed }
      | some rb =>
          s.rings[rb]?.map fun ring =>
            { s with
              out := if malloc then .getRing timed (rtRingbufferDataLen ring) else .reset timed }
  | .getRing timed logLen =>
      s.asyncRb.bind fun rb =>
        (s.ringGet rb logLen).map fun (s, readIndex, log) =>
          { s with out := .getIndex timed rb readIndex log }
  | .getIndex timed rb readIndex log =>
      (s.ringGetIndex rb readIndex).map fun s => { s with out := .outputRaw timed log }
  | .outputRaw timed log =>
      some { s with
        entries := s.entries ++ [{ level := logLvlDbg, tag := [], isRaw := true, log := log }]
        out := .reset timed }
  -- `ulog_async_waiting_log`
  | .reset timed => some { s with asyncNotice := 0, out := .take timed }
  | .take timed =>
      if 0 < s.asyncNotice then
        some { s with asyncNotice := s.asyncNotice - 1, out := .start true }
      else some { s with out := .suspended timed }
  | .suspended _ => none

/-- A step of a caller or of the output thread, or the end of a timed wait. -/
inductive Act (τ : Type*)
  | log (t : τ) (log : Log)
  | logRaw (t : τ) (logBuf : List UInt8)
  | caller (t : τ) (malloc : Bool)
  | out (malloc : Bool)
  | timeout

def exec (c : Setup τ) (s : RtUlog τ) : Act τ → Option (RtUlog τ)
  | .log t log => if s.pc t = .idle then some (s.setPc t (.voutput log)) else none
  | .logRaw t logBuf => if s.pc t = .idle then some (s.setPc t (.raw logBuf)) else none
  | .caller t malloc => s.callerStep c t malloc
  | .out malloc => s.outStep malloc
  | .timeout =>
      match s.out with
      -- `ulog_flush`, and the wait without end after it
      | .suspended true => some { s with out := .start false }
      | _ => none

/-- `ulog_init` has been called, and the output thread starts. -/
def Initial (s : RtUlog τ) : Prop :=
  ∃ rbb frames, Rbb.Initial rbb ∧
    s = { asyncEnabled := true, asyncRbb := rbb, frames := frames, asyncRb := none, rings := []
          asyncNotice := 0, outputLocker := none, voutputRecursion := false
          pc := fun _ => .idle, out := .start false, called := [], entries := [] }

end RtUlog

end RtKernel.Ulog

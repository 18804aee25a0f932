import RtKernel.Core.Fifo
import RtKernel.Core.Ring
import RtKernel.Core.Run
import RtKernel.Core.Word

/-!
# Ring buffers

Bytes are put into a pool behind the last one and wrap at its end. Each of the two
indices has a mirror bit that flips when the index wraps: with equal indices the
buffer is empty in the same mirror, and full in different ones.
-/

namespace RtKernel.RingBuffer

/-- `struct rt_ringbuffer`, with the pool it has been given. -/
structure RtRingbuffer where
  bufferPtr : Nat → UInt8
  /-- How many bytes the pool has. -/
  poolSize : Nat
  readMirror : Bool
  readIndex : Nat
  writeMirror : Bool
  writeIndex : Nat
  bufferSize : Nat

/-- `enum rt_ringbuffer_state`. -/
inductive RtRingbufferState
  | empty
  | full
  | halffull
  deriving DecidableEq

/-- What an index of 15 bits holds. -/
def index (x : Nat) : Nat := x % 2 ^ 15

/-- `rt_memcpy` of `n` bytes into the pool; there is no result when it leaves the pool or the source. -/
def copyIn (rb : RtRingbuffer) (p : Nat) (src : List UInt8) (n : Nat) : Option RtRingbuffer :=
  if p + n ≤ rb.poolSize ∧ n ≤ src.length then
    some { rb with bufferPtr := storeAt rb.bufferPtr p (src.take n) }
  else none

/-- `rt_memcpy` of `n` bytes out of the pool. -/
def copyOut (rb : RtRingbuffer) (p n : Nat) : Option (List UInt8) :=
  if p + n ≤ rb.poolSize then some ((List.range' p n).map rb.bufferPtr) else none

/-- A byte is stored in the pool. -/
def setByte (rb : RtRingbuffer) (p : Nat) (ch : UInt8) : Option RtRingbuffer :=
  if p < rb.poolSize then some { rb with bufferPtr := Function.update rb.bufferPtr p ch } else none

/-- `rt_ringbuffer_status`. -/
def rtRingbufferStatus (rb : RtRingbuffer) : RtRingbufferState :=
  if rb.readIndex = rb.writeIndex then
    if rb.readMirror = rb.writeMirror then .empty else .full
  else .halffull

/-- `rt_ringbuffer_data_len`. -/
def rtRingbufferDataLen (rb : RtRingbuffer) : Nat :=
  match rtRingbufferStatus rb with
  | .empty => 0
  | .full => rb.bufferSize
  | .halffull =>
      let wi := rb.writeIndex
      let ri := rb.readIndex
      if wi > ri then wi - ri else rb.bufferSize - (ri - wi)

/-- `rt_ringbuffer_space_len`. -/
def rtRingbufferSpaceLen (rb : RtRingbuffer) : Nat := rb.bufferSize - rtRingbufferDataLen rb

/-- `rt_ringbuffer_init` with a pool of `size` bytes. -/
def rtRingbufferInit (pool : Nat → UInt8) (size : Nat) : Option RtRingbuffer :=
  if size = 0 then none -- RT_ASSERT(size > 0)
  else
    some
      { bufferPtr := pool, poolSize := size, readMirror := false, readIndex := 0
        writeMirror := false, writeIndex := 0, bufferSize := rtAlignDown size }

/-- `rt_ringbuffer_put` of all bytes of `ptr`. -/
def rtRingbufferPut (rb : RtRingbuffer) (ptr : List UInt8) : Option (RtRingbuffer × Nat) :=
  let size := rtRingbufferSpaceLen rb
  if size = 0 then some (rb, 0)
  else
    let length := if size < ptr.length then size else ptr.length
    let room := rb.bufferSize - rb.writeIndex
    if room > length then
      (copyIn rb rb.writeIndex ptr length).map fun rb =>
        ({ rb with writeIndex := index (rb.writeIndex + length) }, length)
    else
      (copyIn rb rb.writeIndex ptr room).bind fun rb =>
        (copyIn rb 0 (ptr.drop room) (length - room)).map fun rb =>
          ({ rb with writeMirror := !rb.writeMirror, writeIndex := index (length - room) }, length)

/-- `rt_ringbuffer_put_force` of all bytes of `ptr`. -/
def rtRingbufferPutForce (rb : RtRingbuffer) (ptr : List UInt8) : Option (RtRingbuffer × Nat) :=
  let spaceLength := rtRingbufferSpaceLen rb
  let ptr := if ptr.length > rb.bufferSize then ptr.drop (ptr.length - rb.bufferSize) else ptr
  let length := ptr.length
  let room := rb.bufferSize - rb.writeIndex
  if room > length then
    (copyIn rb rb.writeIndex ptr length).map fun rb =>
      let rb := { rb with writeIndex := index (rb.writeIndex + length) }
      (if length > spaceLength then { rb with readIndex := rb.writeIndex } else rb, length)
  else
    (copyIn rb rb.writeIndex ptr room).bind fun rb =>
      (copyIn rb 0 (ptr.drop room) (length - room)).map fun rb =>
        let rb := { rb with
          writeMirror := !rb.writeMirror, writeIndex := index (length - room) }
        (if length > spaceLength then
          let rb := if rb.writeIndex ≤ rb.readIndex then { rb with readMirror := !rb.readMirror } else rb
          { rb with readIndex := rb.writeIndex }
        else rb, length)

/-- `rt_ringbuffer_get`, with the bytes that are copied to the caller. -/
def rtRingbufferGet (rb : RtRingbuffer) (length : Nat) :
    Option (RtRingbuffer × Nat × List UInt8) :=
  let size := rtRingbufferDataLen rb
  if size = 0 then some (rb, 0, [])
  else
    let length := if size < length then size else length
    let room := rb.bufferSize - rb.readIndex
    if room > length then
      (copyOut rb rb.readIndex length).map fun bytes =>
        ({ rb with readIndex := index (rb.readIndex + length) }, length, bytes)
    else
      (copyOut rb rb.readIndex room).bind fun bytes =>
        (copyOut rb 0 (length - room)).map fun rest =>
          ({ rb with readMirror := !rb.readMirror, readIndex := index (length - room) }, length,
            bytes ++ rest)

/-- `rt_ringbuffer_peek`, with the place in the pool that the caller is given. -/
def rtRingbufferPeek (rb : RtRingbuffer) : RtRingbuffer × Nat × Option Nat :=
  let size := rtRingbufferDataLen rb
  if size = 0 then (rb, 0, none)
  else
    let ptr := rb.readIndex
    if rb.bufferSize - rb.readIndex > size then
      ({ rb with readIndex := index (rb.readIndex + size) }, size, some ptr)
    else
      ({ rb with readMirror := !rb.readMirror, readIndex := 0 }, rb.bufferSize - rb.readIndex,
        some ptr)

/-- `rt_ringbuffer_putchar`. -/
def rtRingbufferPutchar (rb : RtRingbuffer) (ch : UInt8) : Option (RtRingbuffer × Nat) :=
  if rtRingbufferSpaceLen rb = 0 then some (rb, 0)
  else
    (setByte rb rb.writeIndex ch).map fun rb =>
      if rb.writeIndex = rb.bufferSize - 1 then
        ({ rb with writeMirror := !rb.writeMirror, writeIndex := 0 }, 1)
      else ({ rb with writeIndex := index (rb.writeIndex + 1) }, 1)

/-- `rt_ringbuffer_putchar_force`. -/
def rtRingbufferPutcharForce (rb : RtRingbuffer) (ch : UInt8) : Option (RtRingbuffer × Nat) :=
  let oldState := rtRingbufferStatus rb
  (setByte rb rb.writeIndex ch).map fun rb =>
    if rb.writeIndex = rb.bufferSize - 1 then
      let rb := { rb with writeMirror := !rb.writeMirror, writeIndex := 0 }
      (if oldState = .full then
        { rb with readMirror := !rb.readMirror, readIndex := rb.writeIndex } else rb, 1)
    else
      let rb := { rb with writeIndex := index (rb.writeIndex + 1) }
      (if oldState = .full then { rb with readIndex := rb.writeIndex } else rb, 1)

/-- `rt_ringbuffer_getchar`, with the byte that the caller is given. -/
def rtRingbufferGetchar (rb : RtRingbuffer) : Option (RtRingbuffer × Nat × List UInt8) :=
  if rtRingbufferDataLen rb = 0 then some (rb, 0, [])
  else
    (copyOut rb rb.readIndex 1).map fun bytes =>
      if rb.readIndex = rb.bufferSize - 1 then
        ({ rb with readMirror := !rb.readMirror, readIndex := 0 }, 1, bytes)
      else ({ rb with readIndex := index (rb.readIndex + 1) }, 1, bytes)

/-- `rt_ringbuffer_reset`. -/
def rtRingbufferReset (rb : RtRingbuffer) : RtRingbuffer :=
  { rb with readMirror := false, readIndex := 0, writeMirror := false, writeIndex := 0 }

/-- A call, with the bytes it is given. -/
inductive Request
  | put (ptr : List UInt8)
  | putForce (ptr : List UInt8)
  | putchar (ch : UInt8)
  | putcharForce (ch : UInt8)
  | get (length : Nat)
  | getchar
  | peek
  | reset

/-- Lengths are of type `rt_uint16_t`. -/
def Request.Valid : Request → Prop
  | .put ptr | .putForce ptr => ptr.length < 2 ^ 16
  | .get length => length < 2 ^ 16
  | _ => True

instance : DecidablePred Request.Valid := fun r =>
  match r with
  | .put ptr | .putForce ptr => inferInstanceAs (Decidable (ptr.length < 2 ^ 16))
  | .get length => inferInstanceAs (Decidable (length < 2 ^ 16))
  | .putchar _ | .putcharForce _ | .getchar | .peek | .reset => .isTrue trivial

/-- What is asked of the queue. -/
def Request.event : Request → FifoEvent UInt8
  | .put ptr => .put ptr
  | .putForce ptr => .putForce ptr
  | .putchar ch => .put [ch]
  | .putcharForce ch => .putForce [ch]
  | .get length => .get length
  | .getchar => .get 1
  | .peek => .peek
  | .reset => .reset

/-- A call and its answer; there is none when a byte outside of the pool is accessed. -/
def call (rb : RtRingbuffer) : Request → Option (RtRingbuffer × FifoAnswer UInt8)
  | .put ptr => (rtRingbufferPut rb ptr).map fun (rb, count) => (rb, { count := count, items := [] })
  | .putForce ptr =>
      (rtRingbufferPutForce rb ptr).map fun (rb, count) => (rb, { count := count, items := [] })
  | .putchar ch =>
      (rtRingbufferPutchar rb ch).map fun (rb, count) => (rb, { count := count, items := [] })
  | .putcharForce ch =>
      (rtRingbufferPutcharForce rb ch).map fun (rb, count) => (rb, { count := count, items := [] })
  | .get length =>
      (rtRingbufferGet rb length).map fun (rb, count, bytes) =>
        (rb, { count := count, items := bytes })
  | .getchar =>
      (rtRingbufferGetchar rb).map fun (rb, count, bytes) => (rb, { count := count, items := bytes })
  | .peek =>
      let (rb, count, ptr) := rtRingbufferPeek rb
      -- the caller reads what it has been given
      match ptr with
      | none => some (rb, { count := count, items := [] })
      | some ptr => (copyOut rb ptr count).map fun bytes => (rb, { count := count, items := bytes })
  | .reset => some (rtRingbufferReset rb, { count := 0, items := [] })

end RtKernel.RingBuffer

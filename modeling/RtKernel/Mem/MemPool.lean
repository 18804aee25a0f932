import RtKernel.Core.Bytes
import RtKernel.Core.Chain
import RtKernel.Ipc.Wakeup

/-!
# Memory pools

A pool is cut into blocks of one size, each behind a word of its own. The word of
a free block points to the next free one, and that of an allocated block to the
pool. Blocks are given by the addresses of these words; a pool is known by the
address of its control block, and `0` is `RT_NULL`.
-/

namespace RtKernel.MemPool

open Kernel Function

/-- `struct rt_mempool`; its list of suspended threads is kept with the threads. -/
structure RtMempool where
  startAddress : Nat
  size : Nat
  blockSize : Nat
  blockList : Nat
  blockTotalCount : Nat
  blockFreeCount : Nat

/-- The address at an offset in blocks. -/
def blockPtr (start blockSize offset : Nat) : Nat := (start + offset * add32 blockSize 4) % 2 ^ 32

/-- The loop of `rt_mp_init`, for the first blocks. -/
def linkBlocks (mem : Nat → UInt8) (start blockSize : Nat) : Nat → Nat → UInt8
  | 0 => mem
  | offset + 1 =>
      let mem := linkBlocks mem start blockSize offset
      store32 mem (blockPtr start blockSize offset) (blockPtr start blockSize (offset + 1))

/-- `rt_mp_init`; there is no result where an assertion fails. -/
def rtMpInit (mem : Nat → UInt8) (start size blockSize : Nat) :
    Option ((Nat → UInt8) × RtMempool) :=
  if start = 0 ∨ size = 0 ∨ blockSize = 0 then none
  else
    let size := rtAlignDown size
    let blockSize := rtAlign blockSize
    let total := size / add32 blockSize 4
    let mem := linkBlocks mem start blockSize total
    let mem := store32 mem (blockPtr start blockSize (sub32 total 1)) 0
    some (mem,
      { startAddress := start, size := size, blockSize := blockSize, blockList := start
        blockTotalCount := total, blockFreeCount := total })

/-- What a part of `rt_mp_alloc` comes to: the value to return, or a suspended thread. -/
inductive Result
  | returns (block : Nat)
  | waits
  deriving DecidableEq

variable {τ : Type*} [DecidableEq τ]

/-- The current thread is suspended at the front of the list. -/
def suspendFirst (k : Kernel τ Nat) (x : Nat) (timed : Bool) : Kernel τ Nat :=
  let thread := k.current
  let k := (k.setError .eok).rtThreadSuspend
  let k := { k with wait := update k.wait x (thread :: k.wait x) }
  if timed then k.startTimer else k

/-- A turn of the loop of `rt_mp_alloc`, and what comes after the last one. -/
def rtMpAlloc (k : Kernel τ Nat) (mem : Nat → UInt8) (mp : RtMempool) (x : Nat) (time : Int) :
    Option (Kernel τ Nat × (Nat → UInt8) × RtMempool × Result) :=
  if mp.blockFreeCount = 0 then
    if time = 0 then some (k.setError .etimeout, mem, mp, .returns 0)
    else some (suspendFirst k x (0 < time), mem, mp, .waits)
  else
    let blockPtr := mp.blockList
    if blockPtr = 0 then none -- RT_ASSERT(block_ptr != RT_NULL)
    else
      some (k, store32 mem blockPtr x,
        { mp with blockFreeCount := mp.blockFreeCount - 1, blockList := load32 mem blockPtr },
        .returns (add32 blockPtr 4))

/-- `rt_mp_free`, up to its call of `rt_schedule`. -/
def rtMpFree (k : Kernel τ Nat) (mem : Nat → UInt8) (pool : Nat → RtMempool) (block : Nat) :
    Kernel τ Nat × (Nat → UInt8) × (Nat → RtMempool) :=
  if block = 0 then (k, mem, pool)
  else
    let blockPtr := sub32 block 4
    let x := load32 mem blockPtr
    let mp := pool x
    let pool := update pool x
      { mp with blockFreeCount := add32 mp.blockFreeCount 1, blockList := blockPtr }
    let mem := store32 mem blockPtr mp.blockList
    match k.wait x with
    | [] => (k, mem, pool)
    | thread :: _ =>
        let k := k.setThread thread fun t => { t with error := .eok }
        (k.rtThreadResume thread, mem, pool)

/-- A call of `rt_mp_alloc` past `rt_schedule`. -/
inductive Call
  | waiting (x : Nat) (time : Int)

def waitsOn : Call → Option Nat
  | .waiting x _ => some x

/-- What the current thread, an interrupt or the timer does. -/
inductive Act (τ : Type*)
  | init (x start size blockSize : Nat)
  | alloc (x : Nat) (time : Int)
  /-- The current thread goes on with its call, with `left` ticks left of a finite timeout. -/
  | go (left : Nat)
  | isrAlloc (x : Nat)
  | free (x block : Nat)
  /-- Whoever has the block stores a byte in it. -/
  | write (x block address : Nat) (value : UInt8)
  | timeout (t : τ)
  /-- Anything else that happens to the threads. -/
  | other (k : Kernel τ Nat)

/-- The threads and the pools, in one memory. -/
structure Sys (τ : Type*) extends Callers τ Nat Call where
  mem : Nat → UInt8
  pool : Nat → RtMempool
  /-- The pools that have been initialised. -/
  pools : List Nat
  /-- What `rt_mp_alloc` has returned of each pool and has not been freed since. -/
  allocated : Nat → List Nat

/-- The memory given to `rt_mp_init` has room for a block at least. -/
def HasRoom (start size blockSize : Nat) : Prop :=
  start + size ≤ 2 ^ 32 ∧ (blockSize + 3) / 4 * 4 + 4 ≤ size / 4 * 4

instance (start size blockSize : Nat) : Decidable (HasRoom start size blockSize) :=
  inferInstanceAs (Decidable (_ ∧ _))

/-- The memory of two pools does not overlap. -/
def Apart (mp mp' : RtMempool) : Prop :=
  mp.startAddress + mp.size ≤ mp'.startAddress ∨ mp'.startAddress + mp'.size ≤ mp.startAddress

instance : DecidableRel Apart := fun _ _ => inferInstanceAs (Decidable (_ ∨ _))

namespace Sys

/-- What a part of `rt_mp_alloc` leaves of the pool. -/
def store (s : Sys τ) (x : Nat) (mem : Nat → UInt8) (mp : RtMempool) (result : Result) : Sys τ :=
  { s with
    mem := mem
    pool := update s.pool x mp
    allocated := match result with
      | .returns block =>
          if block = 0 then s.allocated
          else update s.allocated x (block :: s.allocated x)
      | .waits => s.allocated }

/-- The current thread has done a part of its call. -/
def finish (s : Sys τ) (x : Nat) (time : Int) (k : Kernel τ Nat) (result : Result) : Sys τ :=
  { s with
    toCallers := Callers.enter { s.toCallers with kernel := k }
      (if result = .waits then some (.waiting x time) else none) }

/-- A step; there is none where it cannot happen or an assertion fails. -/
def exec (s : Sys τ) : Act τ → Option (Sys τ)
  | .init x start size blockSize =>
      if x < 2 ^ 32 ∧ x ∉ s.pools ∧ HasRoom start size blockSize then
        (rtMpInit s.mem start size blockSize).bind fun (mem, mp) =>
          if ∀ y ∈ s.pools, Apart mp (s.pool y) then
            some { s with
              kernel := { s.kernel with wait := update s.kernel.wait x [] }
              mem := mem, pool := update s.pool x mp, pools := x :: s.pools }
          else none
      else none
  | .alloc x time =>
      if s.Free ∧ x ∈ s.pools then
        (rtMpAlloc s.kernel s.mem (s.pool x) x time).map fun (k, mem, mp, result) =>
          (s.store x mem mp result).finish x time k result
      else none
  | .go left =>
      -- with the scheduler locked, `rt_schedule` comes back to a thread that is suspended
      match s.call s.kernel.current with
      | none => none
      | some (.waiting x time) =>
          if (s.kernel.thread s.kernel.current).error ≠ .eok then
            some { s with toCallers := s.toCallers.enter none }
          else
            let time := remaining time left
            (rtMpAlloc s.kernel s.mem (s.pool x) x time).map fun (k, mem, mp, result) =>
              (s.store x mem mp result).finish x time k result
  | .isrAlloc x =>
      if x ∈ s.pools then
        -- here `rt_set_errno` sets the error of no thread
        (rtMpAlloc s.kernel s.mem (s.pool x) x 0).map fun (_, mem, mp, result) =>
          s.store x mem mp result
      else none
  | .free x block =>
      if x ∈ s.pools ∧ block ∈ s.allocated x then
        let (k, mem, pool) := rtMpFree s.kernel s.mem s.pool block
        some { s with
          kernel := k, mem := mem, pool := pool
          allocated := update s.allocated x ((s.allocated x).erase block) }
      else none
  | .write x block address value =>
      if x ∈ s.pools ∧ block ∈ s.allocated x ∧ block ≤ address ∧
          address < block + (s.pool x).blockSize then
        some { s with mem := store8 s.mem address value }
      else none
  | .timeout t => (s.toCallers.timeout t).map fun c => { s with toCallers := c }
  | .other k => some { s with kernel := k }

def Step (s : Sys τ) (a : Act τ) (s' : Sys τ) : Prop := s.exec a = some s'

/-- No pool has been initialised. -/
structure Initial (s : Sys τ) : Prop where
  pools : s.pools = []
  allocated : ∀ x, s.allocated x = []
  call : ∀ t, s.call t = none

end Sys

end RtKernel.MemPool

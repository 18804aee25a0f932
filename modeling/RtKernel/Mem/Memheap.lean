import RtKernel.Core.Bytes
import RtKernel.Core.Run
import RtKernel.Core.Word

/-!
# Memory heaps

A region is divided into items, each with a header in front of its data. The headers
link all items in the order of their addresses, and the free ones a second time. A
header written in place of another one, or over a part of it, does what it does to
the bytes of the region.

There is no result where an assertion fails. The lock is left out, as each call runs
alone.
-/

namespace RtKernel.Memheap

/-- A field of `struct rt_memheap_item`. -/
inductive ItemField
  | magic
  | poolPtr
  | next
  | prev
  | nextFree
  | prevFree
  deriving DecidableEq

/-- Where a field lies in its item. -/
def ItemField.offset : ItemField → Nat
  | .magic => 0
  | .poolPtr => 4
  | .next => 8
  | .prev => 12
  | .nextFree => 16
  | .prevFree => 20

/-- `RT_MEMHEAP_MAGIC | RT_MEMHEAP_FREED`. -/
def rtMemheapFreed : Nat := 0x1ea01ea0

/-- `RT_MEMHEAP_MAGIC | RT_MEMHEAP_USED`. -/
def rtMemheapUsed : Nat := 0x1ea01ea1

/-- `RT_MEMHEAP_MINIALLOC`. -/
def rtMemheapMinialloc : Nat := 12

/-- `RT_MEMHEAP_SIZE`. -/
def rtMemheapSize : Nat := 24

/-- `struct rt_memheap`, with all memory. -/
structure RtMemheap where
  mem : Nat → UInt8
  /-- The address of the object. -/
  self : Nat
  startAddr : Nat
  poolSize : Nat
  availableSize : Nat
  maxUsedSize : Nat
  blockList : Nat
  /-- The address of `free_header`. -/
  freeList : Nat

namespace RtMemheap

/-- A field of the item at an address. -/
def get (h : RtMemheap) (item : Nat) (f : ItemField) : Nat := load32 h.mem (item + f.offset)

def set (h : RtMemheap) (item : Nat) (f : ItemField) (v : Nat) : RtMemheap :=
  { h with mem := store32 h.mem (item + f.offset) v }

/-- `available_size` is stored. -/
def setAvailable (h : RtMemheap) (size : Nat) : RtMemheap := { h with availableSize := size }

/-- `RT_MEMHEAP_IS_USED`. -/
def IsUsed (h : RtMemheap) (item : Nat) : Prop := h.get item .magic &&& 1 ≠ 0

instance (h : RtMemheap) (item : Nat) : Decidable (h.IsUsed item) :=
  inferInstanceAs (Decidable (h.get item .magic &&& 1 ≠ 0))

/-- `MEMITEM_SIZE`. -/
def memitemSize (h : RtMemheap) (item : Nat) : Nat :=
  sub32 (sub32 (h.get item .next) item) rtMemheapSize

/-- An item is removed from the free list. -/
def removeFree (h : RtMemheap) (item : Nat) : RtMemheap :=
  let h := h.set (h.get item .nextFree) .prevFree (h.get item .prevFree)
  h.set (h.get item .prevFree) .nextFree (h.get item .nextFree)

/-- An item is inserted at the front of the free list. -/
def insertFree (h : RtMemheap) (item : Nat) : RtMemheap :=
  let h := h.set item .nextFree (h.get h.freeList .nextFree)
  let h := h.set item .prevFree h.freeList
  let h := h.set (h.get h.freeList .nextFree) .prevFree item
  h.set h.freeList .nextFree item

/-- A new item, marked as freed, is inserted behind another one. -/
def insertItem (h : RtMemheap) (headerPtr newPtr : Nat) : RtMemheap :=
  let h := h.set newPtr .magic rtMemheapFreed
  let h := h.set newPtr .poolPtr h.self
  let h := h.set newPtr .prev headerPtr
  let h := h.set newPtr .next (h.get headerPtr .next)
  let h := h.set (h.get headerPtr .next) .prev newPtr
  h.set headerPtr .next newPtr

/-- `_remove_next_ptr`. -/
def removeNextPtr (h : RtMemheap) (nextPtr : Nat) : RtMemheap :=
  let h := h.removeFree nextPtr
  let h := h.set (h.get nextPtr .next) .prev (h.get nextPtr .prev)
  h.set (h.get nextPtr .prev) .next (h.get nextPtr .next)

/-- The item behind another one is merged into it. -/
def mergeNext (h : RtMemheap) (headerPtr newPtr : Nat) : RtMemheap :=
  let h := h.set (h.get newPtr .next) .prev headerPtr
  let h := h.set headerPtr .next (h.get newPtr .next)
  h.removeFree newPtr

/-- `max_used_size` follows `available_size`. -/
def updateMax (h : RtMemheap) : RtMemheap :=
  if sub32 h.poolSize h.availableSize > h.maxUsedSize then
    { h with maxUsedSize := sub32 h.poolSize h.availableSize }
  else h

/-- The size that is allocated when `size` bytes are requested. -/
def request (size : Nat) : Nat :=
  if rtAlign size < rtMemheapMinialloc then rtMemheapMinialloc else rtAlign size

/-- The search of `rt_memheap_alloc`; the number of turns is bounded. -/
def search (h : RtMemheap) (size : Nat) : Nat → Nat → Nat → Option (Nat × Nat)
  | 0, _, _ => none
  | turns + 1, headerPtr, freeSize =>
    if headerPtr ≠ h.freeList ∧ freeSize < size then
      let freeSize := h.memitemSize headerPtr
      h.search size turns (if freeSize < size then h.get headerPtr .nextFree else headerPtr) freeSize
    else some (headerPtr, freeSize)

/-- `rt_memheap_alloc`, where zero is `RT_NULL`. -/
def rtMemheapAlloc (h : RtMemheap) (size : Nat) : Option (RtMemheap × Nat) :=
  let size := request size
  if size < h.availableSize then
    (h.search size h.poolSize (h.get h.freeList .nextFree) 0).map fun (headerPtr, freeSize) =>
      if freeSize ≥ size then
        let h :=
          if freeSize ≥ add32 size (rtMemheapSize + rtMemheapMinialloc) then
            -- split the block
            let newPtr := add32 headerPtr (add32 size rtMemheapSize)
            let h := h.insertItem headerPtr newPtr
            let h := h.removeFree headerPtr
            let h := h.set headerPtr .nextFree 0
            let h := h.set headerPtr .prevFree 0
            let h := h.insertFree newPtr
            let h := h.setAvailable (sub32 (sub32 h.availableSize size) rtMemheapSize)
            h.updateMax
          else
            let h := h.setAvailable (sub32 h.availableSize freeSize)
            let h := h.updateMax
            let h := h.removeFree headerPtr
            let h := h.set headerPtr .nextFree 0
            h.set headerPtr .prevFree 0
        (h.set headerPtr .magic rtMemheapUsed, add32 headerPtr rtMemheapSize)
      else (h, 0)
  else some (h, 0)

/-- The merge of `rt_memheap_free` with the previous neighbor, with the item that goes on. -/
def mergeLeft (h : RtMemheap) (headerPtr : Nat) : RtMemheap × Nat :=
  let h := h.setAvailable (add32 h.availableSize rtMemheapSize)
  let h := h.set (h.get headerPtr .prev) .next (h.get headerPtr .next)
  let h := h.set (h.get headerPtr .next) .prev (h.get headerPtr .prev)
  (h, h.get headerPtr .prev)

/-- The merge of `rt_memheap_free` with the next neighbor. -/
def mergeRight (h : RtMemheap) (headerPtr : Nat) : RtMemheap :=
  if ¬ h.IsUsed (h.get headerPtr .next) then
    let h := h.setAvailable (add32 h.availableSize rtMemheapSize)
    h.mergeNext headerPtr (h.get headerPtr .next)
  else h

/-- The insertion of `rt_memheap_free`. -/
def insertHeader (h : RtMemheap) (headerPtr : Nat) : RtMemheap :=
  let n := h.get h.freeList .nextFree
  let h := h.set headerPtr .nextFree n
  let h := h.set headerPtr .prevFree (h.get n .prevFree)
  let h := h.set (h.get n .prevFree) .nextFree headerPtr
  h.set n .prevFree headerPtr

/-- `rt_memheap_free`. -/
def rtMemheapFree (h : RtMemheap) (ptr : Nat) : Option RtMemheap :=
  if ptr = 0 then some h
  else
    let headerPtr := sub32 ptr rtMemheapSize
    -- check magic
    if h.get headerPtr .magic ≠ rtMemheapUsed then none
    else if h.get (h.get headerPtr .next) .magic &&& 0xfffffffe ≠ rtMemheapFreed then none
    -- the block belongs to another heap, or to none
    else if h.get headerPtr .poolPtr ≠ h.self then none
    else
      let h := h.set headerPtr .magic rtMemheapFreed
      let h := h.setAvailable (add32 h.availableSize (h.memitemSize headerPtr))
      if ¬ h.IsUsed (h.get headerPtr .prev) then
        let (h, headerPtr) := h.mergeLeft headerPtr
        -- don't insert header to free list
        some (h.mergeRight headerPtr)
      else
        let h := h.mergeRight headerPtr
        some (h.insertHeader headerPtr)

/-- `rt_memcpy`. -/
def rtMemcpy (h : RtMemheap) (dst src n : Nat) : RtMemheap :=
  { h with mem := fun a => if dst ≤ a ∧ a < dst + n then h.mem (src + (a - dst)) else h.mem a }

/-- `rt_memheap_realloc` of a block to a larger size. -/
def grow (h : RtMemheap) (ptr newsize : Nat) : Option (RtMemheap × Nat) :=
  let headerPtr := sub32 ptr rtMemheapSize
  let oldsize := h.memitemSize headerPtr
  let nextPtr := h.get headerPtr .next
  -- header_ptr should not be the tail
  if ¬ nextPtr > headerPtr then none
  else if ¬ h.IsUsed nextPtr ∧
      add32 (h.memitemSize nextPtr) oldsize > add32 newsize rtMemheapMinialloc then
    let h := h.setAvailable (sub32 h.availableSize (sub32 newsize oldsize))
    let h := h.updateMax
    let h := h.removeNextPtr nextPtr
    -- build a new one on the right place
    let nextPtr := add32 ptr newsize
    let h := h.insertItem headerPtr nextPtr
    some (h.insertFree nextPtr, ptr)
  else
    (h.rtMemheapAlloc newsize).bind fun (h, newPtr) =>
      if newPtr ≠ 0 then
        let h := h.rtMemcpy newPtr ptr (if oldsize < newsize then oldsize else newsize)
        (h.rtMemheapFree ptr).map fun h => (h, newPtr)
      else some (h, newPtr)

/-- `rt_memheap_realloc` of a block to a smaller size. -/
def shrink (h : RtMemheap) (ptr newsize : Nat) : RtMemheap × Nat :=
  let headerPtr := sub32 ptr rtMemheapSize
  let oldsize := h.memitemSize headerPtr
  -- don't split when there is less than one node space left
  if add32 newsize (rtMemheapSize + rtMemheapMinialloc) ≥ oldsize then (h, ptr)
  else
    let newPtr := add32 headerPtr (add32 newsize rtMemheapSize)
    let h := h.insertItem headerPtr newPtr
    let h :=
      if ¬ h.IsUsed (h.get newPtr .next) then
        let freePtr := h.get newPtr .next
        let h := h.setAvailable (sub32 h.availableSize (h.memitemSize freePtr))
        h.mergeNext newPtr freePtr
      else h
    let h := h.insertFree newPtr
    (h.setAvailable (add32 h.availableSize (h.memitemSize newPtr)), ptr)

/-- `rt_memheap_realloc`. -/
def rtMemheapRealloc (h : RtMemheap) (ptr newsize : Nat) : Option (RtMemheap × Nat) :=
  if newsize = 0 then (h.rtMemheapFree ptr).map fun h => (h, 0)
  else
    let newsize := request newsize
    if ptr = 0 then h.rtMemheapAlloc newsize
    else if newsize > h.memitemSize (sub32 ptr rtMemheapSize) then h.grow ptr newsize
    else some (h.shrink ptr newsize)

/-- `rt_memheap_init`, for an object at `self` with its header of the free list at `freeHeader`. -/
def rtMemheapInit (mem : Nat → UInt8) (self freeHeader startAddr size : Nat) : RtMemheap :=
  let poolSize := rtAlignDown size
  let availableSize := sub32 poolSize (2 * rtMemheapSize)
  let h : RtMemheap :=
    { mem := mem, self := self, startAddr := startAddr, poolSize := poolSize
      availableSize := availableSize, maxUsedSize := sub32 poolSize availableSize
      blockList := startAddr, freeList := freeHeader }
  -- initialize the free list header
  let h := h.set freeHeader .magic rtMemheapFreed
  let h := h.set freeHeader .poolPtr self
  let h := h.set freeHeader .next 0
  let h := h.set freeHeader .prev 0
  let h := h.set freeHeader .nextFree freeHeader
  let h := h.set freeHeader .prevFree freeHeader
  -- initialize the first big memory block
  let item := startAddr
  let h := h.set item .magic rtMemheapFreed
  let h := h.set item .poolPtr self
  let h := h.set item .next 0
  let h := h.set item .prev 0
  let h := h.set item .nextFree item
  let h := h.set item .prevFree item
  let h := h.set item .next (add32 (add32 item availableSize) rtMemheapSize)
  let h := h.set item .prev (h.get item .next)
  -- place the big memory block to free list
  let h := h.set item .nextFree (h.get h.freeList .nextFree)
  let h := h.set item .prevFree h.freeList
  let h := h.set (h.get h.freeList .nextFree) .prevFree item
  let h := h.set h.freeList .nextFree item
  -- a small tailer block prevents block merging
  let item := h.get item .next
  let h := h.set item .magic rtMemheapUsed
  let h := h.set item .poolPtr self
  let h := h.set item .next startAddr
  let h := h.set item .prev startAddr
  let h := h.set item .nextFree 0
  h.set item .prevFree 0

end RtMemheap

/-- A heap, and the blocks that clients hold. -/
structure Sys where
  heap : RtMemheap
  live : List Nat

/-- A call, or a client that stores a byte in a block. -/
inductive Act
  | alloc (size : Nat)
  | realloc (ptr newsize : Nat)
  | free (ptr : Nat)
  | store (ptr addr : Nat) (v : UInt8)

namespace Sys

open RtMemheap

/-- A pointer that may be passed to a call. -/
def Passes (s : Sys) (ptr : Nat) : Prop := ptr = 0 ∨ ptr ∈ s.live

instance (s : Sys) (ptr : Nat) : Decidable (s.Passes ptr) :=
  inferInstanceAs (Decidable (ptr = 0 ∨ ptr ∈ s.live))

/-- One step of a run; sizes are of 32 bits. -/
def exec (s : Sys) : Act → Option Sys
  | .alloc size =>
    if size < 2 ^ 32 then
      (s.heap.rtMemheapAlloc size).map fun (heap, ptr) =>
        { heap := heap, live := if ptr = 0 then s.live else ptr :: s.live }
    else none
  | .realloc ptr newsize =>
    if s.Passes ptr ∧ newsize < 2 ^ 32 then
      (s.heap.rtMemheapRealloc ptr newsize).map fun (heap, newPtr) =>
        { heap := heap
          live :=
            if newPtr ≠ 0 then newPtr :: s.live.erase ptr
            -- a block that could not grow stays allocated
            else if newsize = 0 then s.live.erase ptr else s.live }
    else none
  | .free ptr =>
    if s.Passes ptr then
      (s.heap.rtMemheapFree ptr).map fun heap => { heap := heap, live := s.live.erase ptr }
    else none
  | .store ptr addr v =>
    if ptr ∈ s.live ∧ ptr ≤ addr ∧ addr < ptr + s.heap.memitemSize (sub32 ptr rtMemheapSize) then
      some { s with heap := { s.heap with mem := store8 s.heap.mem addr v } }
    else none

end Sys

end RtKernel.Memheap

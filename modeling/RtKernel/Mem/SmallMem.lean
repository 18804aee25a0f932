import RtKernel.Core.Word

/-!
# The small memory management algorithm

A heap is one region of 32-bit words. Item headers lie inside it, three words
each, and the `next` and `prev` words of a header are byte offsets from
`heap_ptr`. Pointers to items are kept as such offsets; the pointers given to
and returned by the interface are absolute addresses, with `0` for `RT_NULL`.
A failed `RT_ASSERT` stops the system: the functions return `none` there.
-/

namespace RtKernel.Mem

/-- `SIZEOF_STRUCT_MEM`: the words `pool_ptr`, `next` and `prev`. -/
def sizeofStructMem : Nat := 12

/-- `MIN_SIZE`. -/
def minSize : Nat := 12

/-- `MIN_SIZE_ALIGNED`. -/
def minSizeAligned : Nat := 12

/-- `sizeof(struct rt_small_mem)`. -/
def sizeofSmallMem : Nat := 56

/-- `MEM_MASK`. -/
def memMask : Nat := 0xfffffffe

/-- `struct rt_small_mem` together with the words of its heap. -/
structure RtSmallMem where
  /-- Address of the structure itself. -/
  addr : Nat
  /-- `heap_ptr`. -/
  heapPtr : Nat
  /-- Offset of `heap_end`. -/
  heapEnd : Nat
  /-- Offset of `lfree`. -/
  lfree : Nat
  /-- `mem_size_aligned`. -/
  memSizeAligned : Nat
  /-- `parent.used`. -/
  used : Nat
  /-- `parent.max`. -/
  max : Nat
  /-- The word at each byte offset from `heap_ptr`. -/
  word : Nat → Nat

namespace RtSmallMem

/-- Store one word of the heap. -/
def setWord (m : RtSmallMem) (o v : Nat) : RtSmallMem :=
  { m with word := fun x => if x = o then v else m.word x }

/-- `mem->pool_ptr`. -/
def poolPtr (m : RtSmallMem) (mem : Nat) : Nat := m.word mem

/-- `mem->next`. -/
def next (m : RtSmallMem) (mem : Nat) : Nat := m.word (mem + 4)

/-- `mem->prev`. -/
def prev (m : RtSmallMem) (mem : Nat) : Nat := m.word (mem + 8)

def setPoolPtr (m : RtSmallMem) (mem v : Nat) : RtSmallMem := m.setWord mem v

def setNext (m : RtSmallMem) (mem v : Nat) : RtSmallMem := m.setWord (mem + 4) v

def setPrev (m : RtSmallMem) (mem v : Nat) : RtSmallMem := m.setWord (mem + 8) v

/-- `MEM_USED()`. -/
def memUsed (m : RtSmallMem) : Nat := (m.addr &&& memMask) ||| 1

/-- `MEM_FREED()`. -/
def memFreed (m : RtSmallMem) : Nat := (m.addr &&& memMask) ||| 0

/-- `MEM_ISUSED(mem)`. -/
def memIsUsed (m : RtSmallMem) (mem : Nat) : Prop := m.poolPtr mem &&& 1 ≠ 0

instance (m : RtSmallMem) (mem : Nat) : Decidable (m.memIsUsed mem) :=
  inferInstanceAs (Decidable (_ ≠ _))

/-- `MEM_POOL(mem)`. -/
def memPool (m : RtSmallMem) (mem : Nat) : Nat := m.poolPtr mem &&& memMask

end RtSmallMem

open RtSmallMem

/-- The combining step of `plug_holes`: the item `nmem` after `mem` is dropped
and `mem` runs up to the item that followed it. -/
def combine (m : RtSmallMem) (mem nmem : Nat) : RtSmallMem :=
  let m := if m.lfree = nmem then { m with lfree := mem } else m
  let m := m.setPoolPtr nmem 0
  let m := m.setNext mem (m.next nmem)
  m.setPrev (m.next nmem) mem

/-- `plug_holes`. -/
def plugHoles (m : RtSmallMem) (mem : Nat) : Option RtSmallMem :=
  if mem < m.heapEnd then
    -- plug hole forward
    let nmem := m.next mem
    let m := if mem ≠ nmem ∧ ¬ m.memIsUsed nmem ∧ nmem ≠ m.heapEnd then combine m mem nmem else m
    -- plug hole backward
    let pmem := m.prev mem
    some (if pmem ≠ mem ∧ ¬ m.memIsUsed pmem then combine m pmem mem else m)
  else none

/-- The stores of `rt_smem_init` into the heap: one free item and `heap_end`. -/
def layOut (m : RtSmallMem) : RtSmallMem :=
  -- the start of the heap
  let m := m.setPoolPtr 0 m.memFreed
  let m := m.setNext 0 (add32 m.memSizeAligned sizeofStructMem)
  let m := m.setPrev 0 0
  -- the end of the heap
  let m := { m with heapEnd := m.next 0 }
  let m := m.setPoolPtr m.heapEnd m.memUsed
  let m := m.setNext m.heapEnd (add32 m.memSizeAligned sizeofStructMem)
  let m := m.setPrev m.heapEnd (add32 m.memSizeAligned sizeofStructMem)
  { m with lfree := 0 }

/-- `rt_smem_init`. The heap words keep whatever the region held before. -/
def rtSmemInit (word : Nat → Nat) (beginAddr size : UInt32) : Option RtSmallMem :=
  let smallMem := rtAlign beginAddr.toNat
  let startAddr := add32 smallMem sizeofSmallMem
  let beginAlign := rtAlign startAddr
  let endAlign := rtAlignDown (add32 beginAddr.toNat size.toNat)
  if endAlign > 2 * sizeofStructMem ∧ sub32 endAlign (2 * sizeofStructMem) ≥ startAddr then
    let memSize := sub32 (sub32 endAlign beginAlign) (2 * sizeofStructMem)
    some (layOut
      { addr := smallMem, heapPtr := beginAlign, heapEnd := 0, lfree := 0,
        memSizeAligned := memSize, used := 0, max := 0, word := word })
  else none

/-- Account for `n` more bytes in `parent.used` and `parent.max`. -/
def charge (m : RtSmallMem) (n : Nat) : RtSmallMem :=
  let used := add32 m.used n
  { m with used := used, max := if m.max < used then used else m.max }

/-- Does the item at `ptr` serve a request of `size` bytes? -/
def fits (m : RtSmallMem) (size ptr : Nat) : Prop :=
  ¬ m.memIsUsed ptr ∧ sub32 (m.next ptr) (add32 ptr sizeofStructMem) ≥ size

instance (m : RtSmallMem) (size ptr : Nat) : Decidable (fits m size ptr) :=
  inferInstanceAs (Decidable (_ ∧ _))

/-- The `for` loop of `rt_smem_alloc`, up to the item it stops at. The outer
option is empty when the fuel does not suffice. -/
def findFit (m : RtSmallMem) (size : Nat) : Nat → Nat → Option (Option Nat)
  | 0, _ => none
  | fuel + 1, ptr =>
    if ptr ≤ sub32 m.memSizeAligned size then
      if fits m size ptr then some (some ptr) else findFit m size fuel (m.next ptr)
    else some none

/-- The `while` loop of `rt_smem_alloc` that moves `lfree` to the next free item. -/
def nextFree (m : RtSmallMem) : Nat → Nat → Option Nat
  | 0, _ => none
  | fuel + 1, lfree =>
    if m.memIsUsed lfree ∧ lfree ≠ m.heapEnd then nextFree m fuel (m.next lfree) else some lfree

/-- Cut a new free item at `ptr2` out of the item at `ptr`. -/
def splitItem (m : RtSmallMem) (ptr ptr2 : Nat) : RtSmallMem :=
  let m := m.setPoolPtr ptr2 m.memFreed
  let m := m.setNext ptr2 (m.next ptr)
  let m := m.setPrev ptr2 ptr
  let m := m.setNext ptr ptr2
  if m.next ptr2 ≠ add32 m.memSizeAligned sizeofStructMem then m.setPrev (m.next ptr2) ptr2 else m

/-- Steps enough for every loop over the items of the heap. -/
def loopFuel (m : RtSmallMem) : Nat := m.heapEnd + 2

/-- The body of `rt_smem_alloc` once an item that fits is found. -/
def takeItem (m : RtSmallMem) (size ptr : Nat) : Option RtSmallMem :=
  let m :=
    if sub32 (m.next ptr) (add32 ptr sizeofStructMem) ≥
        add32 (add32 size sizeofStructMem) minSizeAligned then
      charge (splitItem m ptr (add32 (add32 ptr sizeofStructMem) size)) (add32 size sizeofStructMem)
    else charge m (sub32 (m.next ptr) ptr)
  let m := m.setPoolPtr ptr m.memUsed
  if ptr = m.lfree then (nextFree m (loopFuel m) m.lfree).map fun l => { m with lfree := l }
  else some m

/-- `rt_smem_alloc`, with the address it returns. -/
def rtSmemAlloc (m : RtSmallMem) (size : UInt32) : Option (RtSmallMem × Nat) :=
  if size.toNat = 0 then some (m, 0)
  else
    let size := rtAlign size.toNat
    let size := if size < minSizeAligned then minSizeAligned else size
    if size > m.memSizeAligned then some (m, 0)
    else
      match findFit m size (loopFuel m) m.lfree with
      | none => none
      | some none => some (m, 0)
      | some (some ptr) =>
        match takeItem m size ptr with
        | none => none
        | some m =>
          let mem := add32 m.heapPtr ptr
          -- the assertions at the end of the loop body
          if (m.lfree = m.heapEnd ∨ ¬ m.memIsUsed m.lfree) ∧
              add32 (add32 mem sizeofStructMem) size ≤ add32 m.heapPtr m.heapEnd ∧
              add32 mem sizeofStructMem % rtAlignSize = 0 then
            some (m, add32 mem sizeofStructMem)
          else none

/-- The offset of the item whose data starts at the address `rmem`. -/
def itemOf (m : RtSmallMem) (rmem : Nat) : Nat := sub32 (sub32 rmem sizeofStructMem) m.heapPtr

/-- The range assertions on a pointer given back by a client. -/
def inHeap (m : RtSmallMem) (rmem : Nat) : Prop :=
  rmem % rtAlignSize = 0 ∧ rmem ≥ m.heapPtr ∧ rmem < add32 m.heapPtr m.heapEnd

instance (m : RtSmallMem) (rmem : Nat) : Decidable (inHeap m rmem) :=
  inferInstanceAs (Decidable (_ ∧ _))

/-- `rt_smem_free`. The heap of the item is found through its `pool_ptr`; it is this one. -/
def rtSmemFree (m : RtSmallMem) (rmem : Nat) : Option RtSmallMem :=
  if rmem = 0 then some m
  else
    let mem := itemOf m rmem
    if m.memPool mem = m.addr ∧ m.addr ≠ 0 ∧ m.memIsUsed mem ∧ inHeap m rmem ∧
        m.memPool (m.next mem) = m.addr then
      let m := m.setPoolPtr mem m.memFreed
      let m := if mem < m.lfree then { m with lfree := mem } else m
      let m := { m with used := sub32 m.used (sub32 (m.next mem) mem) }
      plugHoles m mem
    else none

/-- `rt_memcpy` of `n` words between two word-aligned offsets of the heap. -/
def copyWords (m : RtSmallMem) (dst src : Nat) : Nat → RtSmallMem
  | 0 => m
  | n + 1 => (copyWords m dst src n).setWord (dst + 4 * n) ((copyWords m dst src n).word (src + 4 * n))

/-- `rt_smem_realloc`, with the address it returns. -/
def rtSmemRealloc (m : RtSmallMem) (rmem : Nat) (newsize : UInt32) :
    Option (RtSmallMem × Nat) :=
  let newsize := rtAlign newsize.toNat
  if newsize > m.memSizeAligned then some (m, 0)
  else if newsize = 0 then (rtSmemFree m rmem).map fun m => (m, 0)
  else if rmem = 0 then rtSmemAlloc m (UInt32.ofNat newsize)
  else if inHeap m rmem then
    let mem := itemOf m rmem
    let size := sub32 (sub32 (m.next mem) mem) sizeofStructMem
    if size = newsize then some (m, rmem)
    else if add32 (add32 newsize sizeofStructMem) minSize < size then
      -- split memory block
      let m := { m with used := sub32 m.used (sub32 size newsize) }
      let ptr2 := add32 (add32 mem sizeofStructMem) newsize
      let m := splitItem m mem ptr2
      let m := if ptr2 < m.lfree then { m with lfree := ptr2 } else m
      (plugHoles m ptr2).map fun m => (m, rmem)
    else
      -- expand memory
      match rtSmemAlloc m (UInt32.ofNat newsize) with
      | none => none
      | some (m, nmem) =>
        if nmem ≠ 0 then
          let m := copyWords m (sub32 nmem m.heapPtr) (sub32 rmem m.heapPtr)
            ((if size < newsize then size else newsize) / 4)
          (rtSmemFree m rmem).map fun m => (m, nmem)
        else some (m, nmem)
  else none

end RtKernel.Mem

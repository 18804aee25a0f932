import RtKernel.Core.Chain
import RtKernel.Core.Run
import RtKernel.Core.Word

/-!
# Ring block buffers

Blocks of any size are allocated one behind the other in a buffer, and freed in
any order. The descriptors of the blocks come from a fixed set; each is a node of
the list of the blocks in use or of the list of free descriptors.
-/

namespace RtKernel.Rbb

/-- `rt_rbb_status_t`. -/
inductive Status
  | unused
  | inited
  | put
  | get
  deriving DecidableEq

/-- `struct rt_rbb_blk`; its list node is kept with the object. -/
structure RtRbbBlk where
  status : Status
  size : Nat
  buf : Nat
  deriving DecidableEq

/-- The nodes of the lists: their heads, and the descriptors. -/
inductive Node
  | blkList
  | freeList
  | blk (i : Nat)
  deriving DecidableEq

/-- `struct rt_rbb`, with the links of all nodes. -/
structure RtRbb where
  buf : Nat
  bufSize : Nat
  blkSet : Nat → RtRbbBlk
  blkMaxNum : Nat
  next : Node → Option Nat
  tail : Node

namespace RtRbb

def setNext (rbb : RtRbb) (node : Node) (p : Option Nat) : RtRbb :=
  { rbb with next := Function.update rbb.next node p }

def setBlk (rbb : RtRbb) (i : Nat) (blk : RtRbbBlk) : RtRbb :=
  { rbb with blkSet := Function.update rbb.blkSet i blk }

def setStatus (rbb : RtRbb) (i : Nat) (status : Status) : RtRbb :=
  rbb.setBlk i { rbb.blkSet i with status := status }

end RtRbb

/-- `rt_slist_insert`. -/
def rtSlistInsert (rbb : RtRbb) (l : Node) (n : Nat) : RtRbb :=
  (rbb.setNext (.blk n) (rbb.next l)).setNext l (some n)

/-- The loop of `rt_slist_remove` and `list_remove`: the node in front of `n`, or the last one. -/
def seek (rbb : RtRbb) (n : Nat) : Nat → Node → Option Node
  | 0, _ => none
  | turns + 1, node =>
      match rbb.next node with
      | none => some node
      | some m => if m = n then some node else seek rbb n turns (.blk m)

/-- `rt_slist_remove`. -/
def rtSlistRemove (rbb : RtRbb) (l : Node) (n : Nat) : Option RtRbb :=
  (seek rbb n (rbb.blkMaxNum + 1) l).map fun node =>
    match rbb.next node with
    | none => rbb
    | some m => rbb.setNext node (rbb.next (.blk m))

/-- The loop of `rt_rbb_init`. -/
def initBlocks (rbb : RtRbb) : Nat → RtRbb
  | 0 => rbb
  | i + 1 =>
      let rbb := (initBlocks rbb i).setStatus i .unused
      rtSlistInsert (rbb.setNext (.blk i) none) .freeList i

/-- `rt_rbb_init` of a set of descriptors. -/
def rtRbbInit (buf bufSize : Nat) (blockSet : Nat → RtRbbBlk) (blkMaxNum : Nat) : RtRbb :=
  initBlocks
    { buf := buf, bufSize := bufSize, blkSet := blockSet, blkMaxNum := blkMaxNum
      next := fun _ => none, tail := .blkList } blkMaxNum

/-- `find_empty_blk_in_set`; there is no result where the assertion fails. -/
def findEmptyBlkInSet (rbb : RtRbb) : Option (RtRbb × Option Nat) :=
  match rbb.next .freeList with
  | none => some (rbb, none)
  | some blk =>
      (rtSlistRemove rbb .freeList blk).bind fun rbb =>
        if (rbb.blkSet blk).status = .unused then some (rbb, some blk) else none

/-- `list_append`. -/
def listAppend (rbb : RtRbb) (n : Nat) : RtRbb :=
  let rbb := rbb.setNext rbb.tail (some n)
  let rbb := rbb.setNext (.blk n) none
  { rbb with tail := .blk n }

/-- `list_remove`. -/
def listRemove (rbb : RtRbb) (n : Nat) : Option RtRbb :=
  (seek rbb n (rbb.blkMaxNum + 1) .blkList).map fun node =>
    match rbb.next node with
    | none => rbb
    | some m =>
        let rbb := rbb.setNext node (rbb.next (.blk m))
        let rbb := rbb.setNext (.blk n) none
        if rbb.tail = .blk n then { rbb with tail := node } else rbb

/-- The new block is appended and placed at `buf`. -/
def place (rbb : RtRbb) (newRbb buf blkSize : Nat) : RtRbb × Option Nat :=
  ((listAppend rbb newRbb).setBlk newRbb { status := .inited, size := blkSize, buf := buf },
    some newRbb)

/-- What `rt_rbb_blk_alloc` does with the descriptor it has found. -/
def placeNew (rbb : RtRbb) (newRbb blkSize : Nat) : Option (RtRbb × Option Nat) :=
  match rbb.next .blkList, rbb.tail with
  | some head, .blk tail =>
      let head := rbb.blkSet head
      let tail := rbb.blkSet tail
      if head.buf ≤ tail.buf then
        let empty1 := sub32 (add32 rbb.buf rbb.bufSize) (add32 tail.buf tail.size)
        let empty2 := sub32 head.buf rbb.buf
        if blkSize ≤ empty1 then some (place rbb newRbb (add32 tail.buf tail.size) blkSize)
        else if blkSize ≤ empty2 then some (place rbb newRbb rbb.buf blkSize)
        else some (rbb, none) -- no space
      else
        let empty1 := sub32 head.buf (add32 tail.buf tail.size)
        if blkSize ≤ empty1 then some (place rbb newRbb (add32 tail.buf tail.size) blkSize)
        else some (rbb, none) -- no space
  | some _, _ => none -- the tail of a list that is not empty is a block
  | none, _ => some (place rbb newRbb rbb.buf blkSize)

/-- `rt_rbb_blk_alloc`. -/
def rtRbbBlkAlloc (rbb : RtRbb) (blkSize : Nat) : Option (RtRbb × Option Nat) :=
  if 2 ^ 24 ≤ blkSize then none -- RT_ASSERT(blk_size < (1L << 24))
  else
    (findEmptyBlkInSet rbb).bind fun (rbb, newRbb) =>
      match newRbb with
      | none => some (rbb, none)
      | some newRbb => placeNew rbb newRbb blkSize

/-- `rt_rbb_blk_put`. -/
def rtRbbBlkPut (rbb : RtRbb) (block : Nat) : Option RtRbb :=
  if (rbb.blkSet block).status = .inited then some (rbb.setStatus block .put) else none

/-- The loop of `rt_rbb_blk_get`. -/
def findPut (rbb : RtRbb) : Nat → Option Nat → Option (Option Nat)
  | _, none => some none
  | 0, some _ => none
  | turns + 1, some node =>
      if (rbb.blkSet node).status = .put then some (some node)
      else findPut rbb turns (rbb.next (.blk node))

/-- `rt_rbb_blk_get`. -/
def rtRbbBlkGet (rbb : RtRbb) : Option (RtRbb × Option Nat) :=
  (findPut rbb rbb.blkMaxNum (rbb.next .blkList)).map fun block =>
    match block with
    | none => (rbb, none)
    | some block => (rbb.setStatus block .get, some block)

/-- `rt_rbb_blk_free`. -/
def rtRbbBlkFree (rbb : RtRbb) (block : Nat) : Option RtRbb :=
  if (rbb.blkSet block).status = .unused then none -- RT_ASSERT
  else
    (listRemove rbb block).map fun rbb =>
      rtSlistInsert (rbb.setStatus block .unused) .freeList block

/-- A call on the object; `block` is the number of a descriptor. -/
inductive Act
  | alloc (blkSize : Nat)
  | put (block : Nat)
  | get
  | free (block : Nat)

/-- What a call leaves, and the block it returns; there is nothing where an assertion fails. -/
def call (rbb : RtRbb) : Act → Option (RtRbb × Option Nat)
  | .alloc blkSize => rtRbbBlkAlloc rbb blkSize
  | .put block =>
      if block < rbb.blkMaxNum then (rtRbbBlkPut rbb block).map fun rbb => (rbb, none) else none
  | .get => rtRbbBlkGet rbb
  | .free block =>
      if block < rbb.blkMaxNum then (rtRbbBlkFree rbb block).map fun rbb => (rbb, none) else none

def exec (rbb : RtRbb) (a : Act) : Option RtRbb := (call rbb a).map Prod.fst

def Step (rbb : RtRbb) (a : Act) (rbb' : RtRbb) : Prop := exec rbb a = some rbb'

/-- The object has just been initialised, with a buffer in memory. -/
def Initial (rbb : RtRbb) : Prop :=
  ∃ buf bufSize blockSet blkMaxNum, 0 < buf ∧ buf + bufSize ≤ 2 ^ 32 ∧
    rbb = rtRbbInit buf bufSize blockSet blkMaxNum

end RtKernel.Rbb

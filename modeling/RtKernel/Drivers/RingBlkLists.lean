import Mathlib.Data.List.Perm.Subperm
import Mathlib.Data.List.Range
import RtKernel.Drivers.RingBlkBuf

/-!
# The lists of a ring block buffer

The descriptors in use and the free ones are in two lists, and an allocation takes
one from the free list before it looks for space. Where it finds none, it returns
without the descriptor in either list.
-/

open List Option

namespace RtKernel.Rbb

open Function

variable {rbb rbb' : RtRbb} {used free : List Nat} {n : Nat} {node : Node}

/-- The link of a descriptor. -/
def RtRbb.nextBlk (rbb : RtRbb) (i : Nat) : Option Nat := rbb.next (.blk i)

/-- The last node of a list with the head. -/
def lastNode (head : Node) (l : List Nat) : Node := l.getLast?.elim head .blk

/-- The nodes of the two lists. -/
structure Lists (rbb : RtRbb) (used free : List Nat) : Prop where
  blkList : Linked rbb.nextBlk (rbb.next .blkList) used
  freeList : Linked rbb.nextBlk (rbb.next .freeList) free
  tail : rbb.tail = lastNode .blkList used
  nodup : (used ++ free).Nodup
  member : ∀ i ∈ used ++ free, i < rbb.blkMaxNum
  status : ∀ i < rbb.blkMaxNum, (rbb.blkSet i).status ≠ .unused ↔ i ∈ used

theorem blkList_ne_blk (i : Nat) : Node.blkList ≠ .blk i := nofun

theorem freeList_ne_blk (i : Nat) : Node.freeList ≠ .blk i := nofun

theorem blkList_ne_freeList : Node.blkList ≠ .freeList := nofun

theorem nextBlk_setNext_blk (rbb : RtRbb) (i : Nat) (p : Option Nat) :
    (rbb.setNext (.blk i) p).nextBlk = update rbb.nextBlk i p := by
  funext j
  by_cases hj : j = i
  · subst hj
    simp [RtRbb.nextBlk, RtRbb.setNext]
  · have hne : Node.blk j ≠ .blk i := fun h => hj (Node.blk.inj h)
    rw [update_of_ne hj]
    exact update_of_ne hne ..

theorem nextBlk_setNext_of_ne (rbb : RtRbb) (h : ∀ i, node ≠ .blk i) (p : Option Nat) :
    (rbb.setNext node p).nextBlk = rbb.nextBlk := by
  funext j
  exact update_of_ne (h j).symm ..

theorem next_setNext_self (rbb : RtRbb) (node : Node) (p : Option Nat) :
    (rbb.setNext node p).next node = p := update_self ..

theorem next_setNext_of_ne (rbb : RtRbb) {node node' : Node} (h : node' ≠ node) (p : Option Nat) :
    (rbb.setNext node p).next node' = rbb.next node' := update_of_ne h ..

section

variable (head : Node)
include head

theorem lastNode_nil : lastNode head [] = head := rfl

theorem lastNode_cons (n : Nat) (l : List Nat) : lastNode head (n :: l) = lastNode (.blk n) l := by
  cases l with
  | nil => rfl
  | cons m l =>
    unfold lastNode
    rfl

theorem lastNode_concat (l : List Nat) (n : Nat) : lastNode head (l ++ [n]) = .blk n := by
  unfold lastNode
  rw [List.getLast?_concat]
  rfl

theorem lastNode_append (front : List Nat) (n : Nat) (back : List Nat) :
    lastNode head (front ++ n :: back) = lastNode (.blk n) back := by
  induction front generalizing head with
  | nil => exact lastNode_cons head n back
  | cons m rest ih => exact (lastNode_cons head m _).trans (ih _)

end

theorem seek_eq (front : List Nat) {back : List Nat} {turns : Nat}
    (h : Linked rbb.nextBlk (rbb.next node) (front ++ n :: back)) (hn : n ∉ front)
    (hturns : front.length < turns) : seek rbb n turns node = some (lastNode node front) := by
  induction front generalizing node turns with
  | nil =>
    obtain ⟨turns, rfl⟩ := Nat.exists_eq_succ_of_ne_zero (Nat.ne_of_gt hturns)
    unfold seek
    rw [h.1]
    exact if_pos rfl
  | cons m rest ih =>
    obtain ⟨turns, rfl⟩ := Nat.exists_eq_succ_of_ne_zero (Nat.ne_of_gt (Nat.lt_of_le_of_lt (Nat.zero_le _) hturns))
    obtain ⟨hm, hrest⟩ := h
    rw [mem_cons, not_or] at hn
    have hne : m ≠ n := fun he => hn.1 he.symm
    unfold seek
    rw [hm, lastNode_cons]
    simp only [if_neg hne]
    exact ih hrest hn.2 (Nat.lt_of_succ_lt_succ hturns)

theorem next_lastNode {front back : List Nat}
    (h : Linked rbb.nextBlk (rbb.next node) (front ++ n :: back)) :
    rbb.next (lastNode node front) = some n := by
  induction front generalizing node with
  | nil => exact h.1
  | cons m rest ih =>
    rw [lastNode_cons]
    exact ih h.2

/-- A node is taken out of the list behind a head. -/
theorem linked_unlink {head : Node} (hhead : ∀ i, head ≠ .blk i) {front back : List Nat}
    (h : Linked rbb.nextBlk (rbb.next head) (front ++ n :: back))
    (hnodup : (front ++ n :: back).Nodup) :
    let rbb' := rbb.setNext (lastNode head front) (rbb.next (.blk n))
    Linked rbb'.nextBlk (rbb'.next head) (front ++ back) := by
  cases hlast : front.getLast? with
  | none =>
    obtain rfl := List.getLast?_eq_none_iff.mp hlast
    simp only [lastNode_nil]
    rw [nextBlk_setNext_of_ne rbb hhead, next_setNext_self]
    exact h.2
  | some last =>
    have hnode : lastNode head front = .blk last := by
      rw [lastNode, hlast]
      rfl
    simp only [hnode]
    rw [nextBlk_setNext_blk, next_setNext_of_ne rbb (hhead last)]
    exact h.unlink hlast hnodup

/-- The link of a node of one list does not matter to the other list. -/
theorem linked_setNext {head node : Node} {l : List Nat} (hne : head ≠ node)
    (hnode : ∀ i ∈ l, node ≠ .blk i) (p : Option Nat) (h : Linked rbb.nextBlk (rbb.next head) l) :
    Linked (rbb.setNext node p).nextBlk ((rbb.setNext node p).next head) l := by
  rw [next_setNext_of_ne rbb hne]
  apply h.congr
  intro i hi
  exact update_of_ne (hnode i hi).symm ..

theorem lastNode_ne {head node : Node} {l : List Nat} (hhead : head ≠ node)
    (hnode : ∀ i ∈ l, node ≠ .blk i) : lastNode head l ≠ node := by
  unfold lastNode
  cases hlast : l.getLast? with
  | none => exact hhead
  | some last => exact (hnode last (mem_of_getLast? hlast)).symm

namespace Lists

section

variable (h : Lists rbb used free)
include h

theorem length_le : used.length ≤ rbb.blkMaxNum := by
  have hnodup := (nodup_append.mp h.nodup).1
  have hsub : used ⊆ List.range rbb.blkMaxNum := by
    intro i hi
    exact mem_range.mpr (h.member i (mem_append_left _ hi))
  have hle := (List.Nodup.subperm hnodup hsub).length_le
  rwa [length_range] at hle

/-- The first free descriptor is taken out of its list. -/
theorem findEmptyBlkInSet_eq : (free = [] ∧ findEmptyBlkInSet rbb = some (rbb, none)) ∨
      ∃ n rest, free = n :: rest ∧
        findEmptyBlkInSet rbb = some (rbb.setNext .freeList (rbb.next (.blk n)), some n) ∧
        Lists (rbb.setNext .freeList (rbb.next (.blk n))) used rest ∧ n ∉ used ∧ n ∉ rest ∧
        n < rbb.blkMaxNum := by
  cases free with
  | nil =>
    refine .inl ⟨rfl, ?_⟩
    unfold findEmptyBlkInSet
    rw [h.freeList.nil_iff.mpr rfl]
  | cons n rest =>
    have hfirst : rbb.next .freeList = some n := h.freeList.1
    have hnodup : (used ++ rest).Nodup ∧ n ∉ used ∧ n ∉ rest := by
      have hn := h.nodup
      rw [nodup_middle, nodup_cons, mem_append, not_or] at hn
      exact ⟨hn.2, hn.1⟩
    have hmax : n < rbb.blkMaxNum := h.member n (mem_append_right _ (.head _))
    have hunused : (rbb.blkSet n).status = .unused := by
      by_contra hne
      exact hnodup.2.1 ((h.status n hmax).mp hne)
    refine .inr ⟨n, rest, rfl, ?_, ?_, hnodup.2.1, hnodup.2.2, hmax⟩
    · have hseek : seek rbb n (rbb.blkMaxNum + 1) .freeList = some .freeList :=
        seek_eq [] h.freeList not_mem_nil (Nat.succ_pos _)
      unfold findEmptyBlkInSet rtSlistRemove
      simp only [hfirst, hseek, map_some, bind_some, RtRbb.setNext]
      exact if_pos hunused
    · refine ⟨?_, ?_, h.tail, hnodup.1, ?_, h.status⟩
      · exact linked_setNext blkList_ne_freeList (fun i _ => freeList_ne_blk i) _ h.blkList
      · rw [nextBlk_setNext_of_ne rbb freeList_ne_blk]
        exact h.freeList.2
      · intro i hi
        apply h.member i
        rw [mem_append] at hi ⊢
        exact hi.imp_right (mem_cons_of_mem n)

/-- A descriptor in neither list is appended and becomes a block. -/
theorem place (hn : n < rbb.blkMaxNum) (hused : n ∉ used) (hfree : n ∉ free)
    (buf blkSize : Nat) : Lists (place rbb n buf blkSize).1 (used ++ [n]) free := by
  obtain ⟨rbb₁, hrbb₁⟩ : ∃ rbb₁, rbb₁ = rbb.setNext rbb.tail (some n) := ⟨_, rfl⟩
  have hnodup : (used ++ [n] ++ free).Nodup := by
    rw [append_assoc, singleton_append, nodup_middle, nodup_cons,
      mem_append, not_or]
    exact ⟨⟨hused, hfree⟩, h.nodup⟩
  have hdisj := (nodup_append.mp h.nodup).2.2
  have htail : ∀ i ∈ free, rbb.tail ≠ .blk i := by
    intro i hi
    rw [h.tail]
    apply lastNode_ne (blkList_ne_blk i)
    intro j hj he
    exact hdisj j hj i hi (Node.blk.inj he).symm
  have hfreeList : Linked rbb₁.nextBlk (rbb₁.next .freeList) free := by
    rw [hrbb₁]
    apply linked_setNext _ htail _ h.freeList
    rw [h.tail]
    exact (lastNode_ne blkList_ne_freeList fun j _ => freeList_ne_blk j).symm
  have hblkList : Linked (rbb₁.setNext (.blk n) none).nextBlk
      ((rbb₁.setNext (.blk n) none).next .blkList) (used ++ [n]) := by
    have hnodup₁ := (nodup_append.mp h.nodup).1
    cases hlast : used.getLast? with
    | none =>
      obtain rfl := List.getLast?_eq_none_iff.mp hlast
      have hnode : rbb.tail = .blkList := h.tail
      rw [hrbb₁, hnode]
      exact ⟨rfl, update_self ..⟩
    | some last =>
      have hnode : rbb.tail = .blk last := by
        rw [h.tail, lastNode, hlast]
        rfl
      have hne : n ≠ last := fun he => hused (he ▸ mem_of_getLast? hlast)
      rw [next_setNext_of_ne rbb₁ (blkList_ne_blk n), nextBlk_setNext_blk, hrbb₁, hnode,
        nextBlk_setNext_blk, next_setNext_of_ne rbb (blkList_ne_blk last), update_comm hne.symm]
      apply (h.blkList.update hused none).append hlast hnodup₁ hused
      exact update_self ..
  subst hrbb₁
  refine ⟨hblkList, ?_, ?_, hnodup, ?_, ?_⟩
  · apply linked_setNext (freeList_ne_blk n) _ none hfreeList
    intro i hi he
    obtain rfl := Node.blk.inj he
    exact hfree hi
  · exact (lastNode_concat _ _ _).symm
  · intro i hi
    rw [append_assoc, singleton_append, mem_append, mem_cons] at hi
    rcases hi with hi | rfl | hi
    · exact h.member i (mem_append_left _ hi)
    · exact hn
    · exact h.member i (mem_append_right _ hi)
  · intro i hi
    rw [mem_append, ← h.status i hi]
    by_cases hin : i = n
    · subst hin
      simp [Rbb.place, RtRbb.setBlk]
    · simp [Rbb.place, RtRbb.setBlk, listAppend, RtRbb.setNext, hin]

theorem setStatus {status : Status}
    (hold : (rbb.blkSet n).status ≠ .unused) (hnew : status ≠ .unused) :
    Lists (rbb.setStatus n status) used free := by
  refine ⟨h.blkList, h.freeList, h.tail, h.nodup, h.member, ?_⟩
  intro i hi
  rw [← h.status i hi]
  by_cases hin : i = n
  · subst hin
    simp [RtRbb.setStatus, RtRbb.setBlk, hold, hnew]
  · simp [RtRbb.setStatus, RtRbb.setBlk, update_of_ne hin]

theorem listRemove_eq (hn : n ∈ used) :
    ∃ front back rbb', used = front ++ n :: back ∧ listRemove rbb n = some rbb' ∧
      Linked rbb'.nextBlk (rbb'.next .blkList) (front ++ back) ∧
      Linked rbb'.nextBlk (rbb'.next .freeList) free ∧
      rbb'.tail = lastNode .blkList (front ++ back) ∧
      rbb'.blkSet = rbb.blkSet ∧ rbb'.buf = rbb.buf ∧ rbb'.bufSize = rbb.bufSize ∧
      rbb'.blkMaxNum = rbb.blkMaxNum := by
  obtain ⟨front, back, hsplit⟩ := append_of_mem hn
  obtain ⟨hnodup, hnodupFree, hdisj⟩ := nodup_append.mp h.nodup
  have hlinked := h.blkList
  have hlength := h.length_le
  rw [hsplit] at hlinked hnodup hlength
  rw [length_append] at hlength
  obtain ⟨hnfront, hnback⟩ : n ∉ front ∧ n ∉ back := by
    rw [nodup_middle, nodup_cons, mem_append, not_or] at hnodup
    exact hnodup.1
  have hnrest : n ∉ front ++ back := by
    rw [mem_append, not_or]
    exact ⟨hnfront, hnback⟩
  have hnfree : n ∉ free := fun hf => hdisj n hn n hf rfl
  have hsub : ∀ i ∈ front ++ back, i ∈ used := by
    intro i hi
    rw [hsplit]
    rw [mem_append] at hi ⊢
    exact hi.imp_right (mem_cons_of_mem n)
  obtain ⟨node, hnode⟩ : ∃ node, node = lastNode .blkList front := ⟨_, rfl⟩
  have hnodeFree : ∀ i ∈ free, node ≠ .blk i := by
    intro i hi
    rw [hnode]
    apply lastNode_ne (blkList_ne_blk i)
    intro j hj he
    exact hdisj j (hsub j (mem_append_left _ hj)) i hi (Node.blk.inj he).symm
  have hnodeHead : Node.freeList ≠ node := by
    rw [hnode]
    exact (lastNode_ne blkList_ne_freeList fun j _ => freeList_ne_blk j).symm
  -- the links after the node has been taken out, and after its own link is cleared
  obtain ⟨rbb₁, hrbb₁⟩ : ∃ rbb₁, rbb₁ = rbb.setNext node (rbb.next (.blk n)) := ⟨_, rfl⟩
  obtain ⟨rbb₂, hrbb₂⟩ : ∃ rbb₂, rbb₂ = rbb₁.setNext (.blk n) none := ⟨_, rfl⟩
  have hblk₂ : Linked rbb₂.nextBlk (rbb₂.next .blkList) (front ++ back) := by
    have hblk₁ := linked_unlink blkList_ne_blk hlinked hnodup
    rw [hrbb₂, hrbb₁, hnode]
    apply linked_setNext (blkList_ne_blk n) _ none hblk₁
    intro i hi he
    obtain rfl := Node.blk.inj he
    exact hnrest hi
  have hfree₂ : Linked rbb₂.nextBlk (rbb₂.next .freeList) free := by
    have hfree₁ := linked_setNext hnodeHead hnodeFree (rbb.next (.blk n)) h.freeList
    rw [hrbb₂, hrbb₁]
    apply linked_setNext (freeList_ne_blk n) _ none hfree₁
    intro i hi he
    obtain rfl := Node.blk.inj he
    exact hnfree hi
  obtain ⟨rbb₃, hrbb₃⟩ : ∃ rbb₃, rbb₃ = if rbb₂.tail = .blk n then { rbb₂ with tail := node } else rbb₂ :=
    ⟨_, rfl⟩
  have hsame : rbb₃.next = rbb₂.next ∧ rbb₃.blkSet = rbb.blkSet ∧ rbb₃.buf = rbb.buf ∧
      rbb₃.bufSize = rbb.bufSize ∧ rbb₃.blkMaxNum = rbb.blkMaxNum := by
    rw [hrbb₃, hrbb₂, hrbb₁]
    split_ifs
    all_goals exact ⟨rfl, rfl, rfl, rfl, rfl⟩
  have htail : rbb₃.tail = lastNode .blkList (front ++ back) := by
    have htail₂ : rbb₂.tail = lastNode (.blk n) back := by
      rw [hrbb₂, hrbb₁]
      exact h.tail.trans (hsplit ▸ lastNode_append _ _ _ _)
    cases back with
    | nil =>
      have hself : rbb₂.tail = .blk n := htail₂
      rw [hrbb₃, if_pos hself, append_nil]
      exact hnode
    | cons m rest =>
      have hne : rbb₂.tail ≠ .blk n := by
        rw [htail₂, lastNode_cons]
        apply lastNode_ne
        · intro he
          exact hnback (Node.blk.inj he ▸ mem_cons_self)
        · intro i hi he
          obtain rfl := Node.blk.inj he
          exact hnback (mem_cons_of_mem m hi)
      rw [hrbb₃, if_neg hne, htail₂, lastNode_append, lastNode_cons]
  have hremove : listRemove rbb n = some rbb₃ := by
    have hseek := seek_eq front hlinked hnfront (show front.length < rbb.blkMaxNum + 1 by omega)
    have hnext := next_lastNode hlinked
    rw [← hnode] at hseek hnext
    unfold listRemove
    rw [hseek]
    simp only [map_some, hnext]
    rw [hrbb₃, hrbb₂, hrbb₁]
  obtain ⟨hnext, hfields⟩ := hsame
  refine ⟨front, back, rbb₃, hsplit, hremove, ?_, ?_, htail, hfields⟩
  · unfold RtRbb.nextBlk
    rw [hnext]
    exact hblk₂
  · unfold RtRbb.nextBlk
    rw [hnext]
    exact hfree₂

theorem rtRbbBlkFree_eq (hn : n ∈ used) :
    ∃ front back rbb', used = front ++ n :: back ∧ rtRbbBlkFree rbb n = some rbb' ∧
      Lists rbb' (front ++ back) (n :: free) ∧
      rbb'.blkSet = (rbb.setStatus n .unused).blkSet ∧ rbb'.buf = rbb.buf ∧
      rbb'.bufSize = rbb.bufSize ∧ rbb'.blkMaxNum = rbb.blkMaxNum := by
  obtain ⟨front, back, rbb₁, hsplit, hremove, hblk, hfree, htail, hset, hbuf, hsize, hmax⟩ :=
    h.listRemove_eq hn
  have hnmax : n < rbb.blkMaxNum := h.member n (mem_append_left _ hn)
  have hstatus : (rbb.blkSet n).status ≠ .unused := (h.status n hnmax).mpr hn
  have hnodup := h.nodup
  rw [hsplit, append_assoc, cons_append, nodup_middle, nodup_cons,
    ← append_assoc, mem_append, not_or] at hnodup
  obtain ⟨⟨hnrest, hnfree⟩, hnodup⟩ := hnodup
  have hmem : ∀ i, i ∈ used ↔ i = n ∨ i ∈ front ++ back := by
    intro i
    rw [hsplit, mem_append, mem_cons, mem_append]
    exact or_left_comm
  have hset' : (rbb₁.setStatus n .unused).blkSet = (rbb.setStatus n .unused).blkSet := by
    unfold RtRbb.setStatus RtRbb.setBlk
    rw [hset]
  refine ⟨front, back, rtSlistInsert (rbb₁.setStatus n .unused) .freeList n, hsplit, ?_, ?_, hset',
    hbuf, hsize, hmax⟩
  · unfold rtRbbBlkFree
    rw [if_neg hstatus, hremove]
    rfl
  · obtain ⟨rbb₂, hrbb₂⟩ : ∃ rbb₂, rbb₂ = rbb₁.setNext (.blk n) (rbb₁.next .freeList) := ⟨_, rfl⟩
    have hblk₂ : Linked rbb₂.nextBlk (rbb₂.next .blkList) (front ++ back) := by
      rw [hrbb₂]
      apply linked_setNext (blkList_ne_blk n) _ _ hblk
      intro i hi he
      obtain rfl := Node.blk.inj he
      exact hnrest hi
    have hfree₂ : Linked rbb₂.nextBlk (some n) (n :: free) := by
      rw [hrbb₂, nextBlk_setNext_blk]
      exact hfree.push hnfree
    have hblk₃ := linked_setNext blkList_ne_freeList (fun i _ => freeList_ne_blk i) (some n) hblk₂
    have hfree₃ : Linked (rbb₂.setNext .freeList (some n)).nextBlk
        ((rbb₂.setNext .freeList (some n)).next .freeList) (n :: free) := by
      exact hfree₂
    rw [hrbb₂] at hblk₃ hfree₃
    refine ⟨hblk₃, hfree₃, htail, ?_, ?_, ?_⟩
    · rw [nodup_middle, nodup_cons, mem_append, not_or]
      exact ⟨⟨hnrest, hnfree⟩, hnodup⟩
    · intro i hi
      have hi' : i ∈ used ++ free := by
        rw [mem_append, hmem]
        rw [mem_append, mem_cons] at hi
        rcases hi with hi | rfl | hi
        · exact .inl (.inr hi)
        · exact .inl (.inl rfl)
        · exact .inr hi
      have hlt := h.member i hi'
      rwa [← hmax] at hlt
    · intro i hi
      change ((rbb₁.setStatus n .unused).blkSet i).status ≠ .unused ↔ _
      rw [hset']
      by_cases hin : i = n
      · subst hin
        simp [RtRbb.setStatus, RtRbb.setBlk, hnrest]
      · have hi' : i < rbb.blkMaxNum := hmax ▸ hi
        have hstat := h.status i hi'
        rw [hmem, or_iff_right hin] at hstat
        simp only [RtRbb.setStatus, RtRbb.setBlk, update_of_ne hin]
        exact hstat

/-- The loop of `rt_rbb_blk_get` finds the first block whose data has been put. -/
theorem findPut_find : findPut rbb rbb.blkMaxNum (rbb.next .blkList) =
      some (used.find? fun n => (rbb.blkSet n).status = .put) := by
  have hloop : ∀ (l : List Nat) turns p, Linked rbb.nextBlk p l → l.length ≤ turns →
      findPut rbb turns p = some (l.find? fun n => (rbb.blkSet n).status = .put) := by
    intro l
    induction l with
    | nil =>
      rintro turns p rfl -
      cases turns with
      | _ => rfl
    | cons m rest ih =>
      rintro turns p ⟨rfl, hrest⟩ hturns
      obtain ⟨turns, rfl⟩ := Nat.exists_eq_succ_of_ne_zero
        (Nat.ne_of_gt (Nat.lt_of_lt_of_le (Nat.succ_pos _) hturns))
      unfold findPut
      by_cases hput : (rbb.blkSet m).status = .put
      · rw [if_pos hput]
        simp only [List.find?_cons, hput, decide_true]
      · rw [if_neg hput, List.find?_cons, decide_eq_false hput]
        exact ih turns _ hrest (Nat.le_of_succ_le_succ hturns)
  exact hloop used _ _ h.blkList h.length_le

theorem findPut_eq : ∃ block, findPut rbb rbb.blkMaxNum (rbb.next .blkList) = some block ∧
      ∀ n, block = some n → (rbb.blkSet n).status = .put := by
  refine ⟨_, h.findPut_find, ?_⟩
  intro n hn
  simpa using List.find?_some hn

end

end Lists

/-- A place where a block of the size is put, when there is a descriptor. -/
inductive Fits (rbb : RtRbb) (blkSize : Nat) : Nat → Prop
  | empty (h : rbb.next .blkList = none) : Fits rbb blkSize rbb.buf
  | behind {head tail} (hhead : rbb.next .blkList = some head) (htail : rbb.tail = .blk tail)
      (hle : (rbb.blkSet head).buf ≤ (rbb.blkSet tail).buf)
      (hsize : blkSize ≤ sub32 (add32 rbb.buf rbb.bufSize)
        (add32 (rbb.blkSet tail).buf (rbb.blkSet tail).size)) :
      Fits rbb blkSize (add32 (rbb.blkSet tail).buf (rbb.blkSet tail).size)
  | front {head tail} (hhead : rbb.next .blkList = some head) (htail : rbb.tail = .blk tail)
      (hle : (rbb.blkSet head).buf ≤ (rbb.blkSet tail).buf)
      (hsize : blkSize ≤ sub32 (rbb.blkSet head).buf rbb.buf) : Fits rbb blkSize rbb.buf
  | between {head tail} (hhead : rbb.next .blkList = some head) (htail : rbb.tail = .blk tail)
      (hlt : (rbb.blkSet tail).buf < (rbb.blkSet head).buf)
      (hsize : blkSize ≤ sub32 (rbb.blkSet head).buf
        (add32 (rbb.blkSet tail).buf (rbb.blkSet tail).size)) :
      Fits rbb blkSize (add32 (rbb.blkSet tail).buf (rbb.blkSet tail).size)

/-- The list of blocks is empty, or there is space for the block behind its tail, or in front of its
head when the blocks have not wrapped. -/
def hasSpace (rbb : RtRbb) (blkSize : Nat) : Bool :=
  match rbb.next .blkList, rbb.tail with
  | some head, .blk tail =>
      let head := rbb.blkSet head
      let tail := rbb.blkSet tail
      if head.buf ≤ tail.buf then
        blkSize ≤ sub32 (add32 rbb.buf rbb.bufSize) (add32 tail.buf tail.size) ||
          blkSize ≤ sub32 head.buf rbb.buf
      else blkSize ≤ sub32 head.buf (add32 tail.buf tail.size)
  | _, _ => true

theorem Lists.placeNew_eq (h : Lists rbb used free) (n blkSize : Nat) :
    (∃ buf, Fits rbb blkSize buf ∧
      placeNew rbb n blkSize = some (Rbb.place rbb n buf blkSize)) ∨
    hasSpace rbb blkSize = false ∧ placeNew rbb n blkSize = some (rbb, none) := by
  unfold hasSpace placeNew
  cases hhead : rbb.next .blkList with
  | none => exact .inl ⟨rbb.buf, .empty hhead, rfl⟩
  | some head =>
    obtain ⟨rest, rfl, -⟩ := (hhead ▸ h.blkList).pop
    obtain ⟨tail, htail⟩ : ∃ tail, rbb.tail = .blk tail := by
      rw [h.tail]
      exact ⟨_, rfl⟩
    rw [htail]
    by_cases hle : (rbb.blkSet head).buf ≤ (rbb.blkSet tail).buf
    · simp only [if_pos hle]
      by_cases h₁ : blkSize ≤ sub32 (add32 rbb.buf rbb.bufSize)
          (add32 (rbb.blkSet tail).buf (rbb.blkSet tail).size)
      · rw [if_pos h₁]
        exact .inl ⟨_, .behind hhead htail hle h₁, rfl⟩
      · by_cases h₂ : blkSize ≤ sub32 (rbb.blkSet head).buf rbb.buf
        · rw [if_neg h₁, if_pos h₂]
          exact .inl ⟨_, .front hhead htail hle h₂, rfl⟩
        · rw [if_neg h₁, if_neg h₂, decide_eq_false h₁, decide_eq_false h₂]
          exact .inr ⟨rfl, rfl⟩
    · simp only [if_neg hle]
      by_cases h₁ : blkSize ≤ sub32 (rbb.blkSet head).buf
          (add32 (rbb.blkSet tail).buf (rbb.blkSet tail).size)
      · rw [if_pos h₁]
        exact .inl ⟨_, .between hhead htail (Nat.lt_of_not_le hle) h₁, rfl⟩
      · rw [if_neg h₁, decide_eq_false h₁]
        exact .inr ⟨rfl, rfl⟩

theorem Lists.rtRbbBlkAlloc_eq (h : Lists rbb used free) {blkSize : Nat} (hsize : blkSize < 2 ^ 24) :
    (free = [] ∧ rtRbbBlkAlloc rbb blkSize = some (rbb, none)) ∨
      ∃ n rest rbb₁, free = n :: rest ∧ rbb₁ = rbb.setNext .freeList (rbb.next (.blk n)) ∧
        Lists rbb₁ used rest ∧ n ∉ used ∧ n ∉ rest ∧ n < rbb.blkMaxNum ∧
        ((∃ buf, Fits rbb₁ blkSize buf ∧
            rtRbbBlkAlloc rbb blkSize = some (Rbb.place rbb₁ n buf blkSize)) ∨
          hasSpace rbb blkSize = false ∧ rtRbbBlkAlloc rbb blkSize = some (rbb₁, none)) := by
  unfold rtRbbBlkAlloc
  rw [if_neg (Nat.not_le_of_lt hsize)]
  rcases h.findEmptyBlkInSet_eq with ⟨hfree, hfind⟩ | ⟨n, rest, hfree, hfind, hlists, hused, hrest, hn⟩
  · rw [hfind]
    exact .inl ⟨hfree, rfl⟩
  · refine .inr ⟨n, rest, _, hfree, rfl, hlists, hused, hrest, hn, ?_⟩
    have hblk : (rbb.setNext .freeList (rbb.next (.blk n))).next .blkList = rbb.next .blkList :=
      next_setNext_of_ne rbb blkList_ne_freeList _
    have hspace : hasSpace (rbb.setNext .freeList (rbb.next (.blk n))) blkSize =
        hasSpace rbb blkSize := by
      unfold hasSpace
      rfl
    rw [hfind]
    rcases hlists.placeNew_eq n blkSize with ⟨buf, hfits, hplace⟩ | hnone
    · exact .inl ⟨buf, hfits, hplace⟩
    · exact .inr hnone

/-- The loop of `rt_rbb_init` puts the descriptors into the free list. -/
theorem initBlocks_eq (rbb : RtRbb) (hnext : ∀ node, rbb.next node = none) (i : Nat) :
    Linked (initBlocks rbb i).nextBlk ((initBlocks rbb i).next .freeList) (List.range i).reverse ∧
      (initBlocks rbb i).next .blkList = none ∧
      (∀ j < i, ((initBlocks rbb i).blkSet j).status = .unused) ∧
      (initBlocks rbb i).tail = rbb.tail ∧ (initBlocks rbb i).blkMaxNum = rbb.blkMaxNum ∧
      (initBlocks rbb i).buf = rbb.buf ∧ (initBlocks rbb i).bufSize = rbb.bufSize := by
  induction i with
  | zero => exact ⟨hnext _, hnext _, nofun, rfl, rfl, rfl, rfl⟩
  | succ i ih =>
    obtain ⟨hlinked, hblk, hstatus, hsame⟩ := ih
    obtain ⟨rbb₁, hrbb₁⟩ : ∃ rbb₁, rbb₁ = (initBlocks rbb i).setStatus i .unused := ⟨_, rfl⟩
    obtain ⟨rbb₂, hrbb₂⟩ : ∃ rbb₂, rbb₂ = rbb₁.setNext (.blk i) none := ⟨_, rfl⟩
    have hnot : i ∉ (List.range i).reverse := by
      rw [mem_reverse, mem_range]
      exact Nat.lt_irrefl i
    have hfree₂ : rbb₂.next .freeList = (initBlocks rbb i).next .freeList := by
      rw [hrbb₂, hrbb₁]
      rfl
    have hlinked₂ : Linked rbb₂.nextBlk (rbb₂.next .freeList) (List.range i).reverse := by
      rw [hrbb₂, nextBlk_setNext_blk, hrbb₁]
      exact hlinked.update hnot none
    have hinit : initBlocks rbb (i + 1) = rtSlistInsert rbb₂ .freeList i := by
      rw [hrbb₂, hrbb₁]
      rfl
    rw [hinit, range_succ, reverse_append]
    refine ⟨?_, ?_, ?_, ?_⟩
    · unfold rtSlistInsert
      rw [nextBlk_setNext_of_ne _ freeList_ne_blk, next_setNext_self, nextBlk_setNext_blk]
      exact hlinked₂.push hnot
    · unfold rtSlistInsert
      rw [next_setNext_of_ne _ blkList_ne_freeList, next_setNext_of_ne _ (blkList_ne_blk i), hrbb₂,
        next_setNext_of_ne _ (blkList_ne_blk i), hrbb₁]
      exact hblk
    · intro j hj
      have hset : (rtSlistInsert rbb₂ .freeList i).blkSet = rbb₁.blkSet := by
        rw [hrbb₂]
        rfl
      rw [hset, hrbb₁]
      by_cases hji : j = i
      · subst hji
        simp [RtRbb.setStatus, RtRbb.setBlk]
      · simp only [RtRbb.setStatus, RtRbb.setBlk, update_of_ne hji]
        exact hstatus j (by omega)
    · rw [hrbb₂, hrbb₁]
      exact hsame

theorem Initial.lists (h : Initial rbb) : Lists rbb [] (List.range rbb.blkMaxNum).reverse := by
  obtain ⟨buf, bufSize, blockSet, blkMaxNum, -, -, rfl⟩ := h
  unfold rtRbbInit
  obtain ⟨hlinked, hblk, hstatus, htail, hmax, -⟩ := initBlocks_eq
    { buf := buf, bufSize := bufSize, blkSet := blockSet, blkMaxNum := blkMaxNum
      next := fun _ => none, tail := .blkList } (fun _ => rfl) blkMaxNum
  rw [hmax]
  refine ⟨hblk, hlinked, htail, ?_, ?_, ?_⟩
  · rw [nil_append, nodup_reverse]
    exact nodup_range
  · intro i hi
    rw [nil_append, mem_reverse, mem_range] at hi
    rwa [hmax]
  · intro i hi
    rw [hmax] at hi
    exact iff_of_false (fun hc => hc (hstatus i hi)) not_mem_nil

/-- What a call does to the lists. -/
inductive Moves (rbb : RtRbb) (used free : List Nat) : Act → RtRbb → Option Nat → Prop
  /-- There is no free descriptor. -/
  | full {blkSize} (h : free = []) : Moves rbb used free (.alloc blkSize) rbb none
  | place {blkSize buf n rest rbb₁} (hfree : free = n :: rest) (hn : n ∉ used)
      (hfits : Fits rbb₁ blkSize buf) (hrbb₁ : rbb₁ = rbb.setNext .freeList (rbb.next (.blk n)))
      (hlists : Lists rbb₁ used rest)
      (h : Lists (place rbb₁ n buf blkSize).1 (used ++ [n]) rest) :
      Moves rbb used free (.alloc blkSize) (place rbb₁ n buf blkSize).1 (some n)
  /-- The descriptor is in neither list when no space is found. -/
  | lose {blkSize n rest rbb₁} (hfree : free = n :: rest) (hspace : hasSpace rbb blkSize = false)
      (hrbb₁ : rbb₁ = rbb.setNext .freeList (rbb.next (.blk n))) (h : Lists rbb₁ used rest) :
      Moves rbb used free (.alloc blkSize) rbb₁ none
  | status {a n status result} (ha : ∀ blkSize, a ≠ .alloc blkSize)
      (h : Lists (rbb.setStatus n status) used free) :
      Moves rbb used free a (rbb.setStatus n status) result
  | same : Moves rbb used free .get rbb none
  | free {n front back rbb'} (hused : used = front ++ n :: back)
      (h : Lists rbb' (front ++ back) (n :: free))
      (hset : rbb'.blkSet = (rbb.setStatus n .unused).blkSet) (hbuf : rbb'.buf = rbb.buf)
      (hsize : rbb'.bufSize = rbb.bufSize) (hmax : rbb'.blkMaxNum = rbb.blkMaxNum) :
      Moves rbb used free (.free n) rbb' none

theorem Lists.moves (h : Lists rbb used free) {a : Act} {r : RtRbb × Option Nat}
    (hcall : call rbb a = some r) : Moves rbb used free a r.1 r.2 := by
  cases a with
  | alloc blkSize =>
    have hsize : blkSize < 2 ^ 24 := by
      by_contra hle
      rw [call, rtRbbBlkAlloc, if_pos (Nat.le_of_not_lt hle)] at hcall
      cases hcall
    rcases h.rtRbbBlkAlloc_eq hsize with ⟨hfree, heq⟩ |
      ⟨n, rest, rbb₁, hfree, hrbb₁, hlists, hused, hrest, hn, ⟨buf, hfits, heq⟩ | ⟨hspace, heq⟩⟩
    · cases heq.symm.trans hcall
      exact .full hfree
    · cases heq.symm.trans hcall
      have hn₁ : n < rbb₁.blkMaxNum := by
        rw [hrbb₁]
        exact hn
      exact .place hfree hused hfits hrbb₁ hlists (hlists.place hn₁ hused hrest buf blkSize)
    · cases heq.symm.trans hcall
      exact .lose hfree hspace hrbb₁ hlists
  | put n =>
    simp only [call, rtRbbBlkPut] at hcall
    split_ifs at hcall with hn hstatus
    · cases hcall
      refine .status (fun _ => nofun) (h.setStatus ?_ nofun)
      rw [hstatus]
      nofun
    · cases hcall
  | get =>
    obtain ⟨block, hfind, hput⟩ := h.findPut_eq
    rw [call, rtRbbBlkGet, hfind] at hcall
    cases block with
    | none =>
      cases hcall
      exact .same
    | some n =>
      cases hcall
      refine .status (fun _ => nofun) (h.setStatus ?_ nofun)
      rw [hput n rfl]
      nofun
  | free n =>
    simp only [call] at hcall
    split_ifs at hcall with hn
    obtain ⟨rbb', hfree, rfl⟩ := map_eq_some_iff.mp hcall
    have hused : n ∈ used := by
      rw [← h.status n hn]
      intro hunused
      rw [rtRbbBlkFree, if_pos hunused] at hfree
      cases hfree
    obtain ⟨front, back, rbb₁, hsplit, heq, hlists, hset, hbuf, hsize, hmax⟩ :=
      h.rtRbbBlkFree_eq hused
    cases heq.symm.trans hfree
    exact .free hsplit hlists hset hbuf hsize hmax

/-- Each descriptor is in one of the lists, and is unused just when it is free. -/
structure Accounted (rbb : RtRbb) (used free : List Nat) : Prop where
  blkList : Linked rbb.nextBlk (rbb.next .blkList) used
  freeList : Linked rbb.nextBlk (rbb.next .freeList) free
  nodup : (used ++ free).Nodup
  all : ∀ i, i < rbb.blkMaxNum ↔ i ∈ used ∨ i ∈ free
  unused : ∀ i < rbb.blkMaxNum, (rbb.blkSet i).status = .unused ↔ i ∈ free
  /-- `tail` is the last node of `blk_list`. -/
  tail : rbb.tail = lastNode .blkList used

/-- An allocation that finds a free descriptor finds space too. -/
def Spacious (rbb : RtRbb) : Act → Prop
  | .alloc blkSize => rbb.next .freeList ≠ none → hasSpace rbb blkSize = true
  | _ => True

instance (rbb : RtRbb) (a : Act) : Decidable (Spacious rbb a) :=
  match a with
  | .alloc blkSize =>
      inferInstanceAs (Decidable (rbb.next .freeList ≠ none → hasSpace rbb blkSize = true))
  | .put _ | .get | .free _ => .isTrue trivial

theorem Lists.accounted (h : Lists rbb used free)
    (hall : ∀ i < rbb.blkMaxNum, i ∈ used ∨ i ∈ free) : Accounted rbb used free := by
  refine ⟨h.blkList, h.freeList, h.nodup, ?_, ?_, h.tail⟩
  · intro i
    rw [← mem_append]
    exact ⟨fun hi => mem_append.mpr (hall i hi), h.member i⟩
  · intro i hi
    have hdisj := (nodup_append.mp h.nodup).2.2
    rw [← not_iff_not]
    refine (h.status i hi).trans ?_
    constructor
    · exact fun hused hfree => hdisj i hused i hfree rfl
    · exact fun hfree => (hall i hi).resolve_right hfree

/-- The invariant of a run. -/
def AllListed (rbb : RtRbb) : Prop :=
  ∃ used free, Lists rbb used free ∧ ∀ i < rbb.blkMaxNum, i ∈ used ∨ i ∈ free

/-- A call keeps the descriptors in the lists when it finds space, and changes nothing when it returns
without a block. -/
theorem AllListed.call (h : AllListed rbb) {a : Act} (hspace : Spacious rbb a)
    {r : RtRbb × Option Nat} (hcall : Rbb.call rbb a = some r) :
    AllListed r.1 ∧ ∀ blkSize, a = .alloc blkSize → r.2 = none → r.1 = rbb := by
  obtain ⟨used, free, hlists, hall⟩ := h
  have hmoves := hlists.moves hcall
  generalize r.1 = rbb', r.2 = result at hmoves ⊢
  cases hmoves with
  | full hfree | same => exact ⟨⟨used, free, hlists, hall⟩, fun _ _ _ => rfl⟩
  | @place blkSize buf n rest rbb₁ hfree hn hfits hrbb₁ hlists₁ h =>
    refine ⟨⟨used ++ [n], rest, h, ?_⟩, fun _ _ => nofun⟩
    intro i hi
    rw [hrbb₁] at hi
    rw [mem_append, mem_singleton]
    have hi' := hall i hi
    rw [hfree, mem_cons] at hi'
    tauto
  | @lose blkSize n rest rbb₁ hfree hnone hrbb₁ h =>
    have hfirst : rbb.next .freeList ≠ none := by
      rw [ne_eq, hlists.freeList.nil_iff, hfree]
      nofun
    cases (hspace hfirst).symm.trans hnone
  | status ha h => exact ⟨⟨used, free, h, hall⟩, fun blkSize heq => absurd heq (ha blkSize)⟩
  | @free n front back rbb' hused h hset hbuf hsize hmax =>
    refine ⟨⟨front ++ back, n :: free, h, ?_⟩, fun _ => nofun⟩
    intro i hi
    rw [hmax] at hi
    have hi' := hall i hi
    rw [hused, mem_append, mem_cons] at hi'
    rw [mem_append, mem_cons]
    tauto

theorem Initial.allListed (h : Initial rbb) : AllListed rbb := by
  refine ⟨[], (List.range rbb.blkMaxNum).reverse, h.lists, ?_⟩
  intro i hi
  rw [mem_reverse, mem_range]
  exact .inr hi

/-- In every run whose allocations find space where they find a descriptor, each descriptor is in one
of the lists, and an allocation that returns no block leaves the object as it is. -/
theorem reachable_listed (rbb : RtRbb) (h : Reachable Initial (Within Step Spacious) rbb) :
    (∃ used free, Accounted rbb used free) ∧
      ∀ blkSize rbb', Spacious rbb (.alloc blkSize) → call rbb (.alloc blkSize) = some (rbb', none) →
        rbb' = rbb := by
  have hall : AllListed rbb := by
    refine h.invariant (fun _ h₀ => h₀.allListed) ?_
    intro rbb a rbb' _ hall ⟨hspace, hstep⟩
    obtain ⟨r, hcall, rfl⟩ := Option.map_eq_some_iff.mp hstep
    exact (hall.call hspace hcall).1
  refine ⟨?_, ?_⟩
  · obtain ⟨used, free, hlists, hmem⟩ := hall
    exact ⟨used, free, hlists.accounted hmem⟩
  · intro blkSize rbb' hspace hcall
    exact (hall.call hspace hcall).2 blkSize rfl rfl

/-- Two descriptors for a buffer of four bytes. -/
def twoBlocks : RtRbb :=
  rtRbbInit 100 4 (fun _ => { status := .unused, size := 0, buf := 0 }) 2

theorem twoBlocks_initial : Initial twoBlocks := ⟨100, 4, _, 2, by decide, by decide, rfl⟩

/-- With both descriptors in use, an allocation returns no block and changes nothing. -/
theorem reachable_listed_full : ∃ rbb : RtRbb, (rbb.blkSet 0).status ≠ .unused ∧
    (rbb.blkSet 1).status ≠ .unused ∧ (∃ used free, Accounted rbb used free) ∧
      ∀ blkSize rbb', Spacious rbb (.alloc blkSize) → call rbb (.alloc blkSize) = some (rbb', none) →
        rbb' = rbb := by
  have hrun : ∃ rbb ∈ runWithin exec Spacious twoBlocks [.alloc 2, .alloc 2],
      (rbb.blkSet 0).status = .inited ∧ (rbb.blkSet 1).status = .inited := by decide +kernel
  obtain ⟨rbb, hreach, h₀, h₁⟩ := Reachable.of_runWithin twoBlocks_initial hrun
  refine ⟨rbb, ?_, ?_, reachable_listed rbb hreach⟩
  · rw [h₀]
    nofun
  · rw [h₁]
    nofun

/-- The second allocation finds a descriptor and no space, and the descriptor is lost. -/
theorem noSpace_loses : ∃ rbb rbb' : RtRbb, Reachable Initial Step rbb ∧
    call rbb (.alloc 4) = some (rbb', none) ∧ rbb' ≠ rbb ∧
      ¬ ∃ used free, Accounted rbb' used free := by
  obtain ⟨rbb, hrbb, hfirst, ⟨rbb', result⟩, hcall, hnone, hfree, hblk, hlast, hmax⟩ :
      ∃ rbb ∈ runAll exec twoBlocks [.alloc 4], rbb.next .freeList = some 0 ∧
        ∃ r ∈ call rbb (.alloc 4), r.2 = none ∧ r.1.next .freeList = none ∧
          r.1.next .blkList = some 1 ∧ r.1.next (.blk 1) = none ∧ r.1.blkMaxNum = 2 := by
    decide +kernel
  cases hnone
  refine ⟨rbb, _, (Reachable.start twoBlocks_initial).runAll hrbb, hcall, ?_, ?_⟩
  · intro hsame
    rw [← hsame, hfree] at hfirst
    cases hfirst
  · rintro ⟨used, free, h⟩
    obtain ⟨rest, rfl, hrest⟩ := (hblk ▸ h.blkList).pop
    obtain rfl := hrest.nil_iff.mp hlast
    obtain rfl := h.freeList.nil_iff.mp hfree
    have hzero := (h.all 0).mp (by rw [hmax]; decide)
    simp at hzero

end RtKernel.Rbb

import RtKernel.Drivers.RingBlkLists

/-!
# The space of a ring block buffer

The blocks in use follow each other in the buffer, once around at most: their list
is two runs of rising addresses, of which the second one lies below the first. An
allocation keeps this if the first block of an empty buffer is not larger than
the buffer.
-/

open List

namespace RtKernel.Rbb

variable {rbb rbb' : RtRbb} {used free : List Nat} {n : Nat} {set set' : Nat → RtRbbBlk}

/-- The block `i` ends where `j` begins, or before. -/
def Before (set : Nat → RtRbbBlk) (i j : Nat) : Prop := (set i).buf + (set i).size ≤ (set j).buf

/-- The blocks do not overlap. -/
def Apart (set : Nat → RtRbbBlk) (i j : Nat) : Prop := Before set i j ∨ Before set j i

/-- The block lies in the buffer. -/
def Inside (rbb : RtRbb) (i : Nat) : Prop :=
  rbb.buf ≤ (rbb.blkSet i).buf ∧
    (rbb.blkSet i).buf + (rbb.blkSet i).size ≤ rbb.buf + rbb.bufSize

/-- Where the blocks in use lie. -/
structure Geometry (rbb : RtRbb) (used : List Nat) : Prop where
  memory : 0 < rbb.buf ∧ rbb.buf + rbb.bufSize ≤ 2 ^ 32
  inside : ∀ i ∈ used, Inside rbb i
  pos : ∀ i ∈ used, 1 ≤ (rbb.blkSet i).size
  /-- The last blocks in the list come first in the buffer when the blocks have wrapped. -/
  turn : ∃ front back, used = front ++ back ∧ (back ++ front).Pairwise (Before rbb.blkSet)

variable {l : List Nat} {i : Nat} {j : Nat}

theorem rising_head (h : (i :: l).Pairwise (Before set))
    (hj : j ∈ i :: l) : (set i).buf ≤ (set j).buf := by
  rcases mem_cons.mp hj with rfl | hj
  · exact Nat.le_refl _
  · exact Nat.le_trans (Nat.le_add_right _ _) ((pairwise_cons.mp h).1 j hj)

theorem rising_last (h : l.Pairwise (Before set)) (hlast : l.getLast? = some i) (hj : j ∈ l) :
    (set j).buf + (set j).size ≤ (set i).buf + (set i).size := by
  obtain ⟨init, rfl⟩ := List.getLast?_eq_some_iff.mp hlast
  rcases mem_append.mp hj with hj | hj
  · have hbefore := (pairwise_append.mp h).2.2 j hj i (mem_singleton_self i)
    exact Nat.le_trans hbefore (Nat.le_add_right _ _)
  · obtain rfl := mem_singleton.mp hj
    exact Nat.le_refl _

/-- The first and the last block of a list that is not empty. -/
theorem Lists.ends (hlists : Lists rbb used free) {head tail : Nat}
    (hhead : rbb.next .blkList = some head) (htail : rbb.tail = .blk tail) :
    (∃ rest, used = head :: rest) ∧ used.getLast? = some tail := by
  obtain ⟨rest, hused, -⟩ := (hhead ▸ hlists.blkList).pop
  refine ⟨⟨rest, hused⟩, ?_⟩
  have hlast := hlists.tail.symm.trans htail
  unfold lastNode at hlast
  cases hl : used.getLast? with
  | none =>
    rw [hl] at hlast
    cases hlast
  | some last =>
    rw [hl] at hlast
    exact congrArg some (Node.blk.inj hlast)

namespace Geometry

section

variable (h : Geometry rbb used) {blkSize buf : Nat}
include h

/-- Only the places and sizes of the blocks matter, and some may be freed. -/
theorem sublist (hl : l.Sublist used)
    (hbuf : rbb'.buf = rbb.buf) (hsize : rbb'.bufSize = rbb.bufSize)
    (hset : ∀ i ∈ l, (rbb'.blkSet i).buf = (rbb.blkSet i).buf ∧
      (rbb'.blkSet i).size = (rbb.blkSet i).size) : Geometry rbb' l := by
  obtain ⟨front, back, rfl, hrising⟩ := h.turn
  obtain ⟨front', back', rfl, hfront, hback⟩ := sublist_append_iff.mp hl
  refine ⟨?_, ?_, ?_, front', back', rfl, ?_⟩
  · rw [hbuf, hsize]
    exact h.memory
  · intro i hi
    have hin := h.inside i (hl.subset hi)
    unfold Inside at hin ⊢
    rw [hbuf, hsize, (hset i hi).1, (hset i hi).2]
    exact hin
  · intro i hi
    rw [(hset i hi).2]
    exact h.pos i (hl.subset hi)
  · refine (hrising.sublist (hback.append hfront)).imp_of_mem ?_
    intro i j hi hj hij
    have hi' := hset i (perm_append_comm.mem_iff.mp hi)
    have hj' := hset j (perm_append_comm.mem_iff.mp hj)
    unfold Before at hij ⊢
    rw [hi'.1, hi'.2, hj'.1]
    exact hij

/-- When the first block is not behind the last one, the blocks have not wrapped. -/
theorem rising {head tail : Nat} {rest : List Nat} (hhead : used = head :: rest)
    (htail : used.getLast? = some tail) (hle : (rbb.blkSet head).buf ≤ (rbb.blkSet tail).buf) :
    used.Pairwise (Before rbb.blkSet) := by
  obtain ⟨front, back, hused, hrising⟩ := h.turn
  have htailMem : tail ∈ used := mem_of_getLast? htail
  cases front with
  | nil =>
    rw [hused]
    rwa [append_nil] at hrising
  | cons i front =>
    cases back with
    | nil =>
      rw [hused, append_nil]
      exact hrising
    | cons j back =>
      -- wrapped blocks: the last one ends where the first one begins, or before
      obtain rfl : head = i := by
        rw [hhead] at hused
        exact (List.cons.inj hused).1
      have hmem : tail ∈ j :: back := by
        rw [hused, List.getLast?_append_cons] at htail
        exact mem_of_getLast? htail
      have hbefore := (pairwise_append.mp hrising).2.2 tail hmem head (.head _)
      have hpos := h.pos tail htailMem
      unfold Before at hbefore
      omega

/-- A new block goes behind the second run and in front of the first one. -/
theorem concat (hn : n ∉ used) (hsize : 1 ≤ blkSize) (hlow : rbb.buf ≤ buf)
    (hhigh : buf + blkSize ≤ rbb.buf + rbb.bufSize) {front back : List Nat} (hused : used = front ++ back)
    (hrising : (back ++ front).Pairwise (Before rbb.blkSet))
    (hback : ∀ j ∈ back, (rbb.blkSet j).buf + (rbb.blkSet j).size ≤ buf)
    (hfront : ∀ j ∈ front, buf + blkSize ≤ (rbb.blkSet j).buf) :
    Geometry (Rbb.place rbb n buf blkSize).1 (used ++ [n]) := by
  obtain ⟨rbb', hrbb'⟩ : ∃ rbb', rbb' = (Rbb.place rbb n buf blkSize).1 := ⟨_, rfl⟩
  have hold : ∀ i ∈ used, rbb'.blkSet i = rbb.blkSet i := by
    intro i hi
    rw [hrbb']
    exact Function.update_of_ne (ne_of_mem_of_not_mem hi hn) ..
  have hnew : rbb'.blkSet n = { status := .inited, size := blkSize, buf := buf } := by
    rw [hrbb']
    exact Function.update_self ..
  have hspace : rbb'.buf = rbb.buf ∧ rbb'.bufSize = rbb.bufSize := by
    rw [hrbb']
    exact ⟨rfl, rfl⟩
  rw [← hrbb']
  obtain ⟨-, hinside, hpos, front', back', hturn, hrising'⟩ : Geometry rbb' used :=
    h.sublist (.refl _) hspace.1 hspace.2 fun i hi => ⟨by rw [hold i hi], by rw [hold i hi]⟩
  refine ⟨by rw [hspace.1, hspace.2]; exact h.memory, ?_, ?_, front, back ++ [n], ?_, ?_⟩
  · intro i hi
    rcases mem_append.mp hi with hi | hi
    · exact hinside i hi
    · obtain rfl := mem_singleton.mp hi
      unfold Inside
      rw [hnew, hspace.1, hspace.2]
      exact ⟨hlow, hhigh⟩
  · intro i hi
    rcases mem_append.mp hi with hi | hi
    · exact hpos i hi
    · obtain rfl := mem_singleton.mp hi
      rwa [hnew]
  · rw [hused, append_assoc]
  · have hsame : ∀ i ∈ back ++ front, rbb'.blkSet i = rbb.blkSet i := fun i hi =>
      hold i (hused ▸ perm_append_comm.mem_iff.mp hi)
    have hrising : (back ++ front).Pairwise (Before rbb'.blkSet) := by
      refine hrising.imp_of_mem fun hi hj hij => ?_
      unfold Before at hij ⊢
      rwa [hsame _ hi, hsame _ hj]
    obtain ⟨hrisingBack, hrisingFront, hcross⟩ := pairwise_append.mp hrising
    rw [append_assoc, singleton_append]
    refine pairwise_append.mpr ⟨hrisingBack, pairwise_cons.mpr ⟨fun j hj => ?_, hrisingFront⟩, ?_⟩
    · unfold Before
      rw [hnew, hsame j (mem_append_right back hj)]
      exact hfront j hj
    · intro i hi j hj
      rcases mem_cons.mp hj with rfl | hj
      · unfold Before
        rw [hnew, hsame i (mem_append_left front hi)]
        exact hback i hi
      · exact hcross i hi j hj

section

variable (hlists : Lists rbb used free) (hn : n ∉ used) {blkSize head tail : Nat}
  (hsize : 1 ≤ blkSize)
  (hhead : rbb.next .blkList = some head) (htail : rbb.tail = .blk tail)
include hlists hn hsize hhead htail

section

variable (hle : (rbb.blkSet head).buf ≤ (rbb.blkSet tail).buf)
include hle

theorem placeBehind (hspace : blkSize ≤ sub32 (add32 rbb.buf rbb.bufSize)
      (add32 (rbb.blkSet tail).buf (rbb.blkSet tail).size)) :
    Geometry (Rbb.place rbb n (add32 (rbb.blkSet tail).buf (rbb.blkSet tail).size) blkSize).1
      (used ++ [n]) := by
  obtain ⟨hmem, hbound⟩ := h.memory
  obtain ⟨⟨rest, hused⟩, hlast⟩ := hlists.ends hhead htail
  have hrising := h.rising hused hlast hle
  obtain ⟨hlow, hhigh⟩ := h.inside tail (mem_of_getLast? hlast)
  have hend : add32 (rbb.blkSet tail).buf (rbb.blkSet tail).size =
        (rbb.blkSet tail).buf + (rbb.blkSet tail).size ∧
      (rbb.blkSet tail).buf + (rbb.blkSet tail).size + blkSize ≤ rbb.buf + rbb.bufSize := by
    unfold add32 sub32 at *
    omega
  rw [hend.1]
  refine h.concat hn hsize (Nat.le_trans hlow (Nat.le_add_right _ _)) hend.2 (nil_append used).symm ?_
    (fun j hj => rising_last hrising hlast hj) fun j hj => ?_
  · rwa [append_nil]
  · cases hj

theorem placeFront (hspace : blkSize ≤ sub32 (rbb.blkSet head).buf rbb.buf) :
    Geometry (Rbb.place rbb n rbb.buf blkSize).1 (used ++ [n]) := by
  obtain ⟨hmem, hbound⟩ := h.memory
  obtain ⟨⟨rest, hused⟩, hlast⟩ := hlists.ends hhead htail
  have hheadMem : head ∈ used := hused ▸ mem_cons_self
  have hrising := h.rising hused hlast hle
  obtain ⟨hlow, hhigh⟩ := h.inside head hheadMem
  have hpos := h.pos head hheadMem
  rw [sub32_eq hlow (by omega)] at hspace
  refine h.concat hn hsize (Nat.le_refl _) (by omega) (append_nil used).symm hrising
    (fun j hj => ?_) fun j hj => ?_
  · cases hj
  · rw [hused] at hrising hj
    have hfirst := rising_head hrising hj
    omega

end

/-- The blocks have wrapped: the second run ends in front of the head. -/
theorem placeBetween (hlt : (rbb.blkSet tail).buf < (rbb.blkSet head).buf)
    (hspace : blkSize ≤ sub32 (rbb.blkSet head).buf
      (add32 (rbb.blkSet tail).buf (rbb.blkSet tail).size)) :
    Geometry (Rbb.place rbb n (add32 (rbb.blkSet tail).buf (rbb.blkSet tail).size) blkSize).1
      (used ++ [n]) := by
  obtain ⟨hmem, hbound⟩ := h.memory
  obtain ⟨⟨rest, hused⟩, hlast⟩ := hlists.ends hhead htail
  have hheadMem : head ∈ used := hused ▸ mem_cons_self
  have htailMem : tail ∈ used := mem_of_getLast? hlast
  obtain ⟨front, back, hsplit, hrising⟩ := h.turn
  have hnot : ¬ used.Pairwise (Before rbb.blkSet) := by
    intro hall
    rw [hused] at hall htailMem
    have hle := rising_head hall htailMem
    omega
  have hfront : ∃ rest, front = head :: rest := by
    cases front with
    | nil =>
      rw [append_nil, ← nil_append back, ← hsplit] at hrising
      exact absurd hrising hnot
    | cons i front =>
      rw [hused] at hsplit
      obtain ⟨rfl, -⟩ := List.cons.inj hsplit
      exact ⟨front, rfl⟩
  have hback : back.getLast? = some tail := by
    cases back with
    | nil =>
      rw [← append_nil front, ← hsplit] at hrising
      exact absurd hrising hnot
    | cons j back =>
      rw [hsplit, List.getLast?_append_cons] at hlast
      exact hlast
  obtain ⟨hrisingBack, hrisingFront, hcross⟩ := pairwise_append.mp hrising
  obtain ⟨rest, rfl⟩ := hfront
  have hbefore := hcross tail (mem_of_getLast? hback) head (.head _)
  unfold Before at hbefore
  obtain ⟨hlow, hhigh⟩ := h.inside tail htailMem
  obtain ⟨hlowHead, hhighHead⟩ := h.inside head hheadMem
  have hend : add32 (rbb.blkSet tail).buf (rbb.blkSet tail).size =
        (rbb.blkSet tail).buf + (rbb.blkSet tail).size ∧
      (rbb.blkSet tail).buf + (rbb.blkSet tail).size + blkSize ≤ (rbb.blkSet head).buf := by
    unfold add32 sub32 at *
    omega
  rw [hend.1]
  refine h.concat hn hsize (Nat.le_trans hlow (Nat.le_add_right _ _)) (by omega) hsplit hrising
    (fun j hj => rising_last hrisingBack hback hj) fun j hj => ?_
  exact hend.2.trans (rising_head hrisingFront hj)

end

theorem place (hlists : Lists rbb used free) (hn : n ∉ used)
    (hsize : 1 ≤ blkSize) (hfirst : used = [] → blkSize ≤ rbb.bufSize)
    (hfits : Fits rbb blkSize buf) : Geometry (Rbb.place rbb n buf blkSize).1 (used ++ [n]) := by
  cases hfits with
  | empty hnone =>
    obtain rfl := hlists.blkList.nil_iff.mp hnone
    exact h.concat hn hsize (Nat.le_refl _) (Nat.add_le_add_left (hfirst rfl) _) (nil_append []).symm
      .nil (fun _ hj => by cases hj) fun _ hj => by cases hj
  | behind hhead htail hle hspace => exact h.placeBehind hlists hn hsize hhead htail hle hspace
  | front hhead htail hle hspace => exact h.placeFront hlists hn hsize hhead htail hle hspace
  | between hhead htail hlt hspace => exact h.placeBetween hlists hn hsize hhead htail hlt hspace

end

end Geometry

/-- The sizes of blocks are positive. -/
def Sized (_ : RtRbb) : Act → Prop
  | .alloc blkSize => 1 ≤ blkSize
  | _ => True

/-- The first block of an empty buffer is not larger than the buffer. -/
def Bounded (rbb : RtRbb) : Act → Prop
  | .alloc blkSize =>
      rbb.next .blkList = none → rbb.next .freeList ≠ none → blkSize ≤ rbb.bufSize
  | _ => True

/-- A change of the status leaves the place and the size. -/
theorem setStatus_blk (rbb : RtRbb) (n : Nat) (status : Status) (i : Nat) :
    ((rbb.setStatus n status).blkSet i).buf = (rbb.blkSet i).buf ∧
      ((rbb.setStatus n status).blkSet i).size = (rbb.blkSet i).size := by
  unfold RtRbb.setStatus RtRbb.setBlk
  by_cases hi : i = n
  · subst hi
    simp
  · simp [Function.update_of_ne hi]

instance (rbb : RtRbb) (a : Act) : Decidable (Sized rbb a) :=
  match a with
  | .alloc blkSize => inferInstanceAs (Decidable (1 ≤ blkSize))
  | .put _ | .get | .free _ => .isTrue trivial

instance (rbb : RtRbb) (a : Act) : Decidable (Bounded rbb a) :=
  match a with
  | .alloc blkSize => inferInstanceAs (Decidable
      (rbb.next .blkList = none → rbb.next .freeList ≠ none → blkSize ≤ rbb.bufSize))
  | .put _ | .get | .free _ => .isTrue trivial

/-- The invariant of a run. -/
def Placed (rbb : RtRbb) : Prop := ∃ used free, Lists rbb used free ∧ Geometry rbb used

theorem Placed.call (h : Placed rbb) {a : Act} (hsized : Sized rbb a) (hbounded : Bounded rbb a)
    {r : RtRbb × Option Nat} (hcall : Rbb.call rbb a = some r) : Placed r.1 := by
  obtain ⟨used, free, hlists, hgeometry⟩ := h
  have hmoves := hlists.moves hcall
  generalize r.1 = rbb', r.2 = result at hmoves ⊢
  cases hmoves with
  | full hfree | same => exact ⟨used, free, hlists, hgeometry⟩
  | @place blkSize buf n rest rbb₁ hfree hn hfits hrbb₁ hlists₁ h =>
    refine ⟨used ++ [n], rest, h, ?_⟩
    have hgeometry₁ : Geometry rbb₁ used := by
      rw [hrbb₁]
      exact hgeometry.sublist (.refl _) rfl rfl fun _ _ => ⟨rfl, rfl⟩
    apply hgeometry₁.place hlists₁ hn hsized _ hfits
    intro hempty
    have hfirst : rbb.next .freeList ≠ none := by
      rw [ne_eq, hlists.freeList.nil_iff, hfree]
      nofun
    have hle := hbounded (hlists.blkList.nil_iff.mpr hempty) hfirst
    rw [hrbb₁]
    exact hle
  | @lose blkSize n rest rbb₁ hfree hnone hrbb₁ h =>
    refine ⟨used, rest, h, ?_⟩
    rw [hrbb₁]
    exact hgeometry.sublist (.refl _) rfl rfl fun _ _ => ⟨rfl, rfl⟩
  | @status a n status result ha h =>
    exact ⟨used, free, h, hgeometry.sublist (.refl _) rfl rfl fun i _ => setStatus_blk rbb n status i⟩
  | @free n front back rbb' hused h hset hbuf hsize hmax =>
    refine ⟨front ++ back, n :: free, h, hgeometry.sublist ?_ hbuf hsize ?_⟩
    · rw [hused]
      exact (sublist_cons_self n back).append_left front
    · intro i _
      rw [hset]
      exact setStatus_blk rbb n .unused i

theorem Initial.placed (h : Initial rbb) : Placed rbb := by
  refine ⟨[], _, h.lists, ?_, nofun, nofun, [], [], rfl, .nil⟩
  obtain ⟨buf, bufSize, blockSet, blkMaxNum, hbuf, hbound, rfl⟩ := h
  unfold rtRbbInit
  obtain ⟨-, -, -, -, -, hsame⟩ := initBlocks_eq
    { buf := buf, bufSize := bufSize, blkSet := blockSet, blkMaxNum := blkMaxNum
      next := fun _ => none, tail := .blkList } (fun _ => rfl) blkMaxNum
  rw [hsame.1, hsame.2]
  exact ⟨hbuf, hbound⟩

/-- The blocks in `blk_list` lie in the buffer and do not overlap. -/
def Separate (rbb : RtRbb) (used : List Nat) : Prop :=
  Linked rbb.nextBlk (rbb.next .blkList) used ∧ (∀ i ∈ used, Inside rbb i) ∧
    used.Pairwise (Apart rbb.blkSet)

theorem Geometry.separate (h : Geometry rbb used) (hlists : Lists rbb used free) :
    Separate rbb used := by
  obtain ⟨front, back, rfl, hrising⟩ := h.turn
  refine ⟨hlists.blkList, h.inside, ?_⟩
  have hapart : (back ++ front).Pairwise (Apart rbb.blkSet) := hrising.imp .inl
  exact (perm_append_comm.pairwise_iff Or.symm).mp hapart

/-- In every run where the first block of an empty buffer is not larger than the buffer, the blocks
lie in the buffer and do not overlap. -/
theorem reachable_separate (rbb : RtRbb)
    (h : Reachable Initial (Within Step fun rbb a => Sized rbb a ∧ Bounded rbb a) rbb) : ∃ used, Separate rbb used := by
  have hplaced : Placed rbb := by
    refine h.invariant (fun _ h₀ => h₀.placed) ?_
    intro rbb a rbb' _ hplaced ⟨⟨hsized, hbounded⟩, hstep⟩
    obtain ⟨r, hcall, rfl⟩ := Option.map_eq_some_iff.mp hstep
    exact hplaced.call hsized hbounded hcall
  obtain ⟨used, free, hlists, hgeometry⟩ := hplaced
  exact ⟨used, hgeometry.separate hlists⟩

/-- Three descriptors for a buffer of ten bytes. -/
def tenBytes : RtRbb :=
  rtRbbInit 100 10 (fun _ => { status := .unused, size := 0, buf := 0 }) 3

theorem tenBytes_initial : Initial tenBytes := ⟨100, 10, _, 3, by decide, by decide, rfl⟩

/-- The last block has wrapped: it lies in front of the first one. -/
theorem reachable_separate_wrapped : ∃ rbb : RtRbb, rbb.next .blkList = some 1 ∧
    rbb.tail = .blk 2 ∧ (rbb.blkSet 2).buf < (rbb.blkSet 1).buf ∧ ∃ used, Separate rbb used := by
  have hrun : ∃ rbb ∈ runWithin exec (fun rbb a => Sized rbb a ∧ Bounded rbb a) tenBytes [.alloc 4,
      .alloc 4, .put 2, .get, .free 2, .alloc 3],
      rbb.next .blkList = some 1 ∧ rbb.tail = .blk 2 ∧ (rbb.blkSet 2).buf = 100 ∧
      (rbb.blkSet 1).buf = 104 := by decide +kernel
  obtain ⟨rbb, hreach, hhead, htail, h₂, h₁⟩ := Reachable.of_runWithin tenBytes_initial hrun
  refine ⟨rbb, hhead, htail, ?_, reachable_separate rbb hreach⟩
  rw [h₂, h₁]
  decide

/-- An empty buffer takes a block that is larger than it. -/
theorem first_not_inside : ∃ rbb : RtRbb, Reachable Initial (Within Step Sized) rbb ∧
    ¬ ∃ used, Separate rbb used := by
  have hrun : ∃ rbb ∈ runWithin exec Sized tenBytes [.alloc 11], rbb.next .blkList = some 2 ∧
      (rbb.blkSet 2).buf = 100 ∧ (rbb.blkSet 2).size = 11 ∧
      rbb.buf + rbb.bufSize = 110 := by decide +kernel
  obtain ⟨rbb, hrbb, hhead, hbuf, hsize, hend⟩ := Reachable.of_runWithin tenBytes_initial hrun
  refine ⟨rbb, hrbb, ?_⟩
  rintro ⟨used, hlinked, hinside, -⟩
  obtain ⟨rest, rfl, -⟩ := (hhead ▸ hlinked).pop
  have hin := (hinside 2 List.mem_cons_self).2
  rw [hbuf, hsize, hend] at hin
  omega

end RtKernel.Rbb

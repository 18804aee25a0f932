import RtKernel.Drivers.RingBlkSpace

/-!
# Block queues of a ring block buffer

A queue is the first block whose data has been put, with the blocks behind it in the
list. A block is queued as long as it does not start before the last one, so there may
be a hole between two of them.
-/

open List Option

namespace RtKernel.Rbb

/-- `struct rt_rbb_blk_queue`. -/
structure RtRbbBlkQueue where
  blocks : Option Nat
  blkNum : Nat

/-- What `rt_rbb_blk_queue_get` works on, and whether it has read a node from `RT_NULL`. -/
structure QueueGet where
  rbb : RtRbb
  queue : RtRbbBlkQueue
  dataTotalSize : Nat
  pastEnd : Bool

/-- A block is added to the queue. -/
def QueueGet.takeBlock (r : QueueGet) (block : Nat) : QueueGet :=
  { r with
    rbb := r.rbb.setStatus block .get
    queue := { r.queue with blkNum := r.queue.blkNum + 1 }
    dataTotalSize := add32 r.dataTotalSize (r.rbb.blkSet block).size }

/-- A block that ends the loop. -/
def Breaks (set : Nat → RtRbbBlk) (queueDataLen last total block : Nat) : Prop :=
  (set block).status ≠ .put ∨ (set last).buf > (set block).buf ∨
    add32 total (set block).size > queueDataLen

instance (set : Nat → RtRbbBlk) (queueDataLen last total block : Nat) :
    Decidable (Breaks set queueDataLen last total block) :=
  inferInstanceAs (Decidable (_ ∨ _ ∨ _))

/-- The loop of `rt_rbb_blk_queue_get`, which takes the next node of `RT_NULL` behind the last
one. -/
def queueLoop (queueDataLen : Nat) : Nat → QueueGet → Option Nat → Option Nat → Option QueueGet
  | _, r, _, none => some { r with pastEnd := true }
  | 0, _, _, some _ => none
  | turns + 1, r, lastBlock, some node =>
      let tmp := r.rbb.next (.blk node)
      match lastBlock with
      | none =>
          if (r.rbb.blkSet node).status = .put then
            -- save the first put status block to queue
            let r := { r with queue := { blocks := some node, blkNum := 0 } }
            queueLoop queueDataLen turns (r.takeBlock node) (some node) tmp
          else queueLoop queueDataLen turns r none tmp
      | some last =>
          if Breaks r.rbb.blkSet queueDataLen last r.dataTotalSize node then some r
          else queueLoop queueDataLen turns (r.takeBlock node) (some node) tmp

/-- `rt_rbb_blk_queue_get`. -/
def rtRbbBlkQueueGet (rbb : RtRbb) (queueDataLen : Nat) (queue : RtRbbBlkQueue) :
    Option QueueGet :=
  let r : QueueGet := { rbb := rbb, queue := queue, dataTotalSize := 0, pastEnd := false }
  match rbb.next .blkList with
  | none => some r
  | some node => queueLoop queueDataLen rbb.blkMaxNum r none (some node)

/-- The loop of `rt_rbb_blk_queue_len`; there is no result where a block is read from `RT_NULL`. -/
def queueLenLoop (rbb : RtRbb) : Nat → Option Nat → Nat → Option Nat
  | 0, _, total => some total
  | _ + 1, none, _ => none
  | n + 1, some blk, total =>
      queueLenLoop rbb n (rbb.next (.blk blk)) (add32 total (rbb.blkSet blk).size)

/-- `rt_rbb_blk_queue_len`. -/
def rtRbbBlkQueueLen (rbb : RtRbb) (queue : RtRbbBlkQueue) : Option Nat :=
  queueLenLoop rbb queue.blkNum queue.blocks 0

/-- The blocks that `rt_rbb_blk_queue_len` comes to. -/
def queueBlocks (rbb : RtRbb) : Nat → Option Nat → Option (List Nat)
  | 0, _ => some []
  | _ + 1, none => none
  | n + 1, some blk => (queueBlocks rbb n (rbb.next (.blk blk))).map (blk :: ·)

/-- A call on the object, or one that takes a queue from it. -/
inductive QueueAct
  | call (a : Act)
  | queueGet (queueDataLen : Nat) (queue : RtRbbBlkQueue)

def queueExec (rbb : RtRbb) : QueueAct → Option RtRbb
  | .call a => exec rbb a
  | .queueGet queueDataLen queue => (rtRbbBlkQueueGet rbb queueDataLen queue).map (·.rbb)

def QueueStep (rbb : RtRbb) (a : QueueAct) (rbb' : RtRbb) : Prop := queueExec rbb a = some rbb'

variable {rbb rbb' : RtRbb} {used free : List Nat} {queueDataLen : Nat}

theorem queueLoop_lists {turns : Nat} {r r' : QueueGet} {last node : Option Nat}
    (h : Lists r.rbb used free) (hr : queueLoop queueDataLen turns r last node = some r') :
    Lists r'.rbb used free := by
  have htake : ∀ r : QueueGet, Lists r.rbb used free → ∀ n, (r.rbb.blkSet n).status = .put →
      Lists (r.takeBlock n).rbb used free := by
    intro r h n hput
    refine h.setStatus ?_ nofun
    rw [hput]
    nofun
  induction turns generalizing r last node with
  | zero =>
    cases node with
    | none =>
      cases hr
      exact h
    | some node => cases hr
  | succ turns ih =>
    cases node with
    | none =>
      cases hr
      exact h
    | some node =>
      unfold queueLoop at hr
      cases last with
      | none =>
        split_ifs at hr with hput
        · refine ih ?_ hr
          exact htake { r with queue := { blocks := some node, blkNum := 0 } } h node hput
        · exact ih h hr
      | some last =>
        dsimp only at hr
        split_ifs at hr with hbreaks
        · cases hr
          exact h
        · exact ih (htake r h node (not_not.mp fun hput => hbreaks (.inl hput))) hr

theorem queueGet_lists {queue : RtRbbBlkQueue} {r : QueueGet} (h : Lists rbb used free)
    (hr : rtRbbBlkQueueGet rbb queueDataLen queue = some r) : Lists r.rbb used free := by
  unfold rtRbbBlkQueueGet at hr
  cases hnext : rbb.next .blkList with
  | none =>
    rw [hnext] at hr
    cases hr
    exact h
  | some node =>
    rw [hnext] at hr
    refine queueLoop_lists ?_ hr
    exact h

theorem queue_reachable_lists (h : Reachable Initial QueueStep rbb) :
    ∃ used free, Lists rbb used free := by
  apply h.invariant
  · exact fun rbb h₀ => ⟨[], _, h₀.lists⟩
  rintro rbb a rbb' - ⟨used, free, hlists⟩ hstep
  cases a with
  | call a =>
    obtain ⟨r, hcall, rfl⟩ := map_eq_some_iff.mp hstep
    have hmoves := hlists.moves hcall
    generalize r.1 = rbb', r.2 = result at hmoves ⊢
    cases hmoves with
    | full hfree | same => exact ⟨used, free, hlists⟩
    | place hfree hn hfits hrbb₁ hlists₁ h | lose hfree hspace hrbb₁ h | status ha h
    | free hused h hset hbuf hsize hmax => exact ⟨_, _, h⟩
  | queueGet queueDataLen queue =>
    obtain ⟨r, hr, rfl⟩ := map_eq_some_iff.mp hstep
    exact ⟨used, free, queueGet_lists hlists hr⟩

/-- The counter of the loop behind some blocks. -/
def totalOf (set : Nat → RtRbbBlk) (total : Nat) (l : List Nat) : Nat :=
  l.foldl (fun total i => add32 total (set i).size) total

/-- Blocks that follow the last one without an end of the loop. -/
def Joined (set : Nat → RtRbbBlk) (queueDataLen : Nat) : Nat → Nat → List Nat → Prop
  | _, _, [] => True
  | last, total, i :: l => ¬ Breaks set queueDataLen last total i ∧
      Joined set queueDataLen i (add32 total (set i).size) l

variable {set : Nat → RtRbbBlk} {l : List Nat} {last total : Nat}

/-- The blocks behind the last one all follow it, or one of them ends the loop. -/
theorem joined_or (set : Nat → RtRbbBlk) (queueDataLen last total : Nat) (l : List Nat) :
    Joined set queueDataLen last total l ∨ ∃ taken c back, l = taken ++ c :: back ∧
      Joined set queueDataLen last total taken ∧
      Breaks set queueDataLen (taken.getLastD last) (totalOf set total taken) c := by
  induction l generalizing last total with
  | nil => exact .inl trivial
  | cons i l ih =>
    by_cases hbreaks : Breaks set queueDataLen last total i
    · exact .inr ⟨[], i, l, rfl, trivial, hbreaks⟩
    · rcases ih i (add32 total (set i).size) with hall | ⟨taken, c, back, rfl, hjoined, hc⟩
      · exact .inl ⟨hbreaks, hall⟩
      · refine .inr ⟨i :: taken, c, back, rfl, ⟨hbreaks, hjoined⟩, ?_⟩
        rw [getLastD_cons]
        exact hc

variable {set' : Nat → RtRbbBlk}

theorem breaks_congr {c : Nat} (hlast : (set' last).buf = (set last).buf) (hc : set' c = set c) :
    Breaks set' queueDataLen last total c ↔ Breaks set queueDataLen last total c := by
  unfold Breaks
  rw [hlast, hc]

theorem joined_congr (hlast : (set' last).buf = (set last).buf)
    (hset : ∀ i ∈ l, set' i = set i) (h : Joined set queueDataLen last total l) :
    Joined set' queueDataLen last total l := by
  induction l generalizing last total with
  | nil => trivial
  | cons i l ih =>
    have hi := hset i (.head _)
    refine ⟨fun hbreaks => h.1 ((breaks_congr hlast hi).mp hbreaks), ?_⟩
    rw [hi]
    exact ih (congrArg RtRbbBlk.buf hi) (fun j hj => hset j (mem_cons_of_mem i hj)) h.2

namespace QueueGet

variable {r : QueueGet} {n i : Nat}

theorem takeBlock_of_ne (h : i ≠ n) : (r.takeBlock n).rbb.blkSet i = r.rbb.blkSet i :=
  Function.update_of_ne h ..

theorem takeBlock_place (r : QueueGet) (n i : Nat) :
    ((r.takeBlock n).rbb.blkSet i).buf = (r.rbb.blkSet i).buf ∧
      ((r.takeBlock n).rbb.blkSet i).size = (r.rbb.blkSet i).size := by
  by_cases h : i = n
  · subst h
    simp [takeBlock, RtRbb.setStatus, RtRbb.setBlk]
  · rw [takeBlock_of_ne h]
    exact ⟨rfl, rfl⟩

theorem totalOf_congr (h : ∀ i, (set' i).size = (set i).size) :
    totalOf set' total l = totalOf set total l := by
  unfold totalOf
  simp only [h]

theorem takeAll_spec (r : QueueGet) (l : List Nat) : (l.foldl takeBlock r).rbb.next = r.rbb.next ∧
      (l.foldl takeBlock r).queue = { r.queue with blkNum := r.queue.blkNum + l.length } ∧
      (l.foldl takeBlock r).dataTotalSize = totalOf r.rbb.blkSet r.dataTotalSize l ∧
      (l.foldl takeBlock r).pastEnd = r.pastEnd ∧
      ∀ i, ((l.foldl takeBlock r).rbb.blkSet i).buf = (r.rbb.blkSet i).buf ∧
        ((l.foldl takeBlock r).rbb.blkSet i).size = (r.rbb.blkSet i).size := by
  induction l generalizing r with
  | nil => exact ⟨rfl, rfl, rfl, rfl, fun _ => ⟨rfl, rfl⟩⟩
  | cons n l ih =>
    obtain ⟨hnext, hqueue, htotal, hpast, hplace⟩ := ih (r.takeBlock n)
    refine ⟨hnext, ?_, ?_, hpast, fun i => ?_⟩
    · rw [foldl_cons, hqueue]
      simp only [takeBlock, length_cons, Nat.add_right_comm, Nat.add_assoc]
    · rw [foldl_cons, htotal, totalOf_congr fun i => (takeBlock_place r n i).2]
      rfl
    · have hi := takeBlock_place r n i
      exact ⟨(hplace i).1.trans hi.1, (hplace i).2.trans hi.2⟩

theorem takeAll_of_notMem {l : List Nat} (h : i ∉ l) :
    (l.foldl takeBlock r).rbb.blkSet i = r.rbb.blkSet i := by
  induction l generalizing r with
  | nil => rfl
  | cons n l ih =>
    rw [mem_cons, not_or] at h
    rw [foldl_cons, ih h.2, takeBlock_of_ne h.1]

end QueueGet

variable {node : Option Nat}

/-- Blocks that are not put are skipped in front of the first one that is. -/
theorem queueLoop_skip {front rest : List Nat} {turns : Nat} {r : QueueGet} {node : Option Nat}
    (hlinked : Linked r.rbb.nextBlk node (front ++ rest))
    (hfront : ∀ i ∈ front, (r.rbb.blkSet i).status ≠ .put) (hturns : front.length ≤ turns) :
    ∃ node', Linked r.rbb.nextBlk node' rest ∧
      queueLoop queueDataLen turns r none node =
        queueLoop queueDataLen (turns - front.length) r none node' := by
  induction front generalizing turns node with
  | nil => exact ⟨node, hlinked, rfl⟩
  | cons i front ih =>
    obtain ⟨rfl, hrest⟩ := hlinked
    rw [length_cons] at hturns
    obtain ⟨turns, rfl⟩ := Nat.exists_eq_succ_of_ne_zero (show turns ≠ 0 by omega)
    obtain ⟨node', hnode', heq⟩ := @ih turns _ hrest
      (fun j hj => hfront j (mem_cons_of_mem i hj)) (by omega)
    refine ⟨node', hnode', ?_⟩
    rw [queueLoop]
    rw [if_neg (hfront i (.head _)), length_cons, Nat.succ_sub_succ]
    exact heq

theorem queueLoop_joined {taken rest : List Nat} {turns : Nat} {r : QueueGet} {node : Option Nat}
    (hlinked : Linked r.rbb.nextBlk node (taken ++ rest)) (hnodup : taken.Nodup)
    (hjoined : Joined r.rbb.blkSet queueDataLen last r.dataTotalSize taken)
    (hturns : taken.length ≤ turns) : ∃ node', Linked r.rbb.nextBlk node' rest ∧
      queueLoop queueDataLen turns r (some last) node =
        queueLoop queueDataLen (turns - taken.length) (taken.foldl QueueGet.takeBlock r)
          (some (taken.getLastD last)) node' := by
  induction taken generalizing turns node r last with
  | nil => exact ⟨node, hlinked, rfl⟩
  | cons i taken ih =>
    obtain ⟨rfl, hrest⟩ := hlinked
    obtain ⟨hi, hnodup⟩ := nodup_cons.mp hnodup
    rw [length_cons] at hturns
    obtain ⟨turns, rfl⟩ := Nat.exists_eq_succ_of_ne_zero (show turns ≠ 0 by omega)
    have hjoined' : Joined (r.takeBlock i).rbb.blkSet queueDataLen i
        (r.takeBlock i).dataTotalSize taken :=
      joined_congr (QueueGet.takeBlock_place r i i).1
        (fun j hj => QueueGet.takeBlock_of_ne fun he => hi (he ▸ hj)) hjoined.2
    obtain ⟨node', hnode', heq⟩ := @ih i turns (r.takeBlock i) _ hrest hnodup hjoined' (by omega)
    refine ⟨node', hnode', ?_⟩
    rw [queueLoop]
    rw [if_neg hjoined.1, length_cons, Nat.succ_sub_succ, foldl_cons,
      getLastD_cons]
    exact heq

/-- The size of some blocks. -/
def sizes (set : Nat → RtRbbBlk) (l : List Nat) : Nat := (l.map fun i => (set i).size).sum

/-- Each block starts where the one in front of it ends. -/
def Adjacent (set : Nat → RtRbbBlk) (l : List Nat) : Prop :=
  l.IsChain fun i j => (set j).buf = (set i).buf + (set i).size

/-- The loop takes the blocks from the first one that is put, and `c` ends it. -/
structure Stops (rbb : RtRbb) (used : List Nat) (queueDataLen : Nat) (front : List Nat)
    (first : Nat) (taken : List Nat) (c : Nat) (back : List Nat) : Prop where
  split : used = front ++ first :: (taken ++ c :: back)
  skipped : ∀ i ∈ front, (rbb.blkSet i).status ≠ .put
  found : (rbb.blkSet first).status = .put
  joined : Joined rbb.blkSet queueDataLen first (add32 0 (rbb.blkSet first).size) taken
  breaks : Breaks rbb.blkSet queueDataLen (taken.getLastD first)
    (totalOf rbb.blkSet 0 (first :: taken)) c

/-- What the loop leaves when it takes some blocks. -/
def takenAt (rbb : RtRbb) (first : Nat) (taken : List Nat) : QueueGet :=
  let r : QueueGet :=
    { rbb := rbb, queue := { blocks := some first, blkNum := 0 }
      dataTotalSize := 0, pastEnd := false }
  (first :: taken).foldl QueueGet.takeBlock r

variable {front taken back : List Nat} {first c : Nat} {queue : RtRbbBlkQueue}

theorem takenAt_spec (rbb : RtRbb) (first : Nat) (taken : List Nat) :
    (takenAt rbb first taken).rbb.next = rbb.next ∧
      (takenAt rbb first taken).queue = { blocks := some first, blkNum := taken.length + 1 } ∧
      (takenAt rbb first taken).dataTotalSize = totalOf rbb.blkSet 0 (first :: taken) ∧
      (takenAt rbb first taken).pastEnd = false ∧
      ∀ i, ((takenAt rbb first taken).rbb.blkSet i).buf = (rbb.blkSet i).buf ∧
        ((takenAt rbb first taken).rbb.blkSet i).size = (rbb.blkSet i).size := by
  obtain ⟨hnext, hqueue, htotal, hpast, hplace⟩ := QueueGet.takeAll_spec
    ⟨rbb, { blocks := some first, blkNum := 0 }, 0, false⟩ (first :: taken)
  rw [Nat.zero_add] at hqueue
  exact ⟨hnext, hqueue, htotal, hpast, hplace⟩

theorem takenAt_of_notMem {i : Nat} (h : i ∉ first :: taken) :
    (takenAt rbb first taken).rbb.blkSet i = rbb.blkSet i :=
  QueueGet.takeAll_of_notMem h

/-- The counter of some blocks that fit below a bound. -/
theorem totalOf_eq {l : List Nat} (h : total + sizes set l < 2 ^ 32) :
    totalOf set total l = total + sizes set l := by
  induction l generalizing total with
  | nil => rfl
  | cons i l ih =>
    have hcons : sizes set (i :: l) = (set i).size + sizes set l := by simp [sizes]
    have hadd : add32 total (set i).size = total + (set i).size := by
      unfold add32
      rw [Nat.mod_eq_of_lt (by omega)]
    rw [hcons, ← Nat.add_assoc] at h ⊢
    rw [← hadd] at h ⊢
    exact ih h

section

variable (h : Lists rbb used free)
include h

theorem queueGet_first {rest : List Nat}
    (hsplit : used = front ++ first :: rest) (hfront : ∀ i ∈ front, (rbb.blkSet i).status ≠ .put)
    (hfirst : (rbb.blkSet first).status = .put) :
    ∃ turns node, rest.length ≤ turns ∧ Linked rbb.nextBlk node rest ∧
      rtRbbBlkQueueGet rbb queueDataLen queue =
        queueLoop queueDataLen turns (takenAt rbb first []) (some first) node := by
  have hlength := h.length_le
  have hlinked := h.blkList
  rw [hsplit] at hlinked hlength
  rw [length_append, length_cons] at hlength
  obtain ⟨node₀, hnode₀⟩ : ∃ node₀, rbb.next .blkList = some node₀ := by
    rw [← ne_none_iff_exists', ne_eq, hlinked.nil_iff]
    exact append_ne_nil_of_right_ne_nil _ (cons_ne_nil first rest)
  obtain ⟨node, hnode, hskip⟩ := @queueLoop_skip queueDataLen front _ rbb.blkMaxNum
    { rbb := rbb, queue := queue, dataTotalSize := 0, pastEnd := false } _ hlinked hfront (by omega)
  obtain ⟨rfl, hrest⟩ := hnode
  obtain ⟨turns, hturns⟩ := Nat.exists_eq_succ_of_ne_zero
    (show rbb.blkMaxNum - front.length ≠ 0 by omega)
  refine ⟨turns, _, by omega, hrest, ?_⟩
  unfold rtRbbBlkQueueGet
  rw [hnode₀] at hskip ⊢
  refine hskip.trans ?_
  rw [hturns]
  exact if_pos hfirst

/-- The loop behind the blocks that follow the first one. -/
theorem queueGet_taken {rest : List Nat} (hsplit : used = front ++ first :: (taken ++ rest))
    (hfront : ∀ i ∈ front, (rbb.blkSet i).status ≠ .put) (hfirst : (rbb.blkSet first).status = .put)
    (hjoined : Joined rbb.blkSet queueDataLen first (add32 0 (rbb.blkSet first).size) taken) :
    ∃ turns node, rest.length ≤ turns ∧ Linked rbb.nextBlk node rest ∧
      rtRbbBlkQueueGet rbb queueDataLen queue =
        queueLoop queueDataLen turns (takenAt rbb first taken) (some (taken.getLastD first))
          node := by
  obtain ⟨turns, node, hturns, hlinked, heq⟩ :=
    @queueGet_first _ _ _ queueDataLen _ _ queue h _ hsplit hfront hfirst
  have hnodup := (nodup_append.mp h.nodup).1
  rw [hsplit] at hnodup
  have hnodup := (nodup_append.mp hnodup).2.1
  obtain ⟨hfirstTaken, hnodup⟩ := nodup_cons.mp (nodup_append.mp hnodup).1
  rw [length_append] at hturns
  -- behind the first block, its place and the other blocks are as before
  have hjoined' : Joined (takenAt rbb first []).rbb.blkSet queueDataLen first
      (takenAt rbb first []).dataTotalSize taken := by
    apply joined_congr (QueueGet.takeBlock_place _ first first).1 _ hjoined
    intro j hj
    exact QueueGet.takeBlock_of_ne fun he => hfirstTaken (he ▸ hj)
  obtain ⟨node', hnode', hloop⟩ := @queueLoop_joined queueDataLen first taken _ turns
    (takenAt rbb first []) _ hlinked hnodup hjoined' (by omega)
  exact ⟨_, node', by omega, hnode', heq.trans hloop⟩

theorem queueGet_stops (hstops : Stops rbb used queueDataLen front first taken c back) :
    rtRbbBlkQueueGet rbb queueDataLen queue = some (takenAt rbb first taken) := by
  obtain ⟨hsplit, hfront, hfirst, hjoined, hbreaks⟩ := hstops
  obtain ⟨turns, node, hturns, ⟨rfl, -⟩, heq⟩ :=
    @queueGet_taken _ _ _ queueDataLen _ _ _ queue h _ hsplit hfront hfirst hjoined
  have hnodup := (nodup_append.mp h.nodup).1
  rw [hsplit] at hnodup
  have hnodup := (nodup_append.mp hnodup).2.1
  rw [← cons_append] at hnodup
  have hdisj := (nodup_append.mp hnodup).2.2
  have hc : c ∉ first :: taken := fun hmem => hdisj c hmem c (.head _) rfl
  rw [length_cons] at hturns
  obtain ⟨turns, rfl⟩ := Nat.exists_eq_succ_of_ne_zero (show turns ≠ 0 by omega)
  obtain ⟨-, -, htotal, -, hplace⟩ := takenAt_spec rbb first taken
  rw [heq]
  apply if_pos
  rw [htotal]
  exact (breaks_congr (hplace _).1 (takenAt_of_notMem hc)).mpr hbreaks

/-- The loop takes blocks until one ends it, or it runs off the list. -/
theorem queueGet_cases (queueDataLen : Nat) (queue : RtRbbBlkQueue) :
    (used = [] ∧ rtRbbBlkQueueGet rbb queueDataLen queue = some ⟨rbb, queue, 0, false⟩) ∨
      (used ≠ [] ∧ ∃ r, rtRbbBlkQueueGet rbb queueDataLen queue = some r ∧ r.pastEnd = true) ∨
      ∃ front first taken c back, Stops rbb used queueDataLen front first taken c back := by
  have hend : ∀ turns r last, queueLoop queueDataLen turns r last none =
      some { r with pastEnd := true } := by
    intro turns r last
    cases turns <;> rfl
  cases hfind : used.find? (fun i => (rbb.blkSet i).status = .put) with
  | none =>
    rw [List.find?_eq_none] at hfind
    cases hused : used with
    | nil =>
      have hblk := h.blkList
      rw [hused] at hblk
      refine .inl ⟨rfl, ?_⟩
      unfold rtRbbBlkQueueGet
      rw [show rbb.next .blkList = none from hblk]
    | cons node₀ rest =>
      obtain ⟨node', hnode', hskip⟩ := @queueLoop_skip queueDataLen used [] rbb.blkMaxNum
        ⟨rbb, queue, 0, false⟩ (rbb.next .blkList) (by simpa using h.blkList)
        (fun i hi => by simpa using hfind i hi) h.length_le
      have hblk := h.blkList
      rw [hused] at hblk
      rw [show node' = none from hnode', hend] at hskip
      refine .inr (.inl ⟨cons_ne_nil node₀ rest, ⟨rbb, queue, 0, true⟩, ?_, rfl⟩)
      unfold rtRbbBlkQueueGet
      rw [hblk.1] at hskip ⊢
      exact hskip
  | some first =>
    obtain ⟨hfirst, front, rest, hsplit, hfront⟩ := List.find?_eq_some_iff_append.mp hfind
    replace hfirst : (rbb.blkSet first).status = .put := by simpa using hfirst
    replace hfront : ∀ i ∈ front, (rbb.blkSet i).status ≠ .put := fun i hi => by
      simpa using hfront i hi
    rcases joined_or rbb.blkSet queueDataLen first (add32 0 (rbb.blkSet first).size) rest with
      hjoined | ⟨taken, c, back, rfl, hjoined, hbreaks⟩
    · have hsplit' : used = front ++ first :: (rest ++ []) := by rwa [append_nil]
      obtain ⟨turns, node, -, hnode, heq⟩ :=
        @queueGet_taken _ _ _ queueDataLen _ _ _ queue h _ hsplit' hfront hfirst hjoined
      rw [show node = none from hnode, hend] at heq
      refine .inr (.inl ⟨?_, _, heq, rfl⟩)
      rw [hsplit]
      exact append_ne_nil_of_right_ne_nil _ (cons_ne_nil first rest)
    · exact .inr (.inr ⟨front, first, taken, c, back, hsplit, hfront, hfirst, hjoined, hbreaks⟩)

end

theorem queueBlocks_eq {l rest : List Nat}
    (h : Linked rbb.nextBlk node (l ++ rest)) : queueBlocks rbb l.length node = some l := by
  induction l generalizing node with
  | nil => rfl
  | cons i l ih =>
    obtain ⟨rfl, hrest⟩ := h
    exact congrArg (Option.map (i :: ·)) (ih hrest)

theorem queueBlocks_length {blkNum : Nat} {blocks : List Nat}
    (h : queueBlocks rbb blkNum node = some blocks) : blocks.length = blkNum := by
  induction blkNum generalizing node blocks with
  | zero =>
    cases h
    rfl
  | succ n ih =>
    cases node with
    | none => cases h
    | some blk =>
      obtain ⟨rest, hrest, rfl⟩ := map_eq_some_iff.mp h
      rw [length_cons, ih hrest]

theorem queueLenLoop_eq {l rest : List Nat}
    (h : Linked rbb.nextBlk node (l ++ rest)) (total : Nat) :
    queueLenLoop rbb l.length node total = some (totalOf rbb.blkSet total l) := by
  induction l generalizing node total with
  | nil => rfl
  | cons i l ih =>
    obtain ⟨rfl, hrest⟩ := h
    exact ih hrest _

/-- The queue consists of blocks of the list that were put, each of which starts where the
one in front of it ends. Its size is in the bound, and is what is returned and what
`rt_rbb_blk_queue_len` finds. No node behind the last one is read. -/
structure Serves (rbb : RtRbb) (used : List Nat) (queueDataLen : Nat) (r : QueueGet) : Prop where
  blocks : ∃ blocks, queueBlocks r.rbb r.queue.blkNum r.queue.blocks = some blocks ∧
    blocks <:+: used ∧ (∀ i ∈ blocks, (rbb.blkSet i).status = .put) ∧ Adjacent rbb.blkSet blocks ∧
    sizes rbb.blkSet blocks ≤ queueDataLen ∧ r.dataTotalSize = sizes rbb.blkSet blocks ∧
    rtRbbBlkQueueLen r.rbb r.queue = some (sizes rbb.blkSet blocks)
  inside : r.pastEnd = false

/-- From the first one that is put, the list has adjacent blocks that are put and fit, and behind
them one that is not put, that lies lower or that does not fit. -/
def Ends (rbb : RtRbb) (used : List Nat) (queueDataLen : Nat) : Prop :=
  ∃ front first taken c back, used = front ++ first :: (taken ++ c :: back) ∧
    (∀ i ∈ front, (rbb.blkSet i).status ≠ .put) ∧
    (∀ i ∈ first :: taken, (rbb.blkSet i).status = .put) ∧
    Adjacent rbb.blkSet (first :: taken) ∧ sizes rbb.blkSet (first :: taken) ≤ queueDataLen ∧
    Breaks rbb.blkSet queueDataLen (taken.getLastD first) (sizes rbb.blkSet (first :: taken)) c

theorem joined_put (h : Joined set queueDataLen last total l) : ∀ i ∈ l, (set i).status = .put := by
  induction l generalizing last total with
  | nil => exact fun _ hi => absurd hi not_mem_nil
  | cons i l ih =>
    intro j hj
    rcases mem_cons.mp hj with rfl | hj
    · exact not_not.mp fun hput => h.1 (.inl hput)
    · exact ih h.2 j hj

theorem joined_of_adjacent (hput : ∀ i ∈ l, (set i).status = .put)
    (hadj : Adjacent set (last :: l)) (hfit : total + sizes set l ≤ queueDataLen)
    (hbound : queueDataLen < 2 ^ 32) : Joined set queueDataLen last total l := by
  induction l generalizing last total with
  | nil => trivial
  | cons i l ih =>
    obtain ⟨hbuf, hrest⟩ := isChain_cons_cons.mp hadj
    have hcons : sizes set (i :: l) = (set i).size + sizes set l := by simp [sizes]
    have hadd : add32 total (set i).size = total + (set i).size := by
      unfold add32
      rw [Nat.mod_eq_of_lt (by omega)]
    refine ⟨?_, ih (fun j hj => hput j (mem_cons_of_mem i hj)) hrest (by omega)⟩
    rintro (hstatus | hlower | hlarge)
    · exact hstatus (hput i (.head _))
    · omega
    · omega

theorem linked_from {next : Nat → Option Nat} {rest : List Nat}
    (h : Linked next node (front ++ first :: rest)) : Linked next (some first) (first :: rest) := by
  induction front generalizing node with
  | nil => exact ⟨rfl, h.2⟩
  | cons i front ih => exact ih h.2

/-- What is returned where a block ends the loop is as it should be just when the blocks are. -/
theorem takenAt_serves (h : Lists rbb used free) (hq : queueDataLen < 2 ^ 32)
    (hstops : Stops rbb used queueDataLen front first taken c back) :
    Serves rbb used queueDataLen (takenAt rbb first taken) ↔
      Adjacent rbb.blkSet (first :: taken) ∧
        sizes rbb.blkSet (first :: taken) ≤ queueDataLen := by
  obtain ⟨hnext, hqueue, htotal, hpast, hplace⟩ := takenAt_spec rbb first taken
  have hsplit : used = front ++ (first :: taken) ++ c :: back := by
    rw [append_assoc]
    exact hstops.split
  have hlinked : Linked (takenAt rbb first taken).rbb.nextBlk (some first)
      ((first :: taken) ++ c :: back) := by
    have hblk := h.blkList
    rw [hstops.split] at hblk
    unfold RtRbb.nextBlk
    rw [hnext]
    exact linked_from hblk
  have hblocks := queueBlocks_eq hlinked
  constructor
  · rintro ⟨⟨blocks, heq, -, -, hadj, hle, -⟩, -⟩
    rw [hqueue] at heq
    cases hblocks.symm.trans heq
    exact ⟨hadj, hle⟩
  · rintro ⟨hadj, hle⟩
    have hsum : totalOf rbb.blkSet 0 (first :: taken) = sizes rbb.blkSet (first :: taken) := by
      rw [totalOf_eq (by omega), Nat.zero_add]
    have hput : ∀ i ∈ first :: taken, (rbb.blkSet i).status = .put :=
      forall_mem_cons.mpr ⟨hstops.found, joined_put hstops.joined⟩
    have hlen := queueLenLoop_eq hlinked 0
    rw [QueueGet.totalOf_congr fun i => (hplace i).2, hsum] at hlen
    refine ⟨⟨first :: taken, ?_, ⟨front, c :: back, hsplit.symm⟩, hput, hadj, hle, ?_, ?_⟩, hpast⟩
    · rw [hqueue]
      exact hblocks
    · exact htotal.trans hsum
    · unfold rtRbbBlkQueueLen
      rw [hqueue]
      exact hlen

/-- The list where the loop stops with the blocks as they should be. -/
theorem ends_iff (hq : queueDataLen < 2 ^ 32) : Ends rbb used queueDataLen ↔
    ∃ front first taken c back, Stops rbb used queueDataLen front first taken c back ∧
      Adjacent rbb.blkSet (first :: taken) ∧
      sizes rbb.blkSet (first :: taken) ≤ queueDataLen := by
  have hsum : ∀ l, sizes rbb.blkSet l ≤ queueDataLen →
      totalOf rbb.blkSet 0 l = sizes rbb.blkSet l := fun l hle => by
    rw [totalOf_eq (by omega), Nat.zero_add]
  constructor
  · rintro ⟨front, first, taken, c, back, hsplit, hfront, hput, hadj, hle, hbreaks⟩
    refine ⟨front, first, taken, c, back, ⟨hsplit, hfront, hput first (.head _), ?_, ?_⟩,
      hadj, hle⟩
    · have hcons : sizes rbb.blkSet (first :: taken) =
          (rbb.blkSet first).size + sizes rbb.blkSet taken := by simp [sizes]
      have hadd : add32 0 (rbb.blkSet first).size = (rbb.blkSet first).size := by
        unfold add32
        rw [Nat.zero_add, Nat.mod_eq_of_lt (by omega)]
      exact joined_of_adjacent (fun i hi => hput i (mem_cons_of_mem first hi)) hadj
        (by omega) hq
    · rw [hsum _ hle]
      exact hbreaks
  · rintro ⟨front, first, taken, c, back, hstops, hadj, hle⟩
    refine ⟨front, first, taken, c, back, hstops.split, hstops.skipped, ?_, hadj, hle, ?_⟩
    · exact forall_mem_cons.mpr ⟨hstops.found, joined_put hstops.joined⟩
    · rw [← hsum _ hle]
      exact hstops.breaks

theorem serves_iff (h : Lists rbb used free) (hq : queueDataLen < 2 ^ 32) {r : QueueGet}
    (hr : rtRbbBlkQueueGet rbb queueDataLen queue = some r) :
    Serves rbb used queueDataLen r ↔ used = [] ∧ queue.blkNum = 0 ∨ Ends rbb used queueDataLen := by
  have hends : Ends rbb used queueDataLen → Serves rbb used queueDataLen r := by
    rw [ends_iff hq]
    rintro ⟨front, first, taken, c, back, hstops, hgood⟩
    cases (queueGet_stops h hstops).symm.trans hr
    exact (takenAt_serves h hq hstops).mpr hgood
  rcases queueGet_cases h queueDataLen queue with ⟨hused, heq⟩ | ⟨hused, r', heq, hpast⟩ |
    ⟨front, first, taken, c, back, hstops⟩
  · cases heq.symm.trans hr
    constructor
    · rintro ⟨⟨blocks, hblocks, hinfix, -⟩, -⟩
      refine .inl ⟨hused, ?_⟩
      rw [hused, infix_nil] at hinfix
      rw [← queueBlocks_length hblocks, hinfix, length_nil]
    · rintro (⟨-, hnum⟩ | hends')
      · refine ⟨⟨[], ?_, nil_infix, fun _ hi => absurd hi not_mem_nil, .nil,
          Nat.zero_le _, rfl, ?_⟩, rfl⟩
        · dsimp only
          rw [hnum, queueBlocks]
        · unfold rtRbbBlkQueueLen
          rw [hnum]
          rfl
      · exact hends hends'
  · cases heq.symm.trans hr
    refine ⟨fun hserves => ?_, ?_⟩
    · cases hpast.symm.trans hserves.inside
    · rintro (⟨hempty, -⟩ | hends')
      · exact absurd hempty hused
      · exact hends hends'
  · cases (queueGet_stops h hstops).symm.trans hr
    refine ⟨fun hserves => .inr ?_, ?_⟩
    · exact (ends_iff hq).mpr ⟨_, _, _, _, _, hstops, (takenAt_serves h hq hstops).mp hserves⟩
    · rintro (⟨hused, -⟩ | hends')
      · exact absurd (hstops.split.symm.trans hused) (by simp)
      · exact hends hends'

/-- In every state of every run, the queue is as it should be just when the list is empty and the
queue was too, or when a block behind the first adjacent ones ends the loop. -/
theorem reachable_blkQueue (rbb : RtRbb) (h : Reachable Initial QueueStep rbb) :
    ∃ used free, Lists rbb used free ∧ ∀ queueDataLen < 2 ^ 32, ∀ queue, ∃ r,
      rtRbbBlkQueueGet rbb queueDataLen queue = some r ∧
        (Serves rbb used queueDataLen r ↔
          used = [] ∧ queue.blkNum = 0 ∨ Ends rbb used queueDataLen) := by
  obtain ⟨used, free, hlists⟩ := queue_reachable_lists h
  refine ⟨used, free, hlists, ?_⟩
  intro queueDataLen hq queue
  obtain ⟨r, hr⟩ : ∃ r, rtRbbBlkQueueGet rbb queueDataLen queue = some r := by
    rcases queueGet_cases hlists queueDataLen queue with ⟨-, heq⟩ | ⟨-, r, heq, -⟩ |
      ⟨front, first, taken, c, back, hstops⟩
    · exact ⟨_, heq⟩
    · exact ⟨r, heq⟩
    · exact ⟨_, queueGet_stops hlists hstops⟩
  exact ⟨r, hr, serves_iff hlists hq hr⟩

/-- Two adjacent blocks that are put make a queue in front of one that is not. -/
theorem reachable_blkQueue_two : ∃ (rbb : RtRbb) (used : List Nat) (r : QueueGet),
    rtRbbBlkQueueGet rbb 6 ⟨none, 0⟩ = some r ∧ r.queue.blkNum = 2 ∧ Serves rbb used 6 r := by
  obtain ⟨rbb, hrbb, r, hr, hhead, h₂, h₁, hset₂, hset₁, hset₀, hnum⟩ :
      ∃ rbb ∈ runAll queueExec tenBytes [.call (.alloc 4), .call (.alloc 2), .call (.alloc 2),
      .call (.put 2), .call (.put 1)], ∃ r ∈ rtRbbBlkQueueGet rbb 6 ⟨none, 0⟩,
      rbb.next .blkList = some 2 ∧ rbb.nextBlk 2 = some 1 ∧ rbb.nextBlk 1 = some 0 ∧
        rbb.blkSet 2 = ⟨.put, 4, 100⟩ ∧ rbb.blkSet 1 = ⟨.put, 2, 104⟩ ∧
        rbb.blkSet 0 = ⟨.inited, 2, 106⟩ ∧ r.queue.blkNum = 2 := by
    decide +kernel
  obtain ⟨used, free, hlists, hserves⟩ :=
    reachable_blkQueue rbb ((Reachable.start tenBytes_initial).runAll hrbb)
  obtain ⟨r', hr', hiff⟩ := hserves 6 (by decide) ⟨none, 0⟩
  cases hr.symm.trans hr'
  obtain ⟨rest₂, rfl, hrest₂⟩ := (hhead ▸ hlists.blkList).pop
  obtain ⟨rest₁, rfl, hrest₁⟩ := (h₂ ▸ hrest₂).pop
  obtain ⟨rest₀, rfl, hrest₀⟩ := (h₁ ▸ hrest₁).pop
  refine ⟨rbb, _, r, hr, hnum, hiff.mpr (.inr ⟨[], 2, [1], 0, rest₀, rfl, ?_, ?_, ?_, ?_, ?_⟩)⟩
  · exact fun _ hi => absurd hi List.not_mem_nil
  · simp [hset₂, hset₁]
  · simp [Adjacent, hset₂, hset₁]
  · simp [sizes, hset₂, hset₁]
  · simp [Breaks, hset₀]

/-- There is a hole where the middle block was freed, the first block is larger than the bound, or
the node behind the last one is read. -/
theorem hole_not_served : ∃ (rbb₁ rbb₂ rbb₃ : RtRbb) (r₁ r₂ r₃ : QueueGet),
    (Reachable Initial QueueStep rbb₁ ∧ rtRbbBlkQueueGet rbb₁ 10 ⟨none, 0⟩ = some r₁ ∧
      ∀ used, ¬ Serves rbb₁ used 10 r₁) ∧
    (Reachable Initial QueueStep rbb₂ ∧ rtRbbBlkQueueGet rbb₂ 1 ⟨none, 0⟩ = some r₂ ∧
      ∀ used, ¬ Serves rbb₂ used 1 r₂) ∧
    (Reachable Initial QueueStep rbb₃ ∧ rtRbbBlkQueueGet rbb₃ 10 ⟨none, 0⟩ = some r₃ ∧
      ∀ used, ¬ Serves rbb₃ used 10 r₃) := by
  obtain ⟨rbb₁, hrbb₁, r₁, hr₁, hblocks, hset₂, hset₀⟩ :
      ∃ rbb ∈ runAll queueExec tenBytes [.call (.alloc 2), .call (.alloc 2), .call (.alloc 2),
      .call (.put 2), .call (.put 0), .call (.free 1), .call (.alloc 2)],
      ∃ r ∈ rtRbbBlkQueueGet rbb 10 ⟨none, 0⟩,
        queueBlocks r.rbb r.queue.blkNum r.queue.blocks = some [2, 0] ∧
          rbb.blkSet 2 = ⟨.put, 2, 100⟩ ∧ rbb.blkSet 0 = ⟨.put, 2, 104⟩ := by
    decide +kernel
  obtain ⟨rbb₂, hrbb₂, r₂, hr₂, htotal⟩ :
      ∃ rbb ∈ runAll queueExec tenBytes [.call (.alloc 4), .call (.alloc 4), .call (.put 2)],
      ∃ r ∈ rtRbbBlkQueueGet rbb 1 ⟨none, 0⟩, r.dataTotalSize = 4 := by
    decide +kernel
  obtain ⟨rbb₃, hrbb₃, r₃, hr₃, hpast⟩ :
      ∃ rbb ∈ runAll queueExec tenBytes [.call (.alloc 4), .call (.put 2)],
      ∃ r ∈ rtRbbBlkQueueGet rbb 10 ⟨none, 0⟩, r.pastEnd = true := by
    decide +kernel
  have hstart : Reachable Initial QueueStep tenBytes := .start tenBytes_initial
  refine ⟨rbb₁, rbb₂, rbb₃, r₁, r₂, r₃, ⟨hstart.runAll hrbb₁, hr₁, ?_⟩,
    ⟨hstart.runAll hrbb₂, hr₂, ?_⟩, hstart.runAll hrbb₃, hr₃, ?_⟩
  · rintro used ⟨⟨blocks, hblocks', -, -, hadj, -⟩, -⟩
    cases hblocks.symm.trans hblocks'
    simp [Adjacent, hset₂, hset₀] at hadj
  · rintro used ⟨⟨blocks, -, -, -, -, hle, hsize, -⟩, -⟩
    omega
  · rintro used ⟨-, hinside⟩
    cases hpast.symm.trans hinside

end RtKernel.Rbb

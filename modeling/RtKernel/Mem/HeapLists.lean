import RtKernel.Core.DoublyLinked
import RtKernel.Mem.Memheap

/-!
# The two lists of a memory heap

All items are in one ring in the order of their addresses, and the free ones in a
second one. Headers that are apart are read back unchanged, so an operation on one
of the lists changes the links of the neighbours and nothing else.
-/

open List

namespace RtKernel.Memheap.RtMemheap

variable {h h' : RtMemheap} {a b n x v : Nat} {f g : ItemField} (s : Nat)

/-- Two headers are the same one or do not overlap. -/
def Apart (x a : Nat) : Prop := x = a ∨ x + 24 ≤ a ∨ a + 24 ≤ x

theorem Apart.refl (a : Nat) : Apart a a := .inl rfl

theorem Apart.symm (hx : Apart x a) : Apart a x := by
  unfold Apart at *
  omega

theorem ItemField.offset_cases (f g : ItemField) :
    f.offset + 4 ≤ 24 ∧ (f = g ∨ f.offset + 4 ≤ g.offset ∨ g.offset + 4 ≤ f.offset) := by
  cases f <;> cases g <;> simp [ItemField.offset]

/-- A field of a header that is stored, and all other fields. -/
theorem get_set (hx : Apart x a) (hv : v < 2 ^ 32) :
    (h.set a f v).get x g = if x = a ∧ g = f then v else h.get x g := by
  obtain ⟨hf, hfg⟩ := ItemField.offset_cases f g
  obtain ⟨hg, -⟩ := ItemField.offset_cases g f
  by_cases hsame : x = a ∧ g = f
  · obtain ⟨rfl, rfl⟩ := hsame
    rw [if_pos ⟨rfl, rfl⟩]
    exact load32_store32 hv
  · rw [if_neg hsame]
    apply load32_store32_of_disjoint
    rcases hx with rfl | hx | hx
    · rcases hfg with rfl | hfg | hfg
      · exact absurd ⟨rfl, rfl⟩ hsame
      · omega
      · omega
    · omega
    · omega

@[simp] theorem set_self : (h.set a f v).self = h.self := rfl
@[simp] theorem set_availableSize : (h.set a f v).availableSize = h.availableSize := rfl
@[simp] theorem set_maxUsedSize : (h.set a f v).maxUsedSize = h.maxUsedSize := rfl
@[simp] theorem set_freeList : (h.set a f v).freeList = h.freeList := rfl

@[simp] theorem setAvailable_get : (h.setAvailable s).get x g = h.get x g := rfl
@[simp] theorem setAvailable_availableSize : (h.setAvailable s).availableSize = s := rfl
@[simp] theorem setAvailable_maxUsedSize :
    (h.setAvailable s).maxUsedSize = h.maxUsedSize := rfl

@[simp] theorem removeFree_availableSize : (h.removeFree n).availableSize = h.availableSize := rfl
@[simp] theorem removeFree_maxUsedSize : (h.removeFree n).maxUsedSize = h.maxUsedSize := rfl
@[simp] theorem removeNextPtr_maxUsedSize : (h.removeNextPtr n).maxUsedSize = h.maxUsedSize := rfl
@[simp] theorem mergeNext_availableSize : (h.mergeNext a n).availableSize = h.availableSize := rfl
@[simp] theorem mergeNext_maxUsedSize : (h.mergeNext a n).maxUsedSize = h.maxUsedSize := rfl
@[simp] theorem mergeLeft_availableSize :
    (h.mergeLeft n).1.availableSize = add32 h.availableSize rtMemheapSize := rfl
@[simp] theorem mergeLeft_maxUsedSize : (h.mergeLeft n).1.maxUsedSize = h.maxUsedSize := rfl
@[simp] theorem insertHeader_availableSize : (h.insertHeader n).availableSize = h.availableSize := rfl
@[simp] theorem insertHeader_maxUsedSize : (h.insertHeader n).maxUsedSize = h.maxUsedSize := rfl
@[simp] theorem insertFree_availableSize : (h.insertFree n).availableSize = h.availableSize := rfl
@[simp] theorem insertItem_availableSize : (h.insertItem a n).availableSize = h.availableSize := rfl

/-- The fields of the heap that no call changes. -/
structure SameObject (h h' : RtMemheap) : Prop where
  self : h'.self = h.self
  startAddr : h'.startAddr = h.startAddr
  poolSize : h'.poolSize = h.poolSize
  freeList : h'.freeList = h.freeList

theorem SameObject.refl (h : RtMemheap) : SameObject h h := ⟨rfl, rfl, rfl, rfl⟩

theorem SameObject.trans {h₁ h₂ h₃ : RtMemheap} (h : SameObject h₁ h₂) (h' : SameObject h₂ h₃) :
    SameObject h₁ h₃ :=
  ⟨h'.self.trans h.self, h'.startAddr.trans h.startAddr, h'.poolSize.trans h.poolSize,
    h'.freeList.trans h.freeList⟩

theorem set_same (h : RtMemheap) (a : Nat) (f : ItemField) (v : Nat) : SameObject h (h.set a f v) :=
  ⟨rfl, rfl, rfl, rfl⟩

theorem removeFree_same (h : RtMemheap) (n : Nat) : SameObject h (h.removeFree n) :=
  ⟨rfl, rfl, rfl, rfl⟩

theorem insertFree_same (h : RtMemheap) (n : Nat) : SameObject h (h.insertFree n) :=
  ⟨rfl, rfl, rfl, rfl⟩

theorem insertHeader_same (h : RtMemheap) (n : Nat) : SameObject h (h.insertHeader n) :=
  ⟨rfl, rfl, rfl, rfl⟩

theorem insertItem_same (h : RtMemheap) (a n : Nat) : SameObject h (h.insertItem a n) :=
  ⟨rfl, rfl, rfl, rfl⟩

theorem removeNextPtr_same (h : RtMemheap) (n : Nat) : SameObject h (h.removeNextPtr n) :=
  ⟨rfl, rfl, rfl, rfl⟩

theorem mergeNext_same (h : RtMemheap) (a n : Nat) : SameObject h (h.mergeNext a n) :=
  ⟨rfl, rfl, rfl, rfl⟩

theorem mergeLeft_same (h : RtMemheap) (n : Nat) : SameObject h (h.mergeLeft n).1 :=
  ⟨rfl, rfl, rfl, rfl⟩

theorem rtMemcpy_same (h : RtMemheap) (dst src len : Nat) : SameObject h (h.rtMemcpy dst src len) :=
  ⟨rfl, rfl, rfl, rfl⟩

theorem removeFree_get {nf pf : Nat} (hnf : h.get n .nextFree = nf) (hpf : h.get n .prevFree = pf)
    (hxn : Apart x nf) (hxp : Apart x pf) (hn : Apart n nf) (hnlt : nf < 2 ^ 32)
    (hplt : pf < 2 ^ 32) : (h.removeFree n).get x g =
      if x = pf ∧ g = .nextFree then nf else if x = nf ∧ g = .prevFree then pf else h.get x g := by
  unfold removeFree
  simp only [hnf, hpf, get_set hn hplt, reduceCtorEq, and_false, if_false, ite_self]
  rw [get_set hxp hnlt, get_set hxn hplt]

section

variable {b : Nat} (hb : h.get h.freeList .nextFree = b)
include hb

theorem insertFree_get (hxn : Apart x n)
    (hxf : Apart x h.freeList) (hxb : Apart x b) (hnf : Apart h.freeList n) (hne : h.freeList ≠ n)
    (hnlt : n < 2 ^ 32) (hflt : h.freeList < 2 ^ 32) (hblt : b < 2 ^ 32) :
    (h.insertFree n).get x g =
      if x = h.freeList ∧ g = .nextFree then n else if x = b ∧ g = .prevFree then n
      else if x = n ∧ g = .prevFree then h.freeList
      else if x = n ∧ g = .nextFree then b else h.get x g := by
  unfold insertFree
  simp only [set_freeList, hb, get_set hnf hflt, get_set hnf hblt, hne, false_and, if_false]
  rw [get_set hxf hnlt, get_set hxb hnlt, get_set hxn hflt, get_set hxn hblt]

theorem insertHeader_get
    (hback : h.get b .prevFree = h.freeList) (hxn : Apart x n) (hxf : Apart x h.freeList)
    (hxb : Apart x b) (hbn : Apart b n) (hne : b ≠ n) (hnlt : n < 2 ^ 32)
    (hflt : h.freeList < 2 ^ 32) (hblt : b < 2 ^ 32) : (h.insertHeader n).get x g =
      if x = h.freeList ∧ g = .nextFree then n else if x = b ∧ g = .prevFree then n
      else if x = n ∧ g = .prevFree then h.freeList
      else if x = n ∧ g = .nextFree then b else h.get x g := by
  unfold insertHeader
  simp only [hb, get_set hbn hblt, get_set hbn hflt, hne, false_and, if_false, hback]
  rw [get_set hxb hnlt, get_set hxf hnlt, get_set hxn hflt, get_set hxn hblt]
  by_cases hn : g = .nextFree
  · subst hn
    simp
  · simp [hn]

end

theorem insertItem_get {b : Nat} (hb : h.get a .next = b) (hxa : Apart x a) (hxn : Apart x n)
    (hxb : Apart x b) (han : Apart a n) (hne : a ≠ n) (hself : h.self < 2 ^ 32)
    (halt : a < 2 ^ 32) (hnlt : n < 2 ^ 32) (hblt : b < 2 ^ 32) : (h.insertItem a n).get x g =
      if x = a ∧ g = .next then n else if x = b ∧ g = .prev then n
      else if x = n ∧ g = .next then b else if x = n ∧ g = .prev then a
      else if x = n ∧ g = .poolPtr then h.self
      else if x = n ∧ g = .magic then rtMemheapFreed else h.get x g := by
  have hfreed : rtMemheapFreed < 2 ^ 32 := by decide
  unfold insertItem
  simp only [set_self, hb, get_set han hfreed, get_set han hself, get_set han halt,
    get_set han hblt, hne, false_and, if_false]
  rw [get_set hxa hnlt, get_set hxb hnlt, get_set hxn hblt, get_set hxn halt, get_set hxn hself,
    get_set hxn hfreed]

/-- What it stores to take an item out of the ring of all items. -/
theorem dropItem_get {nx pv : Nat} (hxn : Apart x nx) (hxp : Apart x pv) (hnlt : nx < 2 ^ 32)
    (hplt : pv < 2 ^ 32) : ((h.set nx .prev pv).set pv .next nx).get x g =
      if x = pv ∧ g = .next then nx else if x = nx ∧ g = .prev then pv else h.get x g := by
  rw [get_set hxp hnlt, get_set hxn hplt]

/-- The items in front of the tail, and the free ones, are linked in this order. -/
structure Rings (h : RtMemheap) (tail : Nat) (items free : List Nat) : Prop where
  ring : Ring (h.get · .next) (h.get · .prev) tail items
  freeRing : Ring (h.get · .nextFree) (h.get · .prevFree) h.freeList free
  sorted : (items ++ [tail]).Pairwise fun a b => a + 24 ≤ b
  /-- The header of the free list lies in front of all items or behind them. -/
  outside : (∀ a ∈ items ++ [tail], h.freeList + 24 ≤ a) ∨ tail + 24 ≤ h.freeList
  tail_lt : tail + 24 ≤ 2 ^ 32
  header_lt : h.freeList + 24 ≤ 2 ^ 32
  self_lt : h.self < 2 ^ 32
  nodup : free.Nodup
  sub : ∀ a ∈ free, a ∈ items

/-- The header of the free list, and all items. -/
def nodes (h : RtMemheap) (tail : Nat) (items : List Nat) : List Nat :=
  h.freeList :: (items ++ [tail])

namespace Rings

variable {tail : Nat} {items free l₁ l₂ : List Nat}

section

variable (R : Rings h tail items free)
include R

theorem item_lt (ha : a ∈ items) : a + 24 ≤ tail :=
  (pairwise_append.mp R.sorted).2.2 a ha tail (mem_singleton_self tail)

/-- The header of the free list is apart from each item. -/
theorem header (ha : a ∈ items ++ [tail]) : h.freeList + 24 ≤ a ∨ a + 24 ≤ h.freeList := by
  rcases R.outside with hlow | hhigh
  · exact .inl (hlow a ha)
  · rcases mem_append.mp ha with ha | ha
    · have hlt := R.item_lt ha
      exact .inr (by omega)
    · exact .inr (mem_singleton.mp ha ▸ hhigh)

theorem node_lt (hx : x ∈ h.nodes tail items) : x + 24 ≤ 2 ^ 32 := by
  have htail := R.tail_lt
  rcases mem_cons.mp hx with rfl | hx
  · exact R.header_lt
  · rcases mem_append.mp hx with hx | hx
    · have hlt := R.item_lt hx
      omega
    · exact mem_singleton.mp hx ▸ htail

theorem apart (hx : x ∈ h.nodes tail items) (ha : a ∈ h.nodes tail items) : Apart x a := by
  rcases mem_cons.mp hx with rfl | hx
  · rcases mem_cons.mp ha with rfl | ha
    · exact .refl _
    · exact .inr (R.header ha)
  · rcases mem_cons.mp ha with rfl | ha
    · exact Apart.symm (.inr (R.header hx))
    · have hsymm : Std.Symm Apart := ⟨fun _ _ hxa => hxa.symm⟩
      have hpair : (items ++ [tail]).Pairwise Apart := R.sorted.imp fun hle => .inr (.inl hle)
      exact hpair.forall_of_forall (fun y _ => .refl y) hx ha

end

theorem tail_node (h : RtMemheap) (tail : Nat) (items : List Nat) : tail ∈ h.nodes tail items :=
  .tail _ (mem_append_right items (mem_singleton_self tail))

theorem item_node (ha : a ∈ items) : a ∈ h.nodes tail items :=
  .tail _ (mem_append_left [tail] ha)

theorem ring_node (ha : a ∈ tail :: items) : a ∈ h.nodes tail items := by
  rcases mem_cons.mp ha with rfl | ha
  · exact tail_node h a items
  · exact item_node ha

section

variable (R : Rings h tail items free)
include R

theorem free_node (ha : a ∈ h.freeList :: free) : a ∈ h.nodes tail items := by
  rcases mem_cons.mp ha with rfl | ha
  · exact .head _
  · exact item_node (R.sub a ha)

theorem items_nodup : (tail :: items).Nodup := by
  have hnodup : (items ++ [tail]).Nodup := R.sorted.imp fun hle heq => by omega
  exact (perm_append_singleton tail items).nodup_iff.mp hnodup

theorem frees_nodup : (h.freeList :: free).Nodup := by
  refine nodup_cons.mpr ⟨fun hm => ?_, R.nodup⟩
  have hne := R.header (mem_append_left [tail] (R.sub _ hm))
  omega

/-- An item that is not free is neither the header of the free list nor the first free item. -/
theorem new_free (hn : n ∈ items) (hfree : n ∉ free) :
    h.freeList ≠ n ∧ h.get h.freeList .nextFree ≠ n := by
  have hne : h.freeList ≠ n := by
    rintro rfl
    have hapart := R.header (mem_append_left [tail] hn)
    omega
  refine ⟨hne, fun heq => ?_⟩
  have hb := (R.freeRing.next_spec (mem_cons_self (a := h.freeList))).1
  rw [heq] at hb
  exact (mem_cons.mp hb).elim hne.symm hfree

/-- Where only the links of the free list are stored. -/
theorem of_frees (hsame : SameObject h h')
    (hget : ∀ x ∈ h.nodes tail items, h'.get x .next = h.get x .next ∧ h'.get x .prev = h.get x .prev)
    {free' : List Nat} (hring : Ring (h'.get · .nextFree) (h'.get · .prevFree) h.freeList free')
    (hnodup : free'.Nodup) (hsub : ∀ a ∈ free', a ∈ items) : Rings h' tail items free' where
  ring := R.ring.congr (fun x hx => (hget x (ring_node hx)).1) fun x hx => (hget x (ring_node hx)).2
  freeRing := hsame.freeList ▸ hring
  sorted := R.sorted
  outside := hsame.freeList ▸ R.outside
  tail_lt := R.tail_lt
  header_lt := hsame.freeList ▸ R.header_lt
  self_lt := hsame.self ▸ R.self_lt
  nodup := hnodup
  sub := hsub

end

theorem removeFree (R : Rings h tail items (l₁ ++ n :: l₂)) :
    Rings (h.removeFree n) tail items (l₁ ++ l₂) ∧ ∀ x ∈ h.nodes tail items, ∀ g,
      g ≠ .nextFree → g ≠ .prevFree → (h.removeFree n).get x g = h.get x g := by
  have hn : n ∈ h.freeList :: (l₁ ++ n :: l₂) := by simp
  have hnf := R.free_node (R.freeRing.next_spec hn).1
  have hpf := R.free_node (R.freeRing.prev_spec hn).1
  have hnode := R.free_node hn
  have hlt := R.node_lt hnf
  have hlt' := R.node_lt hpf
  have hget : ∀ x ∈ h.nodes tail items, ∀ g, (h.removeFree n).get x g =
      if x = h.get n .prevFree ∧ g = .nextFree then h.get n .nextFree
      else if x = h.get n .nextFree ∧ g = .prevFree then h.get n .prevFree else h.get x g := by
    intro x hx g
    exact removeFree_get rfl rfl (R.apart hx hnf) (R.apart hx hpf) (R.apart hnode hnf) (by omega)
      (by omega)
  have hsub : ∀ a ∈ l₁ ++ l₂, a ∈ l₁ ++ n :: l₂ := fun a ha =>
    ((sublist_cons_self n l₂).append_left l₁).subset ha
  constructor
  · apply R.of_frees (removeFree_same h n)
    · intro x hx
      rw [hget x hx, hget x hx]
      simp
    · apply R.freeRing.remove R.frees_nodup
      · rw [hget _ hpf]
        simp
      · rw [hget _ hnf]
        simp
      all_goals
        intro x hx hne
        rw [hget x (R.free_node (mem_cons.mpr ((mem_cons.mp hx).imp_right (hsub x))))]
        simp [hne]
    · exact R.nodup.sublist ((sublist_cons_self n l₂).append_left l₁)
    · exact fun a ha => R.sub a (hsub a ha)
  · intro x hx g hnext hprev
    rw [hget x hx]
    simp [hnext, hprev]

section

variable (R : Rings h tail items free)
include R

theorem push (hn : n ∈ items) (hfree : n ∉ free)
    (hsame : SameObject h h') (hget : ∀ x ∈ h.nodes tail items, ∀ g, h'.get x g =
      if x = h.freeList ∧ g = .nextFree then n
      else if x = h.get h.freeList .nextFree ∧ g = .prevFree then n
      else if x = n ∧ g = .prevFree then h.freeList
      else if x = n ∧ g = .nextFree then h.get h.freeList .nextFree else h.get x g) :
    Rings h' tail items (n :: free) ∧ ∀ x ∈ h.nodes tail items, ∀ g,
      g ≠ .nextFree → g ≠ .prevFree → h'.get x g = h.get x g := by
  have hb := (R.freeRing.next_spec (mem_cons_self (a := h.freeList))).1
  obtain ⟨hne, hbn⟩ := R.new_free hn hfree
  have hnode : n ∈ h.nodes tail items := item_node hn
  constructor
  · apply R.of_frees hsame
    · intro x hx
      rw [hget x hx, hget x hx]
      simp
    · apply Ring.insert (t := []) R.freeRing R.frees_nodup (f := []) (a := h.freeList) rfl
      · rw [hget _ (.head _)]
        simp
      · rw [hget _ hnode]
        simp [hbn.symm]
      · rw [hget _ hnode]
        simp [hne.symm]
      · rw [hget _ (R.free_node hb)]
        simp
      · intro x hx hxf
        have hxn : x ≠ n := by
          rintro rfl
          exact (mem_cons.mp hx).elim hxf hfree
        rw [hget x (R.free_node hx)]
        simp [hxf, hxn]
      · intro x hx hxb
        have hxn : x ≠ n := by
          rintro rfl
          exact (mem_cons.mp hx).elim hne.symm hfree
        rw [hget x (R.free_node hx)]
        simp [hxb, hxn]
    · exact nodup_cons.mpr ⟨hfree, R.nodup⟩
    · intro a ha
      rcases mem_cons.mp ha with rfl | ha
      · exact hn
      · exact R.sub a ha
  · intro x hx g hnext hprev
    rw [hget x hx]
    simp [hnext, hprev]

theorem insertFree (hn : n ∈ items) (hfree : n ∉ free) :
    Rings (h.insertFree n) tail items (n :: free) ∧ ∀ x ∈ h.nodes tail items, ∀ g,
      g ≠ .nextFree → g ≠ .prevFree → (h.insertFree n).get x g = h.get x g := by
  have hfnode : h.freeList ∈ h.nodes tail items := mem_cons_self
  have hbnode := R.free_node (R.freeRing.next_spec (mem_cons_self (a := h.freeList))).1
  have hnode : n ∈ h.nodes tail items := item_node hn
  have hlt := R.node_lt hnode
  have hlt' := R.node_lt hfnode
  have hlt'' := R.node_lt hbnode
  refine R.push hn hfree (insertFree_same h n) fun x hx g => ?_
  exact insertFree_get rfl (R.apart hx hnode) (R.apart hx hfnode) (R.apart hx hbnode)
    (R.apart hfnode hnode) (R.new_free hn hfree).1 (by omega) (by omega) (by omega)

/-- `rt_memheap_free` inserts an item in the same way. -/
theorem insertHeader (hn : n ∈ items) (hfree : n ∉ free) :
    Rings (h.insertHeader n) tail items (n :: free) ∧ ∀ x ∈ h.nodes tail items, ∀ g,
      g ≠ .nextFree → g ≠ .prevFree → (h.insertHeader n).get x g = h.get x g := by
  have hf := mem_cons_self (a := h.freeList) (l := free)
  have hfnode : h.freeList ∈ h.nodes tail items := mem_cons_self
  have hbnode := R.free_node (R.freeRing.next_spec hf).1
  have hback := (R.freeRing.next_spec hf).2
  have hnode : n ∈ h.nodes tail items := item_node hn
  obtain ⟨hne, hbn⟩ := R.new_free hn hfree
  have hlt := R.node_lt hnode
  have hlt' := R.node_lt hfnode
  have hlt'' := R.node_lt hbnode
  refine R.push hn hfree (insertHeader_same h n) fun x hx g => ?_
  exact insertHeader_get rfl hback (R.apart hx hnode) (R.apart hx hfnode) (R.apart hx hbnode)
    (R.apart hbnode hnode) hbn (by omega) (by omega) (by omega)

theorem setMark (ha : a ∈ h.nodes tail items) (hv : v < 2 ^ 32)
    (hf : f = .magic ∨ f = .poolPtr) : Rings (h.set a f v) tail items free := by
  have hget : ∀ x ∈ h.nodes tail items, ∀ g, g ≠ f → (h.set a f v).get x g = h.get x g := by
    intro x hx g hg
    rw [get_set (R.apart hx ha) hv, if_neg fun hand => hg hand.2]
  apply R.of_frees (set_same h a f v)
  · intro x hx
    rw [hget x hx, hget x hx]
    · exact ⟨rfl, rfl⟩
    all_goals rcases hf with rfl | rfl <;> simp
  · apply R.freeRing.congr
    all_goals
      intro x hx
      apply hget x (R.free_node hx)
      rcases hf with rfl | rfl <;> simp
  · exact R.nodup
  · exact R.sub

/-- The links of an item that is not free are of no use. -/
theorem clear (ha : a ∈ items) (hfree : a ∉ free) (hv : v < 2 ^ 32)
    (hf : f = .nextFree ∨ f = .prevFree) : Rings (h.set a f v) tail items free := by
  have hnode : a ∈ h.nodes tail items := item_node ha
  have hne := (R.new_free ha hfree).1
  apply R.of_frees (set_same h a f v)
  · intro x hx
    rw [get_set (R.apart hx hnode) hv, get_set (R.apart hx hnode) hv]
    rcases hf with rfl | rfl <;> simp
  · have hother : ∀ x ∈ h.freeList :: free, ∀ g, (h.set a f v).get x g = h.get x g := by
      intro x hx g
      rw [get_set (R.apart (R.free_node hx) hnode) hv, if_neg]
      rintro ⟨rfl, -⟩
      exact (mem_cons.mp hx).elim hne.symm hfree
    exact R.freeRing.congr (fun x hx => hother x hx _) fun x hx => hother x hx _
  · exact R.nodup
  · exact R.sub

theorem congr (hmem : h'.mem = h.mem) (hsame : SameObject h h') : Rings h' tail items free := by
  have hget : ∀ x g, h'.get x g = h.get x g := fun x g => by rw [get, get, hmem]
  apply R.of_frees hsame
  · exact fun x _ => ⟨hget x _, hget x _⟩
  · exact R.freeRing.congr (fun x _ => hget x _) fun x _ => hget x _
  · exact R.nodup
  · exact R.sub

end

theorem next_eq (R : Rings h tail (l₁ ++ a :: l₂) free) {k : List Nat} (hk : l₂ ++ [tail] = b :: k) :
    h.get a .next = b ∧ h.get b .prev = a :=
  R.ring.link (f := tail :: l₁) rfl hk

theorem exists_next (l₂ : List Nat) (tail : Nat) : ∃ b k, l₂ ++ [tail] = b :: k := by
  cases l₂ with
  | nil => exact ⟨tail, [], rfl⟩
  | cons b k => exact ⟨b, k ++ [tail], rfl⟩

theorem next_le (R : Rings h tail items free) (ha : a ∈ items) :
    a + 24 ≤ h.get a .next ∧ h.get a .next ≤ tail := by
  obtain ⟨l₁, l₂, rfl⟩ := append_of_mem ha
  obtain ⟨b, k, hk⟩ := exists_next l₂ tail
  have hsorted := R.sorted
  rw [append_assoc, cons_append, hk] at hsorted
  have hab := (pairwise_cons.mp (pairwise_append.mp hsorted).2.1).1 b (.head _)
  have hb : b ∈ l₂ ++ [tail] := hk ▸ mem_cons_self
  rw [(R.next_eq hk).1]
  refine ⟨hab, ?_⟩
  rcases mem_append.mp hb with hb | hb
  · have hlt := R.item_lt (mem_append_right l₁ (mem_cons_of_mem a hb))
    omega
  · rw [mem_singleton.mp hb]

section

variable (R : Rings h tail (l₁ ++ a :: l₂) free) (han : a + 24 ≤ n) (hnb : n + 24 ≤ h.get a .next)
include R han hnb

/-- The place between an item and the next one keeps the order of the addresses. -/
theorem sorted_insert :
    ((l₁ ++ [a]) ++ n :: (l₂ ++ [tail])).Pairwise fun a b => a + 24 ≤ b := by
  obtain ⟨b, k, hk⟩ := exists_next l₂ tail
  have hsorted := R.sorted
  rw [append_assoc, cons_append, append_cons l₁, hk] at hsorted
  rw [(R.next_eq hk).1] at hnb
  rw [hk]
  obtain ⟨hleft, hright, hcross⟩ := pairwise_append.mp hsorted
  refine pairwise_append.mpr ⟨hleft, pairwise_cons.mpr ⟨fun x hx => ?_, hright⟩, fun x hx y hy => ?_⟩
  · rcases mem_cons.mp hx with rfl | hx
    · exact hnb
    · have hle := (pairwise_cons.mp hright).1 x hx
      omega
  · rcases mem_cons.mp hy with rfl | hy
    · rcases mem_append.mp hx with hx | hx
      · have hle := (pairwise_append.mp hleft).2.2 x hx a (mem_singleton_self a)
        omega
      · exact mem_singleton.mp hx ▸ han
    · exact hcross x hx y hy

/-- The new header meets no other one. -/
theorem new_apart (hx : x ∈ h.nodes tail (l₁ ++ a :: l₂)) : x + 24 ≤ n ∨ n + 24 ≤ x := by
  obtain ⟨-, hright, hcross⟩ := pairwise_append.mp (R.sorted_insert han hnb)
  have ha : a ∈ l₁ ++ a :: l₂ := mem_append_right l₁ (.head l₂)
  have hle := (R.next_le ha).2
  rcases mem_cons.mp hx with rfl | hx
  · rcases R.outside with hlow | hhigh
    · have hlow := hlow a (mem_append_left [tail] ha)
      exact .inl (by omega)
    · exact .inr (by omega)
  · rw [append_assoc, cons_append, append_cons l₁] at hx
    rcases mem_append.mp hx with hx | hx
    · exact .inl (hcross x hx n (.head _))
    · exact .inr ((pairwise_cons.mp hright).1 x hx)

/-- What is read after the insertion, of an item and of the new one. -/
theorem insertItem_gets :
    (∀ x ∈ h.nodes tail (l₁ ++ a :: l₂), ∀ g, (h.insertItem a n).get x g =
      if x = a ∧ g = .next then n else if x = h.get a .next ∧ g = .prev then n else h.get x g) ∧
    ∀ g, (h.insertItem a n).get n g = if g = .next then h.get a .next else if g = .prev then a
      else if g = .poolPtr then h.self else if g = .magic then rtMemheapFreed else h.get n g := by
  have hmem : a ∈ tail :: (l₁ ++ a :: l₂) := by simp
  have hanode := ring_node (h := h) hmem
  have hbnode := ring_node (h := h) (R.ring.next_spec hmem).1
  have hapart : ∀ x ∈ h.nodes tail (l₁ ++ a :: l₂), Apart x n := fun x hx =>
    .inr (R.new_apart han hnb hx)
  have hself := R.self_lt
  have hblt := R.node_lt hbnode
  have hne : a ≠ n := by omega
  constructor
  · intro x hx g
    have hxn : x ≠ n := by
      have hxn := R.new_apart han hnb hx
      omega
    rw [insertItem_get rfl (R.apart hx hanode) (hapart x hx) (R.apart hx hbnode) (hapart a hanode)
      hne hself (by omega) (by omega) (by omega)]
    simp [hxn]
  · intro g
    have hbn : n ≠ h.get a .next := by omega
    rw [insertItem_get rfl (hapart a hanode).symm (.refl n) (hapart _ hbnode).symm (hapart a hanode)
      hne hself (by omega) (by omega) (by omega)]
    simp [hne.symm, hbn]

/-- The ring of all items has the new one behind `a`. -/
theorem insertItem_ring : Ring ((h.insertItem a n).get · .next) ((h.insertItem a n).get · .prev) tail
    (l₁ ++ a :: n :: l₂) := by
  obtain ⟨hget, hnew⟩ := R.insertItem_gets han hnb
  have hring := R.ring
  have hnodup := R.items_nodup
  have hnode : ∀ x ∈ tail :: (l₁ ++ a :: l₂), x ∈ h.nodes tail (l₁ ++ a :: l₂) := fun x => ring_node
  have hmem : a ∈ tail :: (l₁ ++ a :: l₂) := by simp
  rw [append_cons l₁] at hring hnodup hnode hget hmem ⊢
  apply hring.insert (f := tail :: l₁) (a := a) hnodup rfl
  · rw [hget a (hnode a hmem)]
    simp
  · rw [hnew]
    simp
  · rw [hnew]
    simp
  · rw [hget _ (hnode _ (hring.next_spec hmem).1)]
    simp
  · intro x hx hxa
    rw [hget x (hnode x hx)]
    simp [hxa]
  · intro x hx hxb
    rw [hget x (hnode x hx)]
    simp [hxb]

/-- An item is put in between an item and the next one. -/
theorem insertItem : Rings (h.insertItem a n) tail (l₁ ++ a :: n :: l₂) free ∧
      (h.insertItem a n).get n .magic = rtMemheapFreed ∧
      (h.insertItem a n).get n .poolPtr = h.self ∧
      (h.insertItem a n).get n .next = h.get a .next ∧ (h.insertItem a n).get a .next = n ∧
      ∀ x ∈ h.nodes tail (l₁ ++ a :: l₂), ∀ g, g ≠ .prev → (g = .next → x ≠ a) →
        (h.insertItem a n).get x g = h.get x g := by
  obtain ⟨hget, hnew⟩ := R.insertItem_gets han hnb
  have ha : a ∈ l₁ ++ a :: l₂ := mem_append_right l₁ (.head l₂)
  have hsorted := R.sorted_insert han hnb
  refine ⟨⟨R.insertItem_ring han hnb, ?_, ?_, ?_, R.tail_lt, R.header_lt, R.self_lt, R.nodup, ?_⟩,
    ?_, ?_, ?_, ?_, ?_⟩
  · apply R.freeRing.congr
    all_goals
      intro x hx
      rw [hget x (R.free_node hx)]
      simp
  · rwa [append_assoc, cons_append, cons_append, append_cons l₁]
  · refine R.outside.imp_left fun hlow x hx => ?_
    have hlowa := hlow a (mem_append_left [tail] ha)
    by_cases hxn : x = n
    · rw [hxn]
      exact hlowa.trans (by omega)
    · apply hlow x
      simp only [mem_append, mem_cons] at hx ⊢
      tauto
  · intro x hx
    have hx := R.sub x hx
    simp only [mem_append, mem_cons] at hx ⊢
    tauto
  · rw [hnew]
    simp
  · rw [hnew]
    simp
  · rw [hnew]
    simp
  · rw [hget a (item_node ha)]
    simp
  · intro x hx g hprev hnext
    rw [hget x hx, if_neg, if_neg]
    · exact fun hand => hprev hand.2
    · exact fun hand => hnext hand.2 hand.1

end

/-- An item that is not free is merged into the one in front of it. -/
theorem dropItem (R : Rings h tail (l₁ ++ n :: l₂) free) (hn : n ∉ free) (hsame : SameObject h h')
    (hget : ∀ x ∈ h.nodes tail (l₁ ++ n :: l₂), ∀ g, h'.get x g =
      if x = h.get n .prev ∧ g = .next then h.get n .next
      else if x = h.get n .next ∧ g = .prev then h.get n .prev else h.get x g) :
    Rings h' tail (l₁ ++ l₂) free ∧ ∀ x ∈ h.nodes tail (l₁ ++ n :: l₂), ∀ g, g ≠ .prev →
      (g = .next → x ≠ h.get n .prev) → h'.get x g = h.get x g := by
  have hmem : n ∈ tail :: (l₁ ++ n :: l₂) := by simp
  have hnx := ring_node (h := h) (R.ring.next_spec hmem).1
  have hpv := ring_node (h := h) (R.ring.prev_spec hmem).1
  have hsub : (l₁ ++ l₂).Sublist (l₁ ++ n :: l₂) := (sublist_cons_self n l₂).append_left l₁
  have hnode : ∀ x ∈ tail :: (l₁ ++ l₂), x ∈ h.nodes tail (l₁ ++ n :: l₂) := fun x hx =>
    ring_node (mem_cons.mpr ((mem_cons.mp hx).imp_right (hsub.subset ·)))
  constructor
  · constructor
    · apply R.ring.remove R.items_nodup
      · rw [hget _ hpv]
        simp
      · rw [hget _ hnx]
        simp
      all_goals
        intro x hx hne
        rw [hget x (hnode x hx)]
        simp [hne]
    · rw [hsame.freeList]
      apply R.freeRing.congr
      all_goals
        intro x hx
        rw [hget x (R.free_node hx)]
        simp
    · exact R.sorted.sublist (hsub.append_right [tail])
    · rw [hsame.freeList]
      exact R.outside.imp_left fun hlow x hx => hlow x ((hsub.append_right [tail]).subset hx)
    · exact R.tail_lt
    · rw [hsame.freeList]
      exact R.header_lt
    · rw [hsame.self]
      exact R.self_lt
    · exact R.nodup
    · intro x hx
      have hxn : x ≠ n := fun heq => hn (heq ▸ hx)
      have hx := R.sub x hx
      simp only [mem_append, mem_cons] at hx ⊢
      tauto
  · intro x hx g hprev hnext
    rw [hget x hx, if_neg, if_neg]
    · exact fun hand => hprev hand.2
    · exact fun hand => hnext hand.2 hand.1

/-- The item `n` is merged into the one in front of it, and is in no list. -/
def Merges (h h' : RtMemheap) (tail : Nat) (l₁ l₂ free : List Nat) (a n : Nat) : Prop :=
  Rings h' tail (l₁ ++ a :: l₂) (free.erase n) ∧ h'.get a .next = h.get n .next ∧
    ∀ x ∈ h.nodes tail (l₁ ++ a :: n :: l₂), ∀ g, g ≠ .prev → g ≠ .nextFree → g ≠ .prevFree →
      (g = .next → x ≠ a) → h'.get x g = h.get x g

section

variable (R : Rings h tail (l₁ ++ a :: n :: l₂) free)
include R

theorem merged_nodes : n ∈ h.nodes tail (l₁ ++ a :: n :: l₂) ∧
    a ∈ h.nodes tail (l₁ ++ a :: n :: l₂) ∧ h.get n .next ∈ h.nodes tail (l₁ ++ a :: n :: l₂) ∧
      a < 2 ^ 32 ∧ h.get n .next < 2 ^ 32 := by
  have hmem : n ∈ l₁ ++ a :: n :: l₂ := by simp
  have hanode : a ∈ h.nodes tail (l₁ ++ a :: n :: l₂) := item_node (by simp)
  have hnx := ring_node (h := h) (R.ring.next_spec (mem_cons_of_mem tail hmem)).1
  have hlt := R.node_lt hanode
  have hlt' := R.node_lt hnx
  exact ⟨item_node hmem, hanode, hnx, by omega, by omega⟩

/-- A free item is merged into the one in front of it, in any order of the stores. -/
theorem merge (hn : n ∈ free) (hsame : SameObject h h')
    (hget : ∀ x ∈ h.nodes tail (l₁ ++ a :: n :: l₂), ∀ g, h'.get x g =
      if x = a ∧ g = .next then h.get n .next else if x = h.get n .next ∧ g = .prev then a
      else (h.removeFree n).get x g) :
    Merges h h' tail l₁ l₂ free a n := by
  obtain ⟨f₁, f₂, rfl⟩ := append_of_mem hn
  obtain ⟨-, hnotf, hdisj⟩ := nodup_append.mp R.nodup
  have hnot₂ := (nodup_cons.mp hnotf).1
  have hnot₁ : n ∉ f₁ := fun hm => hdisj n hm n (.head _) rfl
  have herase : (f₁ ++ n :: f₂).erase n = f₁ ++ f₂ := by
    rw [erase_append_right _ hnot₁, erase_cons_head]
  obtain ⟨R₁, hkeep⟩ := R.removeFree
  have hitems : l₁ ++ a :: n :: l₂ = (l₁ ++ [a]) ++ n :: l₂ := by simp
  have hitems' : l₁ ++ a :: l₂ = (l₁ ++ [a]) ++ l₂ := by simp
  have hnode : n ∈ h.nodes tail (l₁ ++ a :: n :: l₂) := item_node (by simp)
  have hanode : a ∈ h.nodes tail (l₁ ++ a :: n :: l₂) := item_node (by simp)
  have hprev : (h.removeFree n).get n .prev = a := by
    rw [hkeep n hnode .prev (by simp) (by simp)]
    exact (R.next_eq (b := n) (k := l₂ ++ [tail]) rfl).2
  have hnext : (h.removeFree n).get n .next = h.get n .next := hkeep n hnode .next (by simp) (by simp)
  rw [hitems] at R₁
  have hnot : n ∉ f₁ ++ f₂ := fun hm => (mem_append.mp hm).elim hnot₁ hnot₂
  have hsame₁ : SameObject (h.removeFree n) h' :=
    ⟨hsame.self, hsame.startAddr, hsame.poolSize, hsame.freeList⟩
  obtain ⟨R₂, hkeep₂⟩ := R₁.dropItem hnot hsame₁ (fun x hx g => by
    rw [hprev, hnext]
    exact hget x (hitems ▸ hx) g)
  rw [Merges, herase, hitems']
  refine ⟨R₂, ?_, ?_⟩
  · rw [hget a hanode]
    simp
  · intro x hx g hgp hgn hgf hga
    have hx₂ : x ∈ (h.removeFree n).nodes tail ((l₁ ++ [a]) ++ n :: l₂) := hitems ▸ hx
    rw [hkeep₂ x hx₂ g hgp (fun hg => hprev ▸ hga hg), hkeep x hx g hgn hgf]

theorem removeNextPtr (hn : n ∈ free) :
    Merges h (h.removeNextPtr n) tail l₁ l₂ free a n := by
  refine R.merge hn (removeNextPtr_same h n) fun x hx g => ?_
  obtain ⟨hnode, hanode, hnx, halt, hnxlt⟩ := R.merged_nodes
  obtain ⟨f₁, f₂, rfl⟩ := append_of_mem hn
  obtain ⟨R₁, hkeep⟩ := R.removeFree
  have hprev : (h.removeFree n).get n .prev = a := by
    rw [hkeep n hnode .prev (by simp) (by simp)]
    exact (R.next_eq (b := n) (k := l₂ ++ [tail]) rfl).2
  have hnext : (h.removeFree n).get n .next = h.get n .next := hkeep n hnode .next (by simp) (by simp)
  unfold RtMemheap.removeNextPtr
  simp only [hprev, hnext, get_set (R.apart hnode hnx) halt, reduceCtorEq, and_false, if_false,
    ite_self]
  rw [dropItem_get (R.apart hx hnx) (R.apart hx hanode) hnxlt halt]

/-- An item is merged into the one in front of it, and then leaves the free list. -/
theorem mergeNext (hn : n ∈ free) : Merges h (h.mergeNext a n) tail l₁ l₂ free a n := by
  refine R.merge hn (mergeNext_same h a n) fun x hx g => ?_
  obtain ⟨hnode, hanode, hnx, halt, hnxlt⟩ := R.merged_nodes
  have hfn := mem_cons_of_mem h.freeList hn
  have hnf := R.free_node (R.freeRing.next_spec hfn).1
  have hpf := R.free_node (R.freeRing.prev_spec hfn).1
  have hlt := R.node_lt hnf
  have hlt' := R.node_lt hpf
  have hdrop : ∀ x ∈ h.nodes tail (l₁ ++ a :: n :: l₂), ∀ g,
      ((h.set (h.get n .next) .prev a).set a .next (h.get n .next)).get x g =
        if x = a ∧ g = .next then h.get n .next else if x = h.get n .next ∧ g = .prev then a
        else h.get x g := fun x hx g =>
    dropItem_get (R.apart hx hnx) (R.apart hx hanode) hnxlt halt
  have hread : (h.set (h.get n .next) .prev a).get n .next = h.get n .next := by
    rw [get_set (R.apart hnode hnx) halt]
    simp
  unfold RtMemheap.mergeNext
  simp only [hread]
  rw [removeFree_get (by rw [hdrop n hnode]; simp) (by rw [hdrop n hnode]; simp) (R.apart hx hnf)
    (R.apart hx hpf) (R.apart hnode hnf) (by omega) (by omega), hdrop x hx,
    removeFree_get rfl rfl (R.apart hx hnf) (R.apart hx hpf) (R.apart hnode hnf) (by omega)
      (by omega)]
  -- the stores are to different fields
  cases g <;> simp

/-- A block is merged into the free item in front of it. -/
theorem mergeLeft (hn : n ∉ free) :
    (h.mergeLeft n).2 = a ∧ Merges h (h.mergeLeft n).1 tail l₁ l₂ free a n := by
  obtain ⟨hnode, hanode, hnx, halt, hnxlt⟩ := R.merged_nodes
  have hprev : h.get n .prev = a := (R.next_eq (b := n) (k := l₂ ++ [tail]) rfl).2
  have hne : n ≠ a := by
    have hnodup := (nodup_cons.mp R.items_nodup).2
    obtain ⟨-, hright, -⟩ := nodup_append.mp hnodup
    exact fun heq => (nodup_cons.mp hright).1 (heq ▸ mem_cons_self)
  have hitems : l₁ ++ a :: n :: l₂ = (l₁ ++ [a]) ++ n :: l₂ := by simp
  have hitems' : l₁ ++ a :: l₂ = (l₁ ++ [a]) ++ l₂ := by simp
  have hread : (h.set a .next (h.get n .next)).get n .next = h.get n .next ∧
      (h.set a .next (h.get n .next)).get n .prev = a := by
    rw [get_set (R.apart hnode hanode) hnxlt, get_set (R.apart hnode hanode) hnxlt, hprev]
    simp
  have hget : ∀ x ∈ h.nodes tail (l₁ ++ a :: n :: l₂), ∀ g, (h.mergeLeft n).1.get x g =
      if x = h.get n .prev ∧ g = .next then h.get n .next
      else if x = h.get n .next ∧ g = .prev then h.get n .prev else h.get x g := by
    intro x hx g
    have hset : ∀ s b f v, ((h.setAvailable s).set b f v) = (h.set b f v).setAvailable s :=
      fun _ _ _ _ => rfl
    have hset' : ∀ s b f v, (((h.set a .next (h.get n .next)).setAvailable s).set b f v) =
        ((h.set a .next (h.get n .next)).set b f v).setAvailable s := fun _ _ _ _ => rfl
    unfold RtMemheap.mergeLeft
    simp only [setAvailable_get, hprev, hset, hread, hset']
    rw [get_set (R.apart hx hnx) halt, get_set (R.apart hx hanode) hnxlt]
    cases g <;> simp
  have hnext : (h.mergeLeft n).1.get a .next = h.get n .next := by
    rw [hget a hanode, hprev]
    simp
  have hgoes : (h.mergeLeft n).2 = a := by
    change (h.mergeLeft n).1.get n .prev = a
    rw [hget n hnode, hprev]
    simp
  rw [hitems] at R hget
  obtain ⟨R', hkeep⟩ := R.dropItem hn (mergeLeft_same h n) hget
  rw [hprev] at hkeep
  rw [Merges, erase_of_not_mem hn, hitems, hitems']
  exact ⟨hgoes, R', hnext, fun x hx g hback _ _ => hkeep x hx g hback⟩

end

end Rings

end RtKernel.Memheap.RtMemheap

import RtKernel.Mem.HeapLayout

/-!
# The bytes outside the headers

The lists of a heap are kept in its headers. To link an item, to take it out or to merge
it leaves all other bytes as they were.
-/

open List

namespace RtKernel.Memheap.RtMemheap

variable {h k k' : RtMemheap} {a n p s v x tail : Nat} {f : ItemField}
  {N items items' free l₁ l₂ : List Nat}

/-- What is stored to headers at `N` are addresses of headers. -/
structure Moves (N : List Nat) (k k' : RtMemheap) : Prop where
  links : ∀ x ∈ N, ∀ g, k.get x g ∈ N → k'.get x g ∈ N
  bytes : ∀ p, (∀ x ∈ N, p < x ∨ x + 24 ≤ p) → k'.mem p = k.mem p

theorem set_mem (hp : p < a ∨ a + 24 ≤ p) : (k.set a f v).mem p = k.mem p := by
  have hoffset := (ItemField.offset_cases f f).1
  unfold set store32
  dsimp only
  rw [if_neg, if_neg, if_neg, if_neg]
  all_goals omega

theorem Moves.trans (hk : Moves N h k) (hk' : Moves N k k') : Moves N h k' :=
  ⟨fun x hx g hg => hk'.links x hx g (hk.links x hx g hg),
    fun p hp => (hk'.bytes p hp).trans (hk.bytes p hp)⟩

/-- The first bytes of a block are not stored to. -/
def SameData (h h' : RtMemheap) (a s : Nat) : Prop :=
  ∀ p, a + 24 ≤ p → p < a + 24 + s → h'.mem p = h.mem p

/-- A heap stays the same object, and only headers are stored to. -/
structure Keeps (h h' : RtMemheap) (tail : Nat) (items : List Nat) : Prop extends SameObject h h' where
  bytes : ∀ p, (∀ x ∈ h.nodes tail items, p < x ∨ x + 24 ≤ p) → h'.mem p = h.mem p

namespace Keeps

theorem refl (h : RtMemheap) (tail : Nat) (items : List Nat) : Keeps h h tail items :=
  ⟨.refl h, fun _ _ => rfl⟩

theorem trans (hk : Keeps h k tail items) (hk' : Keeps k k' tail items) : Keeps h k' tail items := by
  refine ⟨hk.toSameObject.trans hk'.toSameObject, fun p hp => ?_⟩
  rw [hk'.bytes p (by unfold nodes; rwa [hk.freeList]), hk.bytes p hp]

theorem mono (hk : Keeps h k tail items) (hsub : items ⊆ items') : Keeps h k tail items' := by
  refine ⟨hk.toSameObject, fun p hp => hk.bytes p fun x hx => hp x ?_⟩
  unfold nodes at *
  rw [mem_cons, mem_append] at *
  exact hx.imp_right (.imp_left (hsub ·))

theorem setAvailable (hk : Keeps (h.setAvailable s) k tail items) : Keeps h k tail items :=
  ⟨(⟨rfl, rfl, rfl, rfl⟩ : SameObject h (h.setAvailable s)).trans hk.toSameObject, hk.bytes⟩

theorem set (ha : a ∈ items) : Keeps h (h.set a f v) tail items :=
  ⟨set_same h a f v, fun _ hp => set_mem (hp a (Rings.item_node ha))⟩

end Keeps

namespace Rings

section

variable (R : Rings h tail items free)
include R

theorem links (hn : n ∈ items) :
    h.get n .next ∈ h.nodes tail items ∧ h.get n .prev ∈ h.nodes tail items :=
  have hmem := mem_cons_of_mem tail hn
  ⟨ring_node (R.ring.next_spec hmem).1, ring_node (R.ring.prev_spec hmem).1⟩

theorem freeLinks (hn : n ∈ h.freeList :: free) :
    h.get n .nextFree ∈ h.nodes tail items ∧ h.get n .prevFree ∈ h.nodes tail items :=
  ⟨R.free_node (R.freeRing.next_spec hn).1, R.free_node (R.freeRing.prev_spec hn).1⟩

theorem set_moves (ha : a ∈ h.nodes tail items) (hv : v ∈ h.nodes tail items) :
    Moves (h.nodes tail items) k (k.set a f v) := by
  refine ⟨fun x hx g hg => ?_, fun p hp => set_mem (hp a ha)⟩
  have hlt := R.node_lt hv
  rw [get_set (R.apart hx ha) (by omega)]
  split
  · exact hv
  · exact hg

theorem removeFree_moves (hn : n ∈ h.nodes tail items) (hnext : k.get n .nextFree ∈ h.nodes tail items)
    (hprev : k.get n .prevFree ∈ h.nodes tail items) :
    Moves (h.nodes tail items) k (k.removeFree n) :=
  have hfirst := R.set_moves hnext hprev
  hfirst.trans (R.set_moves (hfirst.links n hn _ hprev) (hfirst.links n hn _ hnext))

theorem removeFree_keeps (hn : n ∈ free) : Keeps h (h.removeFree n) tail items :=
  have hfree := R.freeLinks (.tail _ hn)
  ⟨removeFree_same h n, (R.removeFree_moves (item_node (R.sub n hn)) hfree.1 hfree.2).bytes⟩

theorem mergeNext_keeps (ha : a ∈ items) (hn : n ∈ free) : Keeps h (h.mergeNext a n) tail items :=
  have hnode := item_node (R.sub n hn)
  have hnext := (R.links (R.sub n hn)).1
  have hfree := R.freeLinks (.tail _ hn)
  have hfirst := R.set_moves hnext (item_node ha)
  have hlinks := hfirst.trans (R.set_moves (item_node ha) (hfirst.links n hnode _ hnext))
  ⟨mergeNext_same h a n, (hlinks.trans (R.removeFree_moves hnode (hlinks.links n hnode _ hfree.1)
    (hlinks.links n hnode _ hfree.2))).bytes⟩

theorem removeNextPtr_keeps (hn : n ∈ free) : Keeps h (h.removeNextPtr n) tail items :=
  have hnode := item_node (R.sub n hn)
  have hlink := R.links (R.sub n hn)
  have hfree := R.freeLinks (.tail _ hn)
  have hfirst := R.removeFree_moves hnode hfree.1 hfree.2
  have hnext := hfirst.links n hnode _ hlink.1
  have hprev := hfirst.links n hnode _ hlink.2
  have hlinks := R.set_moves hnext hprev
  ⟨removeNextPtr_same h n, ((hfirst.trans hlinks).trans (R.set_moves (hlinks.links n hnode _ hprev)
    (hlinks.links n hnode _ hnext))).bytes⟩

theorem mergeLeft_keeps (hn : n ∈ items) : Keeps h (h.mergeLeft n).1 tail items :=
  have hlink := R.links hn
  have hfirst := R.set_moves (f := .next) hlink.2 hlink.1
  have hlinks := hfirst.trans (R.set_moves (f := .prev)
    (hfirst.links n (item_node hn) _ hlink.1) (hfirst.links n (item_node hn) _ hlink.2))
  ⟨mergeLeft_same h n, hlinks.bytes⟩

theorem insertFree_keeps (hn : n ∈ items) : Keeps h (h.insertFree n) tail items :=
  have hhead : h.freeList ∈ h.nodes tail items := .head _
  have hnext := (R.freeLinks (.head _)).1
  have hlinks := (R.set_moves (item_node hn) hnext).trans (R.set_moves (item_node hn) hhead)
  ⟨insertFree_same h n, ((hlinks.trans (R.set_moves (hlinks.links _ hhead _ hnext)
    (item_node hn))).trans (R.set_moves hhead (item_node hn))).bytes⟩

theorem insertHeader_keeps (hn : n ∈ items) : Keeps h (h.insertHeader n) tail items :=
  have hfirst := R.freeRing.next_spec (mem_cons_self (a := h.freeList))
  have hnext := R.free_node hfirst.1
  have hback := (R.freeLinks hfirst.1).2
  have hset := R.set_moves (item_node hn) hnext
  have hlinks := hset.trans (R.set_moves (item_node hn) (hset.links _ hnext _ hback))
  ⟨insertHeader_same h n, ((hlinks.trans (R.set_moves (hlinks.links _ hnext _ hback)
    (item_node hn))).trans (R.set_moves hnext (item_node hn))).bytes⟩

end

theorem insertItem_keeps (R : Rings h tail (l₁ ++ a :: l₂) free) (han : a + 24 ≤ n) :
    Keeps h (h.insertItem a n) tail (l₁ ++ a :: n :: l₂) := by
  refine ⟨insertItem_same h a n, fun p hp => ?_⟩
  have ha : a ∈ l₁ ++ a :: l₂ := by simp
  have hother : ∀ x ∈ h.nodes tail (l₁ ++ a :: l₂), p < x ∨ x + 24 ≤ p := by
    intro x hx
    apply hp x
    simp only [nodes, mem_cons, mem_append] at *
    tauto
  have hread : ∀ (k : RtMemheap) f v, (k.set n f v).get a .next = k.get a .next := by
    intro k f v
    apply load32_store32_of_disjoint
    have hoffset : ItemField.offset .next = 8 := rfl
    omega
  unfold RtMemheap.insertItem
  simp only [hread, set_mem (hother a (item_node ha)), set_mem (hother _ (R.links ha).1),
    set_mem (hp n (item_node (by simp)))]

end Rings

theorem Rings.data_apart (R : Rings h tail items free) (ha : a ∈ items) {x : Nat}
    (hx : x ∈ h.nodes tail items) : x ≤ a ∨ h.get a .next ≤ x := by
  have hle := (R.next_le ha).2
  rcases mem_cons.mp hx with rfl | hx
  · rcases R.header (mem_append_left [tail] ha) with hlow | hhigh
    · exact .inl (by omega)
    · rcases R.outside with hout | hout
      · have hout := hout a (mem_append_left [tail] ha)
        omega
      · exact .inr (by omega)
  · obtain ⟨l₁, l₂, rfl⟩ := append_of_mem ha
    obtain ⟨b, k, hk⟩ := exists_next l₂ tail
    have hsorted := R.sorted
    rw [append_assoc, cons_append, hk] at hsorted hx
    obtain ⟨-, hright, hcross⟩ := pairwise_append.mp hsorted
    rw [(R.next_eq hk).1]
    rcases mem_append.mp hx with hx | hx
    · have hxa := hcross x hx a (.head _)
      exact .inl (by omega)
    · rcases mem_cons.mp hx with rfl | hx
      · exact .inl le_rfl
      · rcases mem_cons.mp hx with rfl | hx
        · exact .inr le_rfl
        · have hbx := (pairwise_cons.mp (pairwise_cons.mp hright).2).1 x hx
          exact .inr (by omega)

/-- The data of a block, where no new header is put on it. -/
theorem Keeps.sameData (hk : Keeps h k tail items') (R : Rings h tail items free) (ha : a ∈ items)
    (hs : a + 24 + s ≤ h.get a .next) (hnew : ∀ x ∈ items', x ∈ items ∨ a + 24 + s ≤ x ∨ x ≤ a) :
    SameData h k a s := by
  intro p hlo hhi
  apply hk.bytes
  intro x hx
  have hcases : x ∈ h.nodes tail items ∨ a + 24 + s ≤ x ∨ x ≤ a := by
    simp only [nodes, mem_cons, mem_append] at hx ⊢
    rcases hx with hx | hx | hx
    · exact .inl (.inl hx)
    · exact (hnew x hx).imp_left fun hx => .inr (.inl hx)
    · exact .inl (.inr (.inr hx))
  rcases hcases with hx | hx
  · have hapart := R.data_apart ha hx
    omega
  · omega

end RtKernel.Memheap.RtMemheap

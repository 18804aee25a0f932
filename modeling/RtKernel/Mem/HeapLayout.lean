import RtKernel.Mem.HeapLists
import Mathlib.Algebra.Order.BigOperators.Group.List

/-!
# The layout of a memory heap

The marks of the items say which of them are free, and no two free ones are
neighbours. The sizes of all items and their headers add up to the region, so the
counters do not wrap.
-/

open List

namespace RtKernel.Memheap.RtMemheap

variable {h h' : RtMemheap} {a b n x v tail : Nat} {items free l₁ l₂ : List Nat}

/-- The size of the data of an item. -/
def size (h : RtMemheap) (item : Nat) : Nat := h.get item .next - item - 24

namespace Rings

theorem memitemSize_eq (R : Rings h tail items free) (ha : a ∈ items) :
    h.memitemSize a = h.size a := by
  have hnext := R.next_le ha
  have htail := R.tail_lt
  have hdata : sub32 (h.get a .next) a = h.get a .next - a := sub32_eq (by omega) (by omega)
  have hheader : rtMemheapSize = 24 := rfl
  unfold memitemSize
  rw [hdata, sub32_eq (by omega) (by omega), size, hheader]

/-- What lies behind an item starts after its data. -/
theorem next_size (R : Rings h tail items free) (ha : a ∈ items) :
    h.get a .next = a + 24 + h.size a := by
  have hnext := R.next_le ha
  unfold size
  omega

/-- The items from one on fill the region up to the tail. -/
theorem sum_suffix (R : Rings h tail (l₁ ++ l₂) free) {k : List Nat} (hk : l₂ ++ [tail] = b :: k) :
    (l₂.map fun a => h.size a + 24).sum + b = tail := by
  induction l₂ generalizing l₁ b k with
  | nil =>
    cases hk
    exact Nat.zero_add tail
  | cons a rest ih =>
    obtain ⟨c, g, hc⟩ := exists_next rest tail
    have hmem : a ∈ l₁ ++ a :: rest := by simp
    have hnext := R.next_size hmem
    rw [(R.next_eq hc).1] at hnext
    have hitems : l₁ ++ a :: rest = (l₁ ++ [a]) ++ rest := by simp
    rw [hitems] at R
    have hrest := ih R hc
    rw [cons_append, List.cons.injEq] at hk
    rw [map_cons, sum_cons]
    omega

/-- Some items, their headers and the tail fit into the region. -/
theorem sum_le (R : Rings h tail items free) (hfirst : items.head? = some n) {l : List Nat}
    (hnodup : l.Nodup) (hsub : ∀ a ∈ l, a ∈ items) :
    (l.map fun a => h.size a + 24).sum + n ≤ tail := by
  obtain ⟨rest, rfl⟩ := List.head?_eq_some_iff.mp hfirst
  have R' : Rings h tail ([] ++ n :: rest) free := R
  have hall := R'.sum_suffix (b := n) (k := rest ++ [tail]) rfl
  obtain ⟨m, hperm, hsublist⟩ := subperm_of_subset hnodup hsub
  have hle : (m.map fun a => h.size a + 24).sum ≤ ((n :: rest).map fun a => h.size a + 24).sum :=
    (hsublist.map _).sum_le_sum fun _ _ => Nat.zero_le _
  have heq := (hperm.map fun a => h.size a + 24).sum_eq
  omega

theorem mem_behind {x : Nat} : x ∈ l₁ ++ a :: n :: l₂ ↔ x = n ∨ x ∈ l₁ ++ a :: l₂ := by
  simp only [mem_append, mem_cons]
  tauto

theorem not_mem_behind (R : Rings h tail (l₁ ++ a :: n :: l₂) free) : n ∉ tail :: (l₁ ++ a :: l₂) := by
  have hperm : (tail :: (l₁ ++ a :: n :: l₂)).Perm (n :: tail :: (l₁ ++ a :: l₂)) := by
    have hitems : l₁ ++ a :: n :: l₂ = (l₁ ++ [a]) ++ n :: l₂ := by simp
    have hitems' : l₁ ++ a :: l₂ = (l₁ ++ [a]) ++ l₂ := by simp
    rw [hitems, hitems']
    exact (perm_middle.cons tail).trans (List.Perm.swap n tail _)
  exact (nodup_cons.mp (hperm.nodup_iff.mp R.items_nodup)).1

/-- An item of a positive address lies in front of its data. -/
theorem header_eq (R : Rings h tail items free) (ha : a ∈ items) : sub32 (a + 24) rtMemheapSize = a := by
  have hlt := R.item_lt ha
  have htail := R.tail_lt
  have hheader : rtMemheapSize = 24 := rfl
  rw [sub32_eq (by omega) (by omega)]
  omega

end Rings

/-- The items that are marked as free, and the heap that all belong to. -/
structure Marks (h : RtMemheap) (tail : Nat) (items marked : List Nat) : Prop where
  freed : ∀ a ∈ items, a ∈ marked → h.get a .magic = rtMemheapFreed
  used : ∀ a ∈ items, a ∉ marked → h.get a .magic = rtMemheapUsed
  poolPtr : ∀ a ∈ items, h.get a .poolPtr = h.self
  tail : h.get tail .magic = rtMemheapUsed

namespace Marks

variable {items' marked marked' : List Nat}

section

variable (M : Marks h tail items marked)
include M

theorem isUsed_iff (ha : a ∈ items) : h.IsUsed a ↔ a ∉ marked := by
  unfold IsUsed
  by_cases hm : a ∈ marked
  · rw [M.freed a ha hm]
    simp [hm, rtMemheapFreed]
  · rw [M.used a ha hm]
    simp [hm, rtMemheapUsed]

theorem isUsed_tail : h.IsUsed tail := by
  unfold IsUsed
  rw [M.tail]
  decide

/-- Some of the items, of which the marks are kept. -/
theorem keep (hsame : SameObject h h') (hsub : ∀ a ∈ items', a ∈ items ∧ (a ∈ marked' ↔ a ∈ marked))
    (hkeep : ∀ x ∈ tail :: items, ∀ g, g = .magic ∨ g = .poolPtr → h'.get x g = h.get x g) :
    Marks h' tail items' marked' where
  freed a ha hm := by
    rw [hkeep a (mem_cons_of_mem tail (hsub a ha).1) .magic (.inl rfl)]
    exact M.freed a (hsub a ha).1 ((hsub a ha).2.mp hm)
  used a ha hm := by
    rw [hkeep a (mem_cons_of_mem tail (hsub a ha).1) .magic (.inl rfl)]
    exact M.used a (hsub a ha).1 fun hmem => hm ((hsub a ha).2.mpr hmem)
  poolPtr a ha := by
    rw [hkeep a (mem_cons_of_mem tail (hsub a ha).1) .poolPtr (.inr rfl), hsame.self]
    exact M.poolPtr a (hsub a ha).1
  tail := by
    rw [hkeep tail (.head _) .magic (.inl rfl)]
    exact M.tail

end

theorem insert (M : Marks h tail (l₁ ++ a :: l₂) marked) (hn : n ∉ l₁ ++ a :: l₂)
    (hsame : SameObject h h') (hmagic : h'.get n .magic = rtMemheapFreed)
    (hpool : h'.get n .poolPtr = h.self)
    (hkeep : ∀ x ∈ tail :: (l₁ ++ a :: l₂), ∀ g, g = .magic ∨ g = .poolPtr →
      h'.get x g = h.get x g) : Marks h' tail (l₁ ++ a :: n :: l₂) (n :: marked) := by
  have M' : Marks h' tail (l₁ ++ a :: l₂) (n :: marked) := by
    apply M.keep hsame _ hkeep
    intro x hx
    have hne : x ≠ n := fun heq => hn (heq ▸ hx)
    simp [hx, hne]
  constructor
  · intro x hx hm
    rcases Rings.mem_behind.mp hx with rfl | hx
    · exact hmagic
    · exact M'.freed x hx hm
  · intro x hx hm
    rcases Rings.mem_behind.mp hx with rfl | hx
    · exact absurd (.head _) hm
    · exact M'.used x hx hm
  · intro x hx
    rcases Rings.mem_behind.mp hx with rfl | hx
    · exact hpool.trans hsame.self.symm
    · exact M'.poolPtr x hx
  · exact M'.tail

/-- The magic of an item is stored, and whether it is marked follows. -/
theorem set {marked' : List Nat} (M : Marks h tail items marked) (R : Rings h tail items free)
    (ha : a ∈ items) (hv : a ∈ marked' ∧ v = rtMemheapFreed ∨ a ∉ marked' ∧ v = rtMemheapUsed)
    (hother : ∀ x ≠ a, x ∈ marked' ↔ x ∈ marked) : Marks (h.set a .magic v) tail items marked' := by
  have hlt : v < 2 ^ 32 := by rcases hv with ⟨-, rfl⟩ | ⟨-, rfl⟩ <;> decide
  have hget : ∀ x ∈ tail :: items, ∀ g, (h.set a .magic v).get x g =
      if x = a ∧ g = .magic then v else h.get x g := fun x hx g =>
    get_set (R.apart (Rings.ring_node hx) (Rings.item_node ha)) hlt
  have hmem : ∀ {x}, x ∈ items → x ∈ tail :: items := fun hx => mem_cons_of_mem tail hx
  have hne : tail ≠ a := fun heq => (nodup_cons.mp R.items_nodup).1 (heq ▸ ha)
  constructor
  · intro x hx hm
    rw [hget x (hmem hx)]
    by_cases hxa : x = a
    · subst hxa
      simp [(hv.resolve_right fun hno => hno.1 hm).2]
    · simp [hxa, M.freed x hx ((hother x hxa).mp hm)]
  · intro x hx hm
    rw [hget x (hmem hx)]
    by_cases hxa : x = a
    · subst hxa
      simp [(hv.resolve_left fun hno => hm hno.1).2]
    · simp [hxa, M.used x hx ((hother x hxa).not.mp hm)]
  · intro x hx
    rw [hget x (hmem hx)]
    simp [M.poolPtr x hx]
  · rw [hget tail (.head _)]
    simp [hne, M.tail]

theorem mark (M : Marks h tail items marked) (R : Rings h tail items free) (ha : a ∈ items) :
    Marks (h.set a .magic rtMemheapFreed) tail items (a :: marked) :=
  M.set R ha (.inl ⟨.head _, rfl⟩) fun x hxa => by simp [hxa]

theorem unmark (M : Marks h tail items marked) (R : Rings h tail items free) (ha : a ∈ items)
    (hnodup : marked.Nodup) : Marks (h.set a .magic rtMemheapUsed) tail items (marked.erase a) :=
  M.set R ha (.inr ⟨hnodup.not_mem_erase, rfl⟩) fun _ hxa => mem_erase_of_ne hxa

end Marks

/-- The rings and the marks of a heap; `marked` are the items that are marked as free. -/
structure Linked (h : RtMemheap) (tail : Nat) (items free marked : List Nat) : Prop where
  rings : Rings h tail items free
  marks : Marks h tail items marked
  first : items.head? = some h.startAddr
  tail_eq : tail + 24 = h.startAddr + h.poolSize
  pool_lt : h.poolSize < 2 ^ 32
  nodup : marked.Nodup
  sub : ∀ a ∈ marked, a ∈ items

namespace Linked

variable {items' free' marked marked' : List Nat}

section

variable (L : Linked h tail items free marked)
include L

theorem change (hsame : SameObject h h')
    (R : Rings h' tail items' free') (M : Marks h' tail items' marked')
    (hfirst : items'.head? = items.head?) (hnodup : marked'.Nodup)
    (hsub : ∀ a ∈ marked', a ∈ items') : Linked h' tail items' free' marked' where
  rings := R
  marks := M
  first := by rw [hfirst, hsame.startAddr, L.first]
  tail_eq := by rw [hsame.startAddr, hsame.poolSize, L.tail_eq]
  pool_lt := hsame.poolSize ▸ L.pool_lt
  nodup := hnodup
  sub := hsub

theorem keep (hsame : SameObject h h') (R : Rings h' tail items free')
    (hkeep : ∀ x ∈ h.nodes tail items, ∀ g, g ≠ .nextFree → g ≠ .prevFree →
      h'.get x g = h.get x g) :
    Linked h' tail items free' marked ∧ ∀ x ∈ items, h'.get x .next = h.get x .next := by
  constructor
  · apply L.change hsame R _ rfl L.nodup L.sub
    apply L.marks.keep hsame (fun a ha => ⟨ha, Iff.rfl⟩)
    intro x hx g hg
    apply hkeep x (Rings.ring_node hx)
    all_goals rcases hg with rfl | rfl <;> simp
  · exact fun x hx => hkeep x (Rings.item_node hx) .next (by simp) (by simp)

theorem removeFree (hn : n ∈ free) : Linked (h.removeFree n) tail items (free.erase n) marked ∧
      ∀ x ∈ items, (h.removeFree n).get x .next = h.get x .next := by
  obtain ⟨f₁, f₂, rfl⟩ := append_of_mem hn
  have hnot : n ∉ f₁ := fun hm =>
    (nodup_append.mp L.rings.nodup).2.2 n hm n (.head _) rfl
  obtain ⟨R, hkeep⟩ := L.rings.removeFree
  rw [erase_append_right _ hnot, erase_cons_head]
  exact L.keep (removeFree_same h n) R hkeep

theorem insertFree (hn : n ∈ items) (hfree : n ∉ free) :
    Linked (h.insertFree n) tail items (n :: free) marked ∧
      ∀ x ∈ items, (h.insertFree n).get x .next = h.get x .next := by
  obtain ⟨R, hkeep⟩ := L.rings.insertFree hn hfree
  exact L.keep (insertFree_same h n) R hkeep

theorem insertHeader (hn : n ∈ items) (hfree : n ∉ free) :
    Linked (h.insertHeader n) tail items (n :: free) marked ∧
      ∀ x ∈ items, (h.insertHeader n).get x .next = h.get x .next := by
  obtain ⟨R, hkeep⟩ := L.rings.insertHeader hn hfree
  exact L.keep (insertHeader_same h n) R hkeep

/-- The links of an item in the free list are cleared. -/
theorem clear (ha : a ∈ items) (hfree : a ∉ free) :
    Linked ((h.set a .nextFree 0).set a .prevFree 0) tail items free marked ∧
      ∀ x ∈ items, ((h.set a .nextFree 0).set a .prevFree 0).get x .next = h.get x .next := by
  have R := (L.rings.clear ha hfree (v := 0) (by decide) (.inl rfl)).clear ha hfree (v := 0)
    (by decide) (.inr rfl)
  apply L.keep ((set_same h a _ _).trans (set_same _ a _ _)) R
  intro x hx g hnext hprev
  have hapart := L.rings.apart hx (Rings.item_node ha)
  rw [get_set hapart (by decide), get_set hapart (by decide)]
  simp [hnext, hprev]

/-- Only the memory is part of the rings and the marks. -/
theorem congr (hmem : h'.mem = h.mem)
    (hsame : SameObject h h') : Linked h' tail items free marked :=
  (L.keep hsame (L.rings.congr hmem hsame) fun x _ g _ _ => by rw [get, get, hmem]).1

theorem mark (ha : a ∈ items) (hmarked : a ∉ marked) :
    Linked (h.set a .magic rtMemheapFreed) tail items free (a :: marked) ∧
      ∀ x ∈ items, (h.set a .magic rtMemheapFreed).get x .next = h.get x .next := by
  constructor
  · apply L.change (set_same h a _ _) (L.rings.setMark (Rings.item_node ha) (by decide) (.inl rfl))
      (L.marks.mark L.rings ha) rfl (nodup_cons.mpr ⟨hmarked, L.nodup⟩)
    intro x hx
    rcases mem_cons.mp hx with rfl | hx
    · exact ha
    · exact L.sub x hx
  · intro x hx
    rw [get_set (L.rings.apart (Rings.item_node hx) (Rings.item_node ha)) (by decide)]
    simp

theorem unmark (ha : a ∈ items) :
    Linked (h.set a .magic rtMemheapUsed) tail items free (marked.erase a) ∧
      ∀ x ∈ items, (h.set a .magic rtMemheapUsed).get x .next = h.get x .next := by
  constructor
  · exact L.change (set_same h a _ _)
      (L.rings.setMark (Rings.item_node ha) (by decide) (.inl rfl))
      (L.marks.unmark L.rings ha L.nodup) rfl (L.nodup.erase a)
      fun x hx => L.sub x (mem_of_mem_erase hx)
  · intro x hx
    rw [get_set (L.rings.apart (Rings.item_node hx) (Rings.item_node ha)) (by decide)]
    simp

end

theorem head_behind {l₁ : List Nat} {a : Nat} {l₂ l₃ : List Nat} :
    (l₁ ++ a :: l₂).head? = (l₁ ++ a :: l₃).head? := by
  cases l₁ <;> rfl

/-- A new item is put in between an item and the next one. -/
theorem insertItem (L : Linked h tail (l₁ ++ a :: l₂) free marked) (han : a + 24 ≤ n)
    (hnb : n + 24 ≤ h.get a .next) :
    Linked (h.insertItem a n) tail (l₁ ++ a :: n :: l₂) free (n :: marked) ∧
      n ∉ tail :: (l₁ ++ a :: l₂) ∧
      (h.insertItem a n).get n .next = h.get a .next ∧ (h.insertItem a n).get a .next = n ∧
      ∀ x ∈ l₁ ++ a :: l₂, x ≠ a → (h.insertItem a n).get x .next = h.get x .next := by
  obtain ⟨R, hmagic, hpool, hnext, hback, hkeep⟩ := L.rings.insertItem han hnb
  have hnot := R.not_mem_behind
  have hitem : n ∉ l₁ ++ a :: l₂ := fun hm => hnot (mem_cons_of_mem tail hm)
  refine ⟨?_, hnot, hnext, hback, ?_⟩
  · apply L.change (insertItem_same h a n) R _ (head_behind)
    · exact nodup_cons.mpr ⟨fun hm => hitem (L.sub n hm), L.nodup⟩
    · intro x hx
      exact Rings.mem_behind.mpr ((mem_cons.mp hx).imp_right (L.sub x ·))
    · apply L.marks.insert hitem (insertItem_same h a n) hmagic hpool
      intro x hx g hg
      apply hkeep x (Rings.ring_node hx)
      all_goals rcases hg with rfl | rfl <;> simp
  · exact fun x hx hxa => hkeep x (Rings.item_node hx) .next (by simp) fun _ => hxa

/-- The item `n` is merged into the one in front of it, with its mark. -/
def Merges (h h' : RtMemheap) (tail : Nat) (l₁ l₂ free marked : List Nat) (a n : Nat) : Prop :=
  Linked h' tail (l₁ ++ a :: l₂) (free.erase n) (marked.erase n) ∧
    h'.get a .next = h.get n .next ∧
    ∀ x ∈ l₁ ++ a :: n :: l₂, x ≠ a → h'.get x .next = h.get x .next

section

variable (L : Linked h tail (l₁ ++ a :: n :: l₂) free marked)
include L

theorem merge (hsame : SameObject h h') (M : Rings.Merges h h' tail l₁ l₂ free a n) :
    Merges h h' tail l₁ l₂ free marked a n := by
  obtain ⟨R, hnext, hkeep⟩ := M
  have hnot := L.rings.not_mem_behind
  have hmem : ∀ x ∈ l₁ ++ a :: l₂, x ∈ l₁ ++ a :: n :: l₂ ∧ x ≠ n := fun x hx =>
    ⟨Rings.mem_behind.mpr (.inr hx), fun heq => hnot (heq ▸ mem_cons_of_mem tail hx)⟩
  refine ⟨?_, hnext, ?_⟩
  · apply L.change hsame R _ (head_behind) (L.nodup.erase n)
    · intro x hx
      rw [L.nodup.mem_erase_iff] at hx
      exact (Rings.mem_behind.mp (L.sub x hx.2)).resolve_left hx.1
    · apply L.marks.keep hsame
      · intro x hx
        simp [hmem x hx]
      · intro x hx g hg
        apply hkeep x (Rings.ring_node hx)
        all_goals rcases hg with rfl | rfl <;> simp
  · exact fun x hx hxa =>
      hkeep x (Rings.item_node hx) .next (by simp) (by simp) (by simp) fun _ => hxa

theorem removeNextPtr (hn : n ∈ free) : Merges h (h.removeNextPtr n) tail l₁ l₂ free marked a n :=
  L.merge (removeNextPtr_same h n) (L.rings.removeNextPtr hn)

theorem mergeNext (hn : n ∈ free) : Merges h (h.mergeNext a n) tail l₁ l₂ free marked a n :=
  L.merge (mergeNext_same h a n) (L.rings.mergeNext hn)

theorem mergeLeft (hn : n ∉ free) :
    (h.mergeLeft n).2 = a ∧ Merges h (h.mergeLeft n).1 tail l₁ l₂ free marked a n :=
  (L.rings.mergeLeft hn).imp_right (L.merge (mergeLeft_same h n))

end

end Linked

end RtKernel.Memheap.RtMemheap

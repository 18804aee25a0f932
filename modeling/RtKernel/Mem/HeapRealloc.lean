import RtKernel.Mem.HeapCalls

/-!
# Reallocation in a memory heap

What is left of a block that shrinks, or of the free item that a block grows into,
becomes a new free item. Where a block moves, its data is copied into the new one.
-/

open List

namespace RtKernel.Memheap.RtMemheap

variable {h h' : RtMemheap} {a b n s tail : Nat} {items free marked l₁ l₂ : List Nat}

/-- Nothing that the lists need lies in the data of an item. -/
theorem Laid.congr (L : Laid h tail items free) (hsame : SameObject h h')
    (havail : h'.availableSize = h.availableSize) (hmax : h'.maxUsedSize = h.maxUsedSize)
    (hget : ∀ x ∈ h.nodes tail items, ∀ g, h'.get x g = h.get x g) : Laid h' tail items free := by
  have R : Rings h' tail items free := by
    apply L.linked.rings.of_frees hsame
    · exact fun x hx => ⟨hget x hx _, hget x hx _⟩
    · exact L.linked.rings.freeRing.congr (fun x hx => hget x (L.linked.rings.free_node hx) _)
        fun x hx => hget x (L.linked.rings.free_node hx) _
    · exact L.linked.rings.nodup
    · exact L.linked.rings.sub
  obtain ⟨L', hkeep⟩ := L.linked.keep hsame R fun x hx g _ _ => hget x hx g
  constructor
  · exact L'
  · intro x hx
    rw [hkeep x (L.linked.sub x hx)]
    exact L.separate x hx
  · rw [havail, L.counted]
    exact (total_congr fun x hx => size_congr (hkeep x (L.linked.sub x hx))).symm
  · rw [hsame.poolSize, hmax, havail]
    exact L.maxUsed

theorem Laid.data (L : Laid h tail items free) (ha : a ∈ items) (hsame : SameObject h h')
    (havail : h'.availableSize = h.availableSize) (hmax : h'.maxUsedSize = h.maxUsedSize)
    (hmem : ∀ x, x < a + 24 ∨ a + 24 + h.size a ≤ x → h'.mem x = h.mem x) :
    Laid h' tail items free := by
  apply L.congr hsame havail hmax
  intro x hx g
  have hnext := L.linked.rings.next_size ha
  have hapart := L.linked.rings.data_apart ha hx
  have hoffset := (ItemField.offset_cases g g).1
  unfold get
  apply load32_congr
  intro y hy hylt
  apply hmem
  omega

/-- A free item that is in no list yet is inserted into the free list. -/
theorem Linked.laid (L : Linked h tail items free (n :: free))
    (hseparate : ∀ x ∈ n :: free, h.get x .next ∉ n :: free)
    (hcounted : h.availableSize = h.total (n :: free))
    (hmax : h.poolSize ≤ h.maxUsedSize + h.availableSize) :
    Laid (h.insertFree n) tail items (n :: free) ∧ (h.insertFree n).memitemSize n = h.size n := by
  have hn := L.sub n (.head _)
  obtain ⟨L', hkeep⟩ := L.insertFree hn (nodup_cons.mp L.nodup).1
  constructor
  · constructor
    · exact L'
    · intro x hx
      rw [hkeep x (L.sub x hx)]
      exact hseparate x hx
    · rw [insertFree_availableSize, hcounted]
      exact (total_congr fun x hx => size_congr (hkeep x (L.sub x hx))).symm
    · exact hmax
  · rw [L'.rings.memitemSize_eq hn]
    exact size_congr (hkeep n hn)

/-- The end of a block becomes a free item, with no free one behind it. -/
theorem Linked.cut (L : Linked h tail (l₁ ++ a :: l₂) free free) (hused : a ∉ free)
    (hseparate : ∀ x ∈ free, h.get x .next ∉ free) (hnext : h.get a .next ∉ free)
    (han : a + 24 ≤ n) (hnb : n + 24 ≤ h.get a .next)
    (hcounted : h.availableSize = h.get a .next - n - 24 + h.total free)
    (hmax : h.poolSize ≤ h.maxUsedSize + h.availableSize) :
    Laid ((h.insertItem a n).insertFree n) tail (l₁ ++ a :: n :: l₂) (n :: free) ∧
      ((h.insertItem a n).insertFree n).memitemSize n = h.get a .next - n - 24 ∧
      Keeps h ((h.insertItem a n).insertFree n) tail (l₁ ++ a :: n :: l₂) ∧
      ∀ x, Held (l₁ ++ a :: n :: l₂) (n :: free) x ↔ Held (l₁ ++ a :: l₂) free x := by
  obtain ⟨L', hnot, hnew, hback, hother⟩ := L.insertItem han hnb
  have hold : ∀ x ∈ free, (h.insertItem a n).get x .next = h.get x .next := fun x hx =>
    hother x (L.sub x hx) fun heq => hused (heq ▸ hx)
  have hsize : (h.insertItem a n).size n = h.get a .next - n - 24 := by rw [size, hnew]
  obtain ⟨L'', hsize'⟩ := L'.laid (by
    intro x hx hm
    rcases mem_cons.mp hx with rfl | hx
    · rw [hnew] at hm
      rcases mem_cons.mp hm with heq | hm
      · omega
      · exact hnext hm
    · rw [hold x hx] at hm
      rcases mem_cons.mp hm with heq | hm
      · have hmem := mem_cons_of_mem tail (L.sub x hx)
        exact hnot (heq ▸ (L.rings.ring.next_spec hmem).1)
      · exact hseparate x hx hm) (by
    have hsum : (h.insertItem a n).total free = h.total free :=
      total_congr fun x hx => size_congr (hold x hx)
    rw [total_cons, hsum, insertItem_availableSize, hcounted, hsize]) hmax
  refine ⟨L'', hsize'.trans hsize, (L.rings.insertItem_keeps han).trans
    (L'.rings.insertFree_keeps (by simp)), fun x => ?_⟩
  rw [held_cons]
  unfold Held
  rw [Rings.mem_behind]
  by_cases hx : x = n
  · rw [mem_cons, not_or] at hnot
    simp [hx, hnot.2]
  · simp [hx]

/-- The end of a block becomes a free item, into which the free one behind it goes. -/
theorem Linked.cut_merge (L : Linked h tail (l₁ ++ a :: b :: l₂) free free) (hused : a ∉ free)
    (hb : b ∈ free) (hseparate : ∀ x ∈ free, h.get x .next ∉ free)
    (han : a + 24 ≤ n) (hnb : n + 24 ≤ b)
    (hcounted : h.availableSize = h.get b .next - n - 24 + h.total (free.erase b))
    (hmax : h.poolSize ≤ h.maxUsedSize + h.availableSize) :
    Laid (((h.insertItem a n).mergeNext n b).insertFree n) tail (l₁ ++ a :: n :: l₂)
        (n :: free.erase b) ∧
      (((h.insertItem a n).mergeNext n b).insertFree n).memitemSize n = h.get b .next - n - 24 ∧
      Keeps h (((h.insertItem a n).mergeNext n b).insertFree n) tail (l₁ ++ a :: n :: b :: l₂) ∧
      ∀ x, Held (l₁ ++ a :: n :: l₂) (n :: free.erase b) x ↔ Held (l₁ ++ a :: b :: l₂) free x := by
  have hlink : h.get a .next = b := (L.rings.next_eq (k := l₂ ++ [tail]) rfl).1
  obtain ⟨L₁, hnot, hnew, hback, hother⟩ := L.insertItem han (hlink ▸ hnb)
  have hitems : l₁ ++ a :: n :: b :: l₂ = (l₁ ++ [a]) ++ n :: b :: l₂ := by simp
  have hitems' : l₁ ++ a :: n :: l₂ = (l₁ ++ [a]) ++ n :: l₂ := by simp
  have hne : n ≠ b := by omega
  have hbitem := L.rings.sub b hb
  have hba : b ≠ a := fun heq => hused (heq ▸ hb)
  rw [hitems] at L₁
  obtain ⟨L₂, hnew₂, hother₂⟩ := L₁.mergeNext hb
  rw [erase_cons_tail (by simpa using hne)] at L₂
  have hold : ∀ x ∈ free.erase b, ((h.insertItem a n).mergeNext n b).get x .next = h.get x .next := by
    intro x hx
    have hx := mem_of_mem_erase hx
    have hxn : x ≠ n := fun heq => hnot (heq ▸ mem_cons_of_mem tail (L.sub x hx))
    rw [hother₂ x (hitems ▸ Rings.mem_behind.mpr (.inr (L.sub x hx))) hxn]
    exact hother x (L.sub x hx) fun heq => hused (heq ▸ hx)
  have hbnext : (h.insertItem a n).get b .next = h.get b .next := hother b hbitem hba
  have hble := (L.rings.next_le hbitem).1
  rw [hbnext] at hnew₂
  have hsize : ((h.insertItem a n).mergeNext n b).size n = h.get b .next - n - 24 := by
    rw [size, hnew₂]
  obtain ⟨L₃, hsize'⟩ := L₂.laid (by
    intro x hx hm
    rcases mem_cons.mp hx with rfl | hx
    · rw [hnew₂] at hm
      rcases mem_cons.mp hm with heq | hm
      · omega
      · exact hseparate b hb (mem_of_mem_erase hm)
    · have hxfree := mem_of_mem_erase hx
      rw [hold x hx] at hm
      rcases mem_cons.mp hm with heq | hm
      · have hmem := mem_cons_of_mem tail (L.sub x hxfree)
        exact hnot (heq ▸ (L.rings.ring.next_spec hmem).1)
      · exact hseparate x hxfree (mem_of_mem_erase hm)) (by
    have hsum : ((h.insertItem a n).mergeNext n b).total (free.erase b) = h.total (free.erase b) :=
      total_congr fun x hx => size_congr (hold x hx)
    rw [total_cons, hsum, mergeNext_availableSize, insertItem_availableSize, hcounted, hsize]) hmax
  have hkeeps : Keeps _ (((h.insertItem a n).mergeNext n b).insertFree n) tail
      ((l₁ ++ [a]) ++ n :: b :: l₂) := (L₂.rings.insertFree_keeps (n := n) (by simp)).mono
    fun x hx => Rings.mem_behind.mpr (.inr hx)
  rw [hitems', hitems]
  refine ⟨L₃, hsize'.trans hsize, (hitems ▸ L.rings.insertItem_keeps han).trans
    ((L₁.rings.mergeNext_keeps (by simp) hb).trans hkeeps), fun x => ?_⟩
  rw [held_cons, ← hitems']
  unfold Held
  rw [L.nodup.mem_erase_iff, Rings.mem_behind, Rings.mem_behind]
  by_cases hx : x = n
  · have hnfree : n ∉ free := fun hm => hnot (mem_cons_of_mem tail (L.sub n hm))
    rw [mem_cons, not_or, Rings.mem_behind, not_or] at hnot
    simp [hx, hnot.2.1, hnot.2.2]
  · by_cases hxb : x = b
    · have hbnot := L.rings.not_mem_behind
      rw [mem_cons, not_or] at hbnot
      rw [hxb]
      simp [hbnot.2, hb]
    · simp [hx, hxb]

-- the counter is no part of the lists
theorem insertItem_setAvailable (c : Nat) :
    (h.insertItem a n).setAvailable c = (h.setAvailable c).insertItem a n := rfl

theorem insertFree_setAvailable (c : Nat) :
    (h.insertFree n).setAvailable c = (h.setAvailable c).insertFree n := rfl

theorem mergeNext_setAvailable (c : Nat) :
    (h.mergeNext a n).setAvailable c = (h.setAvailable c).mergeNext a n := rfl

theorem setAvailable_setAvailable (c d : Nat) :
    (h.setAvailable d).setAvailable c = h.setAvailable c := rfl

theorem setAvailable_memitemSize (c : Nat) : (h.setAvailable c).memitemSize n = h.memitemSize n := rfl

theorem Laid.shrink_spec (L : Laid h tail items free) (ha : a ∈ items) (hused : a ∉ free)
    (hs : s ≤ h.size a) : ∃ h' items' free', h.shrink (a + 24) s = (h', a + 24) ∧ SameObject h h' ∧
      SameData h h' a s ∧ Laid h' tail items' free' ∧ ∀ x, Held items' free' x ↔ Held items free x := by
  have hfits := L.linked.total_le (l := a :: free) (nodup_cons.mpr ⟨hused, L.linked.nodup⟩)
    fun x hx => (mem_cons.mp hx).elim (fun heq => heq ▸ ha) (L.linked.sub x)
  have hpool := L.linked.pool_lt
  have htail := L.linked.rings.tail_lt
  have hnext := L.linked.rings.next_size ha
  have hle := (L.linked.rings.next_le ha).2
  have hcounted := L.counted
  have hmax := L.maxUsed
  have hheader : rtMemheapSize = 24 := rfl
  rw [total_cons, length_cons] at hfits
  have hroom : add32 s (rtMemheapSize + rtMemheapMinialloc) = s + 36 := add32_eq (by
    unfold rtMemheapMinialloc
    omega)
  unfold shrink
  rw [L.linked.rings.header_eq ha, hroom]
  dsimp only
  rw [L.linked.rings.memitemSize_eq ha]
  by_cases hsmall : s + 36 ≥ h.size a
  · rw [if_pos hsmall]
    exact ⟨h, items, free, rfl, .refl h, fun _ _ _ => rfl, L, fun _ => Iff.rfl⟩
  · rw [if_neg hsmall]
    have hsize : add32 s rtMemheapSize = s + 24 := add32_eq (by omega)
    have hnew : add32 a (s + 24) = a + (s + 24) := add32_eq (by omega)
    obtain ⟨l₁, l₂, rfl⟩ := append_of_mem ha
    obtain ⟨b, k, hk⟩ := Rings.exists_next l₂ tail
    have hlink : h.get a .next = b := (L.linked.rings.next_eq hk).1
    obtain ⟨L₁, hnot, hback, -, hother⟩ := L.linked.insertItem (n := a + (s + 24)) (by omega) (by omega)
    rw [hsize, hnew, hback, hlink]
    have hnew : ∀ x ∈ l₁ ++ a :: (a + (s + 24)) :: l₂, x ∈ l₁ ++ a :: l₂ ∨ a + 24 + s ≤ x ∨ x ≤ a :=
      fun x hx => (Rings.mem_behind.mp hx).symm.imp_right fun heq => by omega
    by_cases hbused : (h.insertItem a (a + (s + 24))).IsUsed b
    · -- what is left is a free item of its own
      have hnext' : h.get a .next ∉ free := by
        intro hm
        rw [hlink] at hm
        exact (L₁.marks.isUsed_iff (L₁.sub b (.tail _ hm))).mp hbused
          (.tail _ hm)
      have L₂ : Linked (h.setAvailable (h.get a .next - (a + (s + 24)) - 24 + h.total free)) tail
          (l₁ ++ a :: l₂) free free := L.linked.congr rfl (setAvailable_same h _)
      have hmax₂ : h.poolSize ≤ h.maxUsedSize + (h.get a .next - (a + (s + 24)) - 24 + h.total free) := by
        omega
      obtain ⟨L', hlast, hkeeps, hheld⟩ := L₂.cut (n := a + (s + 24)) hused L.separate hnext' (by omega)
        (by rw [setAvailable_get]; omega) rfl hmax₂
      rw [← insertItem_setAvailable, ← insertFree_setAvailable] at L' hlast hkeeps
      rw [setAvailable_memitemSize, setAvailable_get] at hlast
      have hadd : add32 h.availableSize (h.get a .next - (a + (s + 24)) - 24) =
          h.get a .next - (a + (s + 24)) - 24 + h.total free := by
        rw [add32_eq (by omega)]
        omega
      rw [if_neg (not_not.mpr hbused), insertFree_availableSize, insertItem_availableSize, hlast, hadd]
      exact ⟨_, _, _, rfl, hkeeps.setAvailable.toSameObject, hkeeps.setAvailable.sameData L.linked.rings
        ha (by omega) hnew, L', hheld⟩
    · -- what is left takes in the free item behind it
      obtain ⟨l₃, rfl⟩ : ∃ l₃, l₂ = b :: l₃ := by
        cases l₂ with
        | nil =>
          cases hk
          exact absurd L₁.marks.isUsed_tail hbused
        | cons c l₃ => exact ⟨l₃, by rw [(List.cons.inj hk).1]⟩
      have hbitem : b ∈ l₁ ++ a :: b :: l₃ := by simp
      have hb : b ∈ free := by
        have hbitem₁ : b ∈ l₁ ++ a :: (a + (s + 24)) :: b :: l₃ := by simp
        by_contra hm
        apply hbused
        rw [L₁.marks.isUsed_iff hbitem₁, mem_cons, not_or]
        exact ⟨by omega, hm⟩
      have hba : b ≠ a := fun heq => hused (heq ▸ hb)
      have hbnext := L.linked.rings.next_size hbitem
      have htotal := total_erase (h := h) hb
      have L₂ : Linked (h.setAvailable (h.get b .next - (a + (s + 24)) - 24 + h.total (free.erase b)))
          tail (l₁ ++ a :: b :: l₃) free free := L.linked.congr rfl (setAvailable_same h _)
      have hmax₂ : h.poolSize ≤ h.maxUsedSize +
          (h.get b .next - (a + (s + 24)) - 24 + h.total (free.erase b)) := by omega
      obtain ⟨L', hlast, hkeeps, hheld⟩ := L₂.cut_merge (n := a + (s + 24)) hused hb L.separate (by omega)
        (by omega) rfl hmax₂
      rw [← insertItem_setAvailable, ← mergeNext_setAvailable, ← insertFree_setAvailable] at L' hkeeps
      rw [← insertItem_setAvailable, ← mergeNext_setAvailable, ← insertFree_setAvailable,
        setAvailable_memitemSize, setAvailable_get] at hlast
      have hbsize : (h.insertItem a (a + (s + 24))).memitemSize b = h.size b := by
        rw [L₁.rings.memitemSize_eq (by simp)]
        exact size_congr (hother b hbitem hba)
      have hsub : sub32 h.availableSize (h.size b) = h.total (free.erase b) := by
        rw [sub32_eq (by omega) (by omega)]
        omega
      have hadd : add32 (h.total (free.erase b)) (h.get b .next - (a + (s + 24)) - 24) =
          h.get b .next - (a + (s + 24)) - 24 + h.total (free.erase b) := by
        have hble := (L.linked.rings.next_le hbitem).2
        rw [add32_eq (by omega)]
        omega
      rw [if_pos hbused, hbsize, insertItem_availableSize, hsub, insertFree_availableSize,
        mergeNext_availableSize, setAvailable_availableSize, ← mergeNext_setAvailable,
        ← insertFree_setAvailable, setAvailable_memitemSize, hlast, hadd, setAvailable_setAvailable]
      exact ⟨_, _, _, rfl, hkeeps.setAvailable.toSameObject, hkeeps.setAvailable.sameData L.linked.rings
        ha (by omega) hnew, L', hheld⟩

/-- The item behind another one, where it is free. -/
theorem Linked.exists_next (L : Linked h tail items free marked) (ha : a ∈ items)
    (hnext : ¬ h.IsUsed (h.get a .next)) :
    ∃ l₁ l₂, items = l₁ ++ a :: h.get a .next :: l₂ ∧ h.get a .next ∈ marked := by
  obtain ⟨l₁, l₂, rfl⟩ := append_of_mem ha
  obtain ⟨b, k, hk⟩ := Rings.exists_next l₂ tail
  have hlink : h.get a .next = b := (L.rings.next_eq hk).1
  rw [hlink] at hnext ⊢
  cases l₂ with
  | nil =>
    cases hk
    exact absurd L.marks.isUsed_tail hnext
  | cons c l₂ =>
    have hc : c = b := (List.cons.inj hk).1
    subst hc
    refine ⟨l₁, l₂, rfl, ?_⟩
    by_contra hm
    exact hnext ((L.marks.isUsed_iff (by simp)).mpr hm)

theorem Laid.grow_in_place (L : Laid h tail items free) (hl : items = l₁ ++ a :: b :: l₂)
    (hused : a ∉ free) (hb : b ∈ free) (hs : h.size a < s) (hroom : s + 12 < h.size b + h.size a) :
    let k := ((h.setAvailable (h.availableSize - (s - h.size a))).updateMax).removeNextPtr b
    let h' := (k.insertItem a (a + 24 + s)).insertFree (a + 24 + s)
    ∃ items' free', SameObject h h' ∧ SameData h h' a (h.size a) ∧ Laid h' tail items' free' ∧
      ∀ x, Held items' free' x ↔ Held items free x := by
  intro k h'
  subst hl
  have ha : a ∈ l₁ ++ a :: b :: l₂ := by simp
  have hbitem := L.linked.rings.sub b hb
  have hlink := (L.linked.rings.next_eq (a := a) (b := b) (k := l₂ ++ [tail]) rfl).1
  have hanext := L.linked.rings.next_size ha
  have hbnext := L.linked.rings.next_size hbitem
  have htotal := total_erase (h := h) hb
  have hcounted := L.counted
  have havail := L.available_le
  have hba : b ≠ a := fun heq => hused (heq ▸ hb)
  obtain ⟨L₁, hmax⟩ := L.linked.counters (h.availableSize - (s - h.size a)) (by omega)
  have hremoved : Keeps h k tail (l₁ ++ a :: b :: l₂) :=
    (counters_keeps _).trans (L₁.rings.removeNextPtr_keeps hb)
  obtain ⟨L₂, hback, hother⟩ := L₁.removeNextPtr hb
  rw [updateMax_get, setAvailable_get] at hback
  change Linked k _ _ _ _ at L₂
  change k.get a .next = _ at hback
  have hold : ∀ x ∈ free.erase b, k.get x .next = h.get x .next := by
    intro x hx
    have hx := mem_of_mem_erase hx
    rw [hother x (L.linked.sub x hx) fun heq => hused (heq ▸ hx), updateMax_get, setAvailable_get]
  have hcount : k.availableSize = h.availableSize - (s - h.size a) := updateMax_availableSize
  have hsum : k.total (free.erase b) = h.total (free.erase b) :=
    total_congr fun x hx => size_congr (hold x hx)
  obtain ⟨L', -, hkeeps, hheld⟩ := L₂.cut (n := a + 24 + s) (fun hm => hused (mem_of_mem_erase hm)) (by
    intro x hx hm
    rw [hold x hx] at hm
    exact L.separate x (mem_of_mem_erase hx) (mem_of_mem_erase hm)) (by
    rw [hback]
    exact fun hm => L.separate b hb (mem_of_mem_erase hm)) (by omega) (by omega) (by omega) (by
    rw [hcount, hremoved.poolSize, removeNextPtr_maxUsedSize]
    exact hmax)
  have hdata := hremoved.sameData L.linked.rings ha hanext.ge fun x hx => .inl hx
  have hdata' : SameData k h' a (h.size a) := hkeeps.sameData L₂.rings (by simp) (by omega)
    fun x hx => (Rings.mem_behind.mp hx).symm.imp_right fun heq => by omega
  refine ⟨_, _, hremoved.toSameObject.trans hkeeps.toSameObject,
    fun p hlo hhi => (hdata' p hlo hhi).trans (hdata p hlo hhi), L', fun x => (hheld x).trans ?_⟩
  unfold Held
  rw [L.linked.nodup.mem_erase_iff, Rings.mem_behind]
  by_cases hx : x = b
  · have hnot := L.linked.rings.not_mem_behind
    rw [mem_cons, not_or] at hnot
    simp [hx, hb, hnot.2]
  · simp [hx]

/-- The data of a block is copied into a larger one. -/
theorem Laid.rtMemcpy (L : Laid h tail items free) (ha : a ∈ items) (src len : Nat)
    (hlen : len ≤ h.size a) : Laid (h.rtMemcpy (a + 24) src len) tail items free := by
  apply L.data ha (rtMemcpy_same h _ _ _) rfl rfl
  intro x hx
  exact if_neg (by omega)

/-- A block that grows stays where it is or is moved, or the call has no effect. -/
theorem Laid.grow_spec (L : Laid h tail items free) (ha : a ∈ items) (hused : a ∉ free)
    (hs : h.size a < s) (hrequest : s ≤ request s)
    (hcareful : h.IsUsed (h.get a .next) ∨ s + rtMemheapMinialloc < 2 ^ 32) :
    ∃ h' p, h.grow (a + 24) s = some (h', p) ∧ SameObject h h' ∧
      (p = 0 ∧ h' = h ∨ ∃ items' free' n, p = n + 24 ∧ (n = a ∨ ¬ Held items free n) ∧
        (∀ j < h.size a, h'.mem (p + j) = h.mem (a + 24 + j)) ∧ Laid h' tail items' free' ∧
          ∀ x, Held items' free' x ↔ x = n ∨ Held items free x ∧ x ≠ a) := by
  have hnext := L.linked.rings.next_size ha
  have hle := L.linked.rings.next_le ha
  have htail := L.linked.rings.tail_lt
  have hmini : rtMemheapMinialloc = 12 := rfl
  unfold grow
  rw [L.linked.rings.header_eq ha]
  dsimp only
  rw [if_neg (not_not.mpr (by omega)), L.linked.rings.memitemSize_eq ha]
  by_cases hplace : ¬ h.IsUsed (h.get a .next) ∧
      add32 (h.memitemSize (h.get a .next)) (h.size a) > add32 s rtMemheapMinialloc
  · rw [if_pos hplace]
    obtain ⟨l₁, l₂, hl, hb⟩ := L.linked.exists_next ha hplace.1
    have hbitem := L.linked.rings.sub _ hb
    have hbnext := L.linked.rings.next_size hbitem
    have hble := (L.linked.rings.next_le hbitem).2
    have hlarge := hplace.2
    have htotal := total_erase (h := h) hb
    have hcounted := L.counted
    have havail := L.available_le
    have hpool := L.linked.pool_lt
    have hroom : add32 s rtMemheapMinialloc = s + 12 :=
      add32_eq (hcareful.resolve_left hplace.1)
    have hsum : add32 (h.size (h.get a .next)) (h.size a) = h.size (h.get a .next) + h.size a :=
      add32_eq (by omega)
    rw [L.linked.rings.memitemSize_eq hbitem, hroom, hsum] at hlarge
    have hsub : sub32 s (h.size a) = s - h.size a := sub32_eq (by omega) (by omega)
    have hsub' : sub32 h.availableSize (s - h.size a) = h.availableSize - (s - h.size a) :=
      sub32_eq (by omega) (by omega)
    have hnew : add32 (a + 24) s = a + 24 + s := add32_eq (by omega)
    rw [hsub, hsub', hnew]
    obtain ⟨items', free', hsame, hdata, L', hheld⟩ := L.grow_in_place hl hused hb hs hlarge
    refine ⟨_, _, rfl, hsame, .inr ⟨items', free', a, rfl, .inl rfl,
      fun j hj => hdata _ (by omega) (by omega), L', fun x => ?_⟩⟩
    rw [hheld]
    by_cases hx : x = a
    · simp [hx, Held, ha, hused]
    · simp [hx]
  · rw [if_neg hplace]
    obtain ⟨h₁, p, halloc, hsame, hdata, hend⟩ := L.alloc s
    rw [halloc, Option.bind_some]
    rcases hend with ⟨rfl, rfl⟩ | ⟨n, items₁, free₁, rfl, hfresh, L₁, hsize, hheld⟩
    · exact ⟨h₁, 0, if_neg fun hne => hne rfl, hsame, .inl ⟨rfl, rfl⟩⟩
    · have hn : Held items₁ free₁ n := (hheld n).mpr (.inl rfl)
      have hold : Held items₁ free₁ a := (hheld a).mpr (.inr ⟨ha, hused⟩)
      have hne : n ≠ a := fun heq => hfresh (heq ▸ ⟨ha, hused⟩)
      dsimp only
      rw [if_pos (by omega), if_pos hs]
      have L₂ := L₁.rtMemcpy hn.1 (a + 24) (h.size a) (by omega)
      obtain ⟨h', items', free', hfree, hsame', L', hheld'⟩ := L₂.free_spec hold.1 hold.2
      rw [hfree]
      refine ⟨h', n + 24, rfl, (hsame.trans (rtMemcpy_same h₁ _ _ _)).trans hsame'.toSameObject,
        .inr ⟨items', free', n, rfl, .inr hfresh, fun j hj => ?_, L', fun x => ?_⟩⟩
      · have hsize₂ := L₂.linked.rings.next_size hn.1
        have hsize₁ := L₁.linked.rings.next_size hn.1
        have hnext₂ : (h₁.rtMemcpy (n + 24) (a + 24) (h.size a)).get n .next = h₁.get n .next := by
          apply load32_congr
          intro y hy hylt
          have hoffset : ItemField.offset .next = 8 := rfl
          exact if_neg (by omega)
        have hfree' := hsame'.sameData (s := h.size a) L₂.linked.rings hn.1 (by omega)
          fun x hx => .inl hx
        rw [hfree' _ (by omega) (by omega)]
        have hcopy : (h₁.rtMemcpy (n + 24) (a + 24) (h.size a)).mem (n + 24 + j) =
            h₁.mem (a + 24 + (n + 24 + j - (n + 24))) := if_pos (by omega)
        rw [hcopy, Nat.add_sub_cancel_left]
        exact hdata a ⟨ha, hused⟩ _ (by omega) (by omega)
      · rw [hheld', hheld]
        by_cases hx : x = n
        · simp [hx, hne]
        · simp [hx]

end RtKernel.Memheap.RtMemheap

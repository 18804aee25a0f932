import RtKernel.Mem.Coalesce

/-!
# The operations on a settled heap

Each operation is given a settled heap and leaves a settled one. A request takes
a free item, a release gives back the item of the pointer, and every other used
item stays where it is.
-/

namespace RtKernel.Mem

open RtSmallMem

variable {items : Set Nat}

/-- A heap with the same header words and the same `lfree` is settled alike. -/
theorem Settled.congr {m m' : RtSmallMem} (h : Settled m items)
    (hs : SameRegion m m') (hl : m'.lfree = m.lfree)
    (hw : ∀ p ∈ items, m'.poolPtr p = m.poolPtr p ∧ m'.next p = m.next p ∧ m'.prev p = m.prev p) :
    Settled m' items := by
  have hu : ∀ p ∈ items, m'.memIsUsed p ↔ m.memIsUsed p := by
    intro p hp
    rw [memIsUsed, memIsUsed, (hw p hp).1]
  refine ⟨h.region.congr hs, h.layout.congr hs hw, ?_, ?_, ?_, ?_⟩
  · intro p hp hpe
    rw [hs.heapEnd] at hpe
    rw [hu p hp, (hw p hp).2.1, hu _ (h.layout.next_mem p hp hpe).1]
    exact h.coalesced p hp hpe
  · rw [hl]
    exact h.lfree_mem
  · rw [hl, hs.heapEnd, hu _ h.lfree_mem]
    exact h.lfree_free
  · intro p hp hfree
    rw [hl]
    exact h.lowest p hp ((hu p hp).not.mp hfree)

variable {m : RtSmallMem}

theorem Layout.setPoolPtr_next {p v : Nat} (L : Layout m items)
    (hp : p ∈ items) {s : Nat} (hs : s ∈ items) : (m.setPoolPtr p v).next s = m.next s := by
  have hsp := L.apart hs hp
  exact if_neg (by omega)

/-- Writing the status word of an inner item leaves the items as they are. -/
theorem Layout.setPoolPtr {p v : Nat} (L : Layout m items)
    (hp : p ∈ items) (hpe : p ≠ m.heapEnd) (hv : v &&& memMask = m.addr) :
    Layout (m.setPoolPtr p v) items := by
  have hnext : ∀ s ∈ items, (m.setPoolPtr p v).next s = m.next s := fun s hs =>
    L.setPoolPtr_next hp hs
  have hprev : ∀ s ∈ items, (m.setPoolPtr p v).prev s = m.prev s := by
    intro s hs
    have hsp := L.apart hs hp
    exact if_neg (by omega)
  refine ⟨L.zero_mem, L.end_mem, L.le_end, ?_, ?_, ?_, ?_, ?_, L.aligned, ?_⟩
  · intro s hs hse
    rw [hnext s hs]
    exact L.next_mem s hs hse
  · intro s hs hse
    rw [hnext s hs]
    exact L.gap s hs hse
  · intro s hs hse hne
    rw [hnext s hs] at hne ⊢
    rw [hprev _ (L.next_mem s hs hse).1]
    exact L.back s hs hse hne
  · rw [hprev 0 L.zero_mem]
    exact L.first
  · intro s hs
    change (if s = p then v else m.poolPtr s) &&& memMask = m.addr
    by_cases hsp : s = p
    · rw [if_pos hsp]
      exact hv
    · rw [if_neg hsp]
      exact L.pool s hs
  · change (if m.heapEnd = p then v else m.poolPtr m.heapEnd) &&& 1 ≠ 0
    rw [if_neg hpe.symm]
    exact L.end_used

theorem setPoolPtr_isUsed_ne {p v s : Nat} (hne : s ≠ p) :
    (m.setPoolPtr p v).memIsUsed s ↔ m.memIsUsed s := by
  change (if s = p then v else m.poolPtr s) &&& 1 ≠ 0 ↔ _
  rw [if_neg hne]
  rfl

theorem setPoolPtr_isUsed_self {p v : Nat} : (m.setPoolPtr p v).memIsUsed p ↔ v % 2 = 1 := by
  change (if p = p then v else m.poolPtr p) &&& 1 ≠ 0 ↔ _
  rw [if_pos rfl, Nat.and_one_is_mod]
  omega

theorem status_words (R : Region m) : m.memFreed = m.addr ∧ m.memUsed = m.addr + 1 := by
  have h1 := R.addr
  have h2 := R.addr_lt
  have hdvd : m.addr / 2 * 2 = m.addr := by omega
  have hone : m.addr ||| 1 = m.addr + 1 := by
    have hor := Nat.two_pow_add_eq_or_of_lt (i := 1) (b := 1) (by decide) (m.addr / 2)
    rw [show 2 ^ 1 * (m.addr / 2) = m.addr by omega] at hor
    exact hor.symm
  refine ⟨memFreed_eq R, ?_⟩
  rw [memUsed, memMask, and_fffffffe h2, hdvd, hone]

/-- Both status words name the heap, and their lowest bit tells them apart. -/
theorem status_spec (R : Region m) :
    m.memFreed &&& memMask = m.addr ∧ m.memUsed &&& memMask = m.addr ∧
      m.memFreed % 2 = 0 ∧ m.memUsed % 2 = 1 := by
  have h1 := R.addr
  have h2 := R.addr_lt
  obtain ⟨hf, hu⟩ := status_words R
  rw [hf, hu, memMask, and_fffffffe h2, and_fffffffe (by omega)]
  omega

/-- `a` is the address handed out for the used item `p`. -/
structure Block (m : RtSmallMem) (items : Set Nat) (a p : Nat) : Prop where
  addr : a = m.heapPtr + p + 12
  mem : p ∈ items
  ne_end : p ≠ m.heapEnd
  used : m.memIsUsed p
  /-- At least one word is handed out. -/
  room : p + 16 ≤ m.next p

variable {a p : Nat}

theorem Block.itemOf (R : Region m)
    (L : Layout m items) (b : Block m items a p) : itemOf m a = p := by
  have h1 := R.fits
  have h2 := L.le_end p b.mem
  have h3 := b.addr
  have h4 : sub32 a 12 = a - 12 := sub32_eq (by omega) (by omega)
  rw [Mem.itemOf, sizeofStructMem, h4, sub32_eq (by omega) (by omega)]
  omega

theorem Block.inHeap (R : Region m) (L : Layout m items) (b : Block m items a p) : inHeap m a := by
  have h1 := R.fits
  have h2 := R.heapPtr
  have h3 := L.next_mem p b.mem b.ne_end
  have h4 := L.le_end _ h3.1
  have h5 := b.addr
  have h6 := L.aligned p b.mem
  have h7 := b.room
  refine ⟨?_, by omega, ?_⟩
  · rw [rtAlignSize]
    omega
  · rw [add32_eq (by omega)]
    omega

/-- The blocks other than the one at `p` are left alone. -/
def KeepsBlocks (m m' : RtSmallMem) (items items' : Set Nat) (p : Nat) : Prop :=
  ∀ a' p', p' ≠ p → Block m items a' p' → Block m' items' a' p' ∧ m'.next p' = m.next p'

/-- A used item that keeps its status and extent is a block as before. -/
theorem Block.congr {m m' : RtSmallMem} {items items' : Set Nat}
    (b : Block m items a p) (hs : SameRegion m m') (hmem : p ∈ items')
    (hpool : m'.poolPtr p = m.poolPtr p) (hnext : m'.next p = m.next p) : Block m' items' a p where
  addr := hs.heapPtr ▸ b.addr
  mem := hmem
  ne_end := hs.heapEnd ▸ b.ne_end
  used := by
    rw [memIsUsed, hpool]
    exact b.used
  room := hnext ▸ b.room

/-- What a call does to all but the item `p`: a used item stays with its extent and its data, and no
other item becomes used. -/
structure Spares (m m' : RtSmallMem) (items items' : Set Nat) (p : Nat) : Prop where
  region : SameRegion m m'
  used_iff : ∀ s ≠ p, s ∈ items' ∧ m'.memIsUsed s ↔ s ∈ items ∧ m.memIsUsed s
  next : ∀ s ≠ p, s ∈ items → s ≠ m.heapEnd → m.memIsUsed s → m'.next s = m.next s
  data : ∀ s ≠ p, s ∈ items → s ≠ m.heapEnd → m.memIsUsed s →
    ∀ o, s + 12 ≤ o → o < m.next s → m'.word o = m.word o

namespace Spares

variable {m' m'' : RtSmallMem} {items' items'' : Set Nat}

theorem refl (m : RtSmallMem) (items : Set Nat) (p : Nat) : Spares m m items items p where
  region := .refl m
  used_iff _ _ := Iff.rfl
  next _ _ _ _ _ := rfl
  data _ _ _ _ _ _ _ _ := rfl

theorem trans (h : Spares m m' items items' p) (h' : Spares m' m'' items' items'' p) :
    Spares m m'' items items'' p where
  region := h.region.trans h'.region
  used_iff s hs := (h'.used_iff s hs).trans (h.used_iff s hs)
  next s hs hmem hse hu := by
    obtain ⟨hmem', hu'⟩ := (h.used_iff s hs).mpr ⟨hmem, hu⟩
    rw [h'.next s hs hmem' (h.region.heapEnd ▸ hse) hu', h.next s hs hmem hse hu]
  data s hs hmem hse hu o hlo hhi := by
    obtain ⟨hmem', hu'⟩ := (h.used_iff s hs).mpr ⟨hmem, hu⟩
    have hnext := h.next s hs hmem hse hu
    rw [h'.data s hs hmem' (h.region.heapEnd ▸ hse) hu' o hlo (hnext ▸ hhi),
      h.data s hs hmem hse hu o hlo hhi]

theorem keepsBlocks (h : Spares m m' items items' p) : KeepsBlocks m m' items items' p := by
  intro a s hs b
  obtain ⟨hmem, hu⟩ := (h.used_iff s hs).mpr ⟨b.mem, b.used⟩
  have hnext := h.next s hs b.mem b.ne_end b.used
  exact ⟨⟨h.region.heapPtr ▸ b.addr, hmem, h.region.heapEnd ▸ b.ne_end, hu, hnext ▸ b.room⟩, hnext⟩

end Spares

theorem Layout.outside {s o : Nat} (L : Layout m items)
    (hs : s ∈ items) (hse : s ≠ m.heapEnd) (hlo : s + 12 ≤ o) (hhi : o < m.next s) :
    Outside items o := by
  intro t ht
  rcases L.gap s hs hse t ht with hle | hge
  · have hts := L.apart ht hs
    omega
  · exact .inl (Nat.lt_of_lt_of_le hhi hge)

/-- Marking a used item free opens the heap at that item. -/
theorem Settled.opened {p : Nat} (h : Settled m items) (hp : p ∈ items) (hpe : p ≠ m.heapEnd) :
    Opened { m.setPoolPtr p m.memFreed with lfree := if p < m.lfree then p else m.lfree }
      items p := by
  obtain ⟨hfreed, -, heven, -⟩ := status_spec h.region
  have hself : ¬ (m.setPoolPtr p m.memFreed).memIsUsed p := by
    rw [setPoolPtr_isUsed_self]
    omega
  have hL := h.layout.setPoolPtr hp hpe hfreed
  refine ⟨h.region.congr ⟨rfl, rfl, rfl, rfl⟩,
    hL.congr ⟨rfl, rfl, rfl, rfl⟩ fun _ _ => ⟨rfl, rfl, rfl⟩, hp, hpe, hself, ?_, ?_, ?_, ?_⟩
  · intro s hs hse hsp hnp
    have hnext := h.layout.setPoolPtr_next (v := m.memFreed) hp hs
    change (m.setPoolPtr p m.memFreed).next s ≠ p at hnp
    change (m.setPoolPtr p m.memFreed).memIsUsed s ∨
      (m.setPoolPtr p m.memFreed).memIsUsed ((m.setPoolPtr p m.memFreed).next s)
    rw [hnext] at hnp ⊢
    rw [setPoolPtr_isUsed_ne hsp, setPoolPtr_isUsed_ne hnp]
    exact h.coalesced s hs hse
  · by_cases hlt : p < m.lfree
    · exact (if_pos hlt).symm ▸ hp
    · exact (if_neg hlt).symm ▸ h.lfree_mem
  · change (if p < m.lfree then p else m.lfree) = m.heapEnd ∨
      ¬ (m.setPoolPtr p m.memFreed).memIsUsed (if p < m.lfree then p else m.lfree)
    by_cases hlt : p < m.lfree
    · rw [if_pos hlt]
      exact .inr hself
    · rw [if_neg hlt]
      by_cases heq : m.lfree = p
      · exact .inr (heq.symm ▸ hself)
      · rw [setPoolPtr_isUsed_ne heq]
        exact h.lfree_free
  · intro s hs hfree
    change (if p < m.lfree then p else m.lfree) ≤ s
    by_cases hsp : s = p
    · split_ifs <;> omega
    · have hlow := h.lowest s hs ((setPoolPtr_isUsed_ne hsp).not.mp hfree)
      split_ifs <;> omega

/-- What the release of the block at `p` leaves behind. -/
structure Released (m m' : RtSmallMem) (items items' : Set Nat) (p : Nat) : Prop where
  settled : Settled m' items'
  spares : Spares m m' items items' p
  subset : items' ⊆ items
  freed : p ∈ items' → ¬ m'.memIsUsed p
  used : m'.used = sub32 m.used (m.next p - p)
  max : m'.max = m.max

theorem Settled.rtSmemFree_released
    (h : Settled m items) (hm : m.addr ≠ 0) (b : Block m items a p) :
    ∃ m' items', rtSmemFree m a = some m' ∧ Released m m' items items' p := by
  have hitem := b.itemOf h.region h.layout
  have hnm := h.layout.next_mem p b.mem b.ne_end
  have ha : a ≠ 0 := by
    have := b.addr
    omega
  have hO := h.opened b.mem b.ne_end
  generalize hm₁ : ({ m.setPoolPtr p m.memFreed with
    lfree := if p < m.lfree then p else m.lfree } : RtSmallMem) = m₁ at hO
  -- what is freed is charged back, which no header sees
  have hO' : ∀ u, Opened { m₁ with used := u } items p := by
    intro u
    exact ⟨hO.region.congr ⟨rfl, rfl, rfl, rfl⟩,
      hO.layout.congr ⟨rfl, rfl, rfl, rfl⟩ fun _ _ => ⟨rfl, rfl, rfl⟩, hO.mem, hO.ne_end, hO.free,
      hO.coalesced, hO.lfree_mem, hO.lfree_free, hO.lowest⟩
  obtain ⟨m', items', hplug, hset, hkeep⟩ :=
    (hO' (sub32 m.used (sub32 (m₁.next p) p))).plugHoles
  obtain ⟨hword, hused, hmax⟩ :=
    (hO' (sub32 m.used (sub32 (m₁.next p) p))).plugHoles_outside hplug
  have hreg : SameRegion m m' := by
    refine SameRegion.trans ?_ hkeep.region
    rw [← hm₁]
    exact ⟨rfl, rfl, rfl, rfl⟩
  have hused₁ : ∀ s ≠ p, m₁.memIsUsed s ↔ m.memIsUsed s := by
    intro s hs
    rw [← hm₁]
    exact setPoolPtr_isUsed_ne hs
  have hnext₁ : ∀ s ∈ items, m₁.next s = m.next s := by
    intro s hs
    rw [← hm₁]
    exact h.layout.setPoolPtr_next b.mem hs
  refine ⟨m', items', ?_, hset, ⟨hreg, ?_, ?_, ?_⟩, hkeep.subset, ?_, ?_, ?_⟩
  · rw [Mem.rtSmemFree, if_neg ha]
    simp only [hitem]
    rw [if_pos ⟨h.layout.pool p b.mem, hm, b.used, b.inHeap h.region h.layout,
      h.layout.pool _ hnm.1⟩, ← hplug, ← hm₁]
    by_cases hlt : p < m.lfree
    · have hlt' : p < (m.setPoolPtr p m.memFreed).lfree := hlt
      simp only [if_pos hlt, if_pos hlt']
      rfl
    · have hlt' : ¬ p < (m.setPoolPtr p m.memFreed).lfree := hlt
      simp only [if_neg hlt, if_neg hlt']
      rfl
  · intro s hs
    rw [← hused₁ s hs]
    constructor
    · exact fun ⟨hmem, hu⟩ => ⟨hkeep.subset hmem, (hkeep.isUsed_iff hmem).mp hu⟩
    · intro ⟨hmem, hu⟩
      have hmem' := hkeep.used s hmem hu
      exact ⟨hmem', (hkeep.isUsed_iff hmem').mpr hu⟩
  · intro s hs hmem _ hu
    have hu₁ := (hused₁ s hs).mpr hu
    exact (hkeep.next s (hkeep.used s hmem hu₁) hu₁).trans (hnext₁ s hmem)
  · intro s _ hmem hse _ o hlo hhi
    have hout := h.layout.outside hmem hse hlo hhi
    have hop : o ≠ p := by
      have := hout p b.mem
      omega
    rw [hword o hout, ← hm₁]
    exact if_neg hop
  · intro hmem hu
    exact hO.free ((hkeep.isUsed_iff hmem).mp hu)
  · rw [hused, hnext₁ p b.mem]
    have hle := h.layout.le_end _ hnm.1
    have hfits := h.region.fits
    rw [sub32_eq (a := m.next p) (b := p) (by omega) (by omega), ← hm₁]
  · rw [hmax, ← hm₁]
    rfl

/-- `rt_smem_free` of a live block returns and settles the heap. -/
theorem Settled.rtSmemFree (h : Settled m items) (hm : m.addr ≠ 0) (b : Block m items a p) :
    ∃ m' items', rtSmemFree m a = some m' ∧ Settled m' items' ∧ SameRegion m m' ∧
      KeepsBlocks m m' items items' p := by
  obtain ⟨m', items', hfree, r⟩ := h.rtSmemFree_released hm b
  exact ⟨m', items', hfree, r.settled, r.spares.region, r.spares.keepsBlocks⟩

end RtKernel.Mem

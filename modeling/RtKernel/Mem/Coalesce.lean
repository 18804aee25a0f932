import RtKernel.Mem.Layout

/-!
# Coalescing

Between two calls no two neighbouring items are free and `lfree` is the lowest
free item. While an item is being released the first of these may fail around it;
`plug_holes` restores it and leaves every used item where it was.
-/

namespace RtKernel.Mem

open RtSmallMem

/-- What holds of the items while `x`, a free one, is not yet combined with its neighbours. -/
structure Opened (m : RtSmallMem) (items : Set Nat) (x : Nat) : Prop where
  region : Region m
  layout : Layout m items
  mem : x ∈ items
  ne_end : x ≠ m.heapEnd
  free : ¬ m.memIsUsed x
  /-- Two free neighbours occur at `x` only. -/
  coalesced : ∀ p ∈ items, p ≠ m.heapEnd → p ≠ x → m.next p ≠ x →
    m.memIsUsed p ∨ m.memIsUsed (m.next p)
  lfree_mem : m.lfree ∈ items
  lfree_free : m.lfree = m.heapEnd ∨ ¬ m.memIsUsed m.lfree
  lowest : ∀ p ∈ items, ¬ m.memIsUsed p → m.lfree ≤ p

/-- What holds of the items between two calls. -/
structure Settled (m : RtSmallMem) (items : Set Nat) : Prop where
  region : Region m
  layout : Layout m items
  /-- Two neighbours are never both free. -/
  coalesced : ∀ p ∈ items, p ≠ m.heapEnd → m.memIsUsed p ∨ m.memIsUsed (m.next p)
  /-- `lfree` is an item, ... -/
  lfree_mem : m.lfree ∈ items
  /-- ... a free one or `heap_end`, ... -/
  lfree_free : m.lfree = m.heapEnd ∨ ¬ m.memIsUsed m.lfree
  /-- ... and no free item lies below it. -/
  lowest : ∀ p ∈ items, ¬ m.memIsUsed p → m.lfree ≤ p

/-- Items may vanish, but no used one; no status and no used item's extent changes. -/
structure KeepsUsed (m m' : RtSmallMem) (items items' : Set Nat) : Prop where
  region : SameRegion m m'
  subset : items' ⊆ items
  used : ∀ s ∈ items, m.memIsUsed s → s ∈ items'
  poolPtr : ∀ s ∈ items', m'.poolPtr s = m.poolPtr s
  next : ∀ s ∈ items', m.memIsUsed s → m'.next s = m.next s

theorem KeepsUsed.refl (m : RtSmallMem) (items : Set Nat) : KeepsUsed m m items items :=
  ⟨.refl m, subset_rfl, fun _ h _ => h, fun _ _ => rfl, fun _ _ _ => rfl⟩

theorem KeepsUsed.isUsed_iff {m m' : RtSmallMem} {items items' : Set Nat}
    (h : KeepsUsed m m' items items') {s : Nat} (hs : s ∈ items') :
    m'.memIsUsed s ↔ m.memIsUsed s := by
  rw [memIsUsed, memIsUsed, h.poolPtr s hs]

theorem KeepsUsed.trans {m m' m'' : RtSmallMem} {items items' items'' : Set Nat}
    (h : KeepsUsed m m' items items') (h' : KeepsUsed m' m'' items' items'') :
    KeepsUsed m m'' items items'' where
  region := h.region.trans h'.region
  subset := h'.subset.trans h.subset
  used s hs hu := h'.used s (h.used s hs hu) ((h.isUsed_iff (h.used s hs hu)).mpr hu)
  poolPtr s hs := (h'.poolPtr s hs).trans (h.poolPtr s (h'.subset hs))
  next s hs hu := by
    have hmid := (h.isUsed_iff (h'.subset hs)).mpr hu
    exact (h'.next s hs hmid).trans (h.next s (h'.subset hs) hu)

variable {items : Set Nat} {m : RtSmallMem}

theorem Layout.combine_keepsUsed {p q : Nat}
    (L : Layout m items) (hp : p ∈ items) (hq : q ∈ items) (hpe : p ≠ m.heapEnd)
    (hpq : m.next p = q) (hqe : q ≠ m.heapEnd) (hpfree : ¬ m.memIsUsed p)
    (hfree : ¬ m.memIsUsed q) : KeepsUsed m (Mem.combine m p q) items (items \ {q}) where
  region := combine_sameRegion m p q
  subset := Set.sdiff_subset
  used _ hs hu := ⟨hs, fun he => hfree ((Set.mem_singleton_iff.mp he) ▸ hu)⟩
  poolPtr _ hs := (L.combine_links hp hq hpe hpq hqe).1 hs.1 hs.2
  next s hs hu := by
    have hne : _ ≠ p := fun he => hpfree (he ▸ hu)
    rw [(L.combine_links hp hq hpe hpq hqe).2.1 hs.1 hs.2, if_neg hne]

/-- The first half of `plug_holes`. -/
def RtSmallMem.plugForward (m : RtSmallMem) (x : Nat) : RtSmallMem :=
  if x ≠ m.next x ∧ ¬ m.memIsUsed (m.next x) ∧ m.next x ≠ m.heapEnd then combine m x (m.next x) else m

namespace Opened

variable {m : RtSmallMem} {x : Nat}

section

variable (h : Opened m items x)
include h

theorem lfree_le : m.lfree ≤ x := h.lowest x h.mem h.free

/-- Plugging forward makes the right neighbour of `x` a used item. -/
theorem forward : ∃ items', Opened (m.plugForward x) items' x ∧
    KeepsUsed m (m.plugForward x) items items' ∧
      (m.plugForward x).memIsUsed ((m.plugForward x).next x) := by
  unfold RtSmallMem.plugForward
  have L := h.layout
  have hq := L.next_mem x h.mem h.ne_end
  have hxq : x ≠ m.next x := by omega
  by_cases hc : ¬ m.memIsUsed (m.next x) ∧ m.next x ≠ m.heapEnd
  · rw [if_pos ⟨hxq, hc⟩]
    obtain ⟨hfree, hqe⟩ := hc
    have hr := L.next_mem _ hq.1 hqe
    have K := L.combine_keepsUsed h.mem hq.1 h.ne_end rfl hqe h.free hfree
    obtain ⟨-, hnext, -⟩ := L.combine_links h.mem hq.1 h.ne_end rfl hqe
    have hlf : (combine m x (m.next x)).lfree = m.lfree := by
      have := h.lfree_le
      rw [combine_lfree, if_neg (by omega)]
    have hrmem : m.next (m.next x) ∈ items \ {m.next x} :=
      ⟨hr.1, by simp only [Set.mem_singleton_iff]; omega⟩
    have hru : m.memIsUsed (m.next (m.next x)) :=
      (h.coalesced _ hq.1 hqe hxq.symm (by omega)).resolve_left hfree
    refine ⟨items \ {m.next x}, ?_, K, ?_⟩
    · refine ⟨h.region.congr K.region, L.combine h.mem hq.1 h.ne_end rfl hqe, ⟨h.mem, hxq⟩,
        K.region.heapEnd ▸ h.ne_end, (K.isUsed_iff ⟨h.mem, hxq⟩).not.mpr h.free, ?_, ?_, ?_, ?_⟩
      · rintro p ⟨hp, hpq⟩ hpe hpx hnx
        rw [hnext hp hpq, if_neg hpx] at hnx ⊢
        rw [K.region.heapEnd] at hpe
        have hne : m.next p ≠ m.next x := fun he =>
          hpx (L.next_inj hp h.mem hpe h.ne_end he)
        rw [K.isUsed_iff ⟨hp, hpq⟩, K.isUsed_iff ⟨(L.next_mem p hp hpe).1, hne⟩]
        exact h.coalesced p hp hpe hpx hnx
      · rw [hlf]
        have := h.lfree_le
        exact ⟨h.lfree_mem, by simp only [Set.mem_singleton_iff]; omega⟩
      · rw [hlf, K.region.heapEnd, K.isUsed_iff]
        · exact h.lfree_free
        · have := h.lfree_le
          exact ⟨h.lfree_mem, by simp only [Set.mem_singleton_iff]; omega⟩
      · intro p hp hfp
        rw [hlf]
        exact h.lowest p hp.1 ((K.isUsed_iff hp).not.mp hfp)
    · rw [hnext h.mem hxq, if_pos rfl, K.isUsed_iff hrmem]
      exact hru
  · rw [if_neg fun h' => hc h'.2]
    refine ⟨items, h, .refl m items, ?_⟩
    by_contra hu
    exact hc ⟨hu, fun he => hu (he ▸ L.end_used)⟩

/-- Plugging backward settles an item whose right neighbour is used. -/
theorem backward (hright : m.memIsUsed (m.next x)) :
    ∃ items', Settled (if m.prev x ≠ x ∧ ¬ m.memIsUsed (m.prev x) then
        combine m (m.prev x) x else m) items' ∧
      KeepsUsed m (if m.prev x ≠ x ∧ ¬ m.memIsUsed (m.prev x) then
        combine m (m.prev x) x else m) items items' := by
  have L := h.layout
  have hn := L.next_mem x h.mem h.ne_end
  by_cases hc : m.prev x ≠ x ∧ ¬ m.memIsUsed (m.prev x)
  · rw [if_pos hc]
    obtain ⟨hne, hfree⟩ := hc
    have hx0 : x ≠ 0 := by
      rintro rfl
      exact hne L.first
    obtain ⟨ho, hoe, hox⟩ := L.prev_mem h.mem hx0 h.ne_end
    have hlt := L.next_mem _ ho hoe
    have K := L.combine_keepsUsed ho h.mem hoe hox h.ne_end hfree h.free
    obtain ⟨-, hnext, -⟩ := L.combine_links ho h.mem hoe hox h.ne_end
    have hlo := h.lowest _ ho hfree
    have hlf : (combine m (m.prev x) x).lfree = m.lfree := by
      rw [combine_lfree, if_neg (by omega)]
    have hlm : m.lfree ∈ items \ {x} :=
      ⟨h.lfree_mem, by simp only [Set.mem_singleton_iff]; omega⟩
    refine ⟨items \ {x}, ⟨h.region.congr K.region, L.combine ho h.mem hoe hox h.ne_end, ?_, ?_, ?_,
      ?_⟩, K⟩
    · rintro p ⟨hp, hpx⟩ hpe
      rw [K.region.heapEnd] at hpe
      rw [hnext hp hpx]
      by_cases hpo : p = m.prev x
      · rw [if_pos hpo, K.isUsed_iff ⟨hn.1, by simp only [Set.mem_singleton_iff]; omega⟩]
        exact .inr hright
      · have hpn : m.next p ≠ x := fun he => hpo (L.next_inj hp ho hpe hoe (he.trans hox.symm))
        rw [if_neg hpo, K.isUsed_iff ⟨hp, hpx⟩, K.isUsed_iff ⟨(L.next_mem p hp hpe).1, hpn⟩]
        exact h.coalesced p hp hpe hpx hpn
    · rw [hlf]
      exact hlm
    · rw [hlf, K.region.heapEnd, K.isUsed_iff hlm]
      exact h.lfree_free
    · intro p hp hfp
      rw [hlf]
      exact h.lowest p hp.1 ((K.isUsed_iff hp).not.mp hfp)
  · rw [if_neg hc]
    refine ⟨items, ⟨h.region, L, ?_, h.lfree_mem, h.lfree_free, h.lowest⟩, .refl m items⟩
    intro p hp hpe
    by_cases hpx : p = x
    · exact .inr (hpx ▸ hright)
    · by_cases hpn : m.next p = x
      · left
        have hx0 : x ≠ 0 := by
          have := (L.next_mem p hp hpe).2
          omega
        have hback := L.back p hp hpe (hpn ▸ h.ne_end)
        rw [hpn] at hback
        by_contra hfree
        exact hc ⟨hback ▸ hpx, hback ▸ hfree⟩
      · exact h.coalesced p hp hpe hpx hpn

/-- `plug_holes` settles the heap and loses no used item. -/
theorem plugHoles :
    ∃ m' items', plugHoles m x = some m' ∧ Settled m' items' ∧ KeepsUsed m m' items items' := by
  have hlt : x < m.heapEnd := lt_of_le_of_ne (h.layout.le_end x h.mem) h.ne_end
  obtain ⟨items₁, h₁, K₁, hright⟩ := h.forward
  obtain ⟨items₂, h₂, K₂⟩ := h₁.backward hright
  exact ⟨_, items₂, if_pos hlt, h₂, K₁.trans K₂⟩

end

end Opened

/-- The offset is in no header. -/
def Outside (items : Set Nat) (o : Nat) : Prop := ∀ s ∈ items, o < s ∨ s + 12 ≤ o

theorem Outside.mono {items items' : Set Nat} {o : Nat} (h : Outside items o)
    (hsub : items' ⊆ items) : Outside items' o := fun s hs => h s (hsub hs)

theorem combine_accounts (m : RtSmallMem) (p q : Nat) :
    (combine m p q).used = m.used ∧ (combine m p q).max = m.max := by
  unfold combine
  by_cases hl : m.lfree = q
  · simp only [hl, if_true]
    exact ⟨rfl, rfl⟩
  · simp only [hl, if_false]
    exact ⟨rfl, rfl⟩

theorem Layout.combine_outside {p q o : Nat}
    (L : Layout m items) (hp : p ∈ items) (hq : q ∈ items) (hpe : p ≠ m.heapEnd)
    (hpq : m.next p = q) (hqe : q ≠ m.heapEnd) (ho : Outside items o) :
    (Mem.combine m p q).word o = m.word o := by
  have hlt := (L.next_mem p hp hpe).2
  have hr := ho _ (L.next_mem q hq hqe).1
  have hop := ho p hp
  have hoq := ho q hq
  rw [combine_word (by omega), if_neg (by omega), if_neg (by omega), if_neg (by omega)]

/-- Cutting an item writes the new header and the headers next to it. -/
theorem Layout.splitItem_outside {p x o : Nat}
    (L : Layout m items) (R : Region m) (hp : p ∈ items) (hpe : p ≠ m.heapEnd) (hpx : p + 12 ≤ x)
    (ho : Outside items o) (hx : o < x ∨ x + 12 ≤ o) : (splitItem m p x).word o = m.word o := by
  have hop := ho p hp
  have hoq := ho _ (L.next_mem p hp hpe).1
  rw [splitItem_word R hpx, if_neg (by omega), if_neg (by omega), if_neg (by omega),
    if_neg (by omega), if_neg (by omega)]

theorem Opened.plugHoles_outside {m m' : RtSmallMem} {x : Nat}
    (h : Opened m items x) (heq : Mem.plugHoles m x = some m') :
    (∀ o, Outside items o → m'.word o = m.word o) ∧ m'.used = m.used ∧ m'.max = m.max := by
  have hlt : x < m.heapEnd := lt_of_le_of_ne (h.layout.le_end x h.mem) h.ne_end
  obtain ⟨items₁, h₁, K₁, -⟩ := h.forward
  have hforward : (∀ o, Outside items o → (m.plugForward x).word o = m.word o) ∧
      (m.plugForward x).used = m.used ∧ (m.plugForward x).max = m.max := by
    unfold RtSmallMem.plugForward
    split_ifs with hc
    · have hnext := (h.layout.next_mem x h.mem h.ne_end).1
      refine ⟨fun o ho => ?_, combine_accounts m x (m.next x)⟩
      exact h.layout.combine_outside h.mem hnext h.ne_end rfl hc.2.2 ho
    · exact ⟨fun _ _ => rfl, rfl, rfl⟩
  rw [Mem.plugHoles, if_pos hlt] at heq
  dsimp only at heq
  rw [← RtSmallMem.plugForward] at heq
  generalize m.plugForward x = m₁ at h₁ K₁ hforward heq
  obtain ⟨hword, hused, hmax⟩ := hforward
  have L₁ := h₁.layout
  cases heq
  split_ifs with hc
  · have hx0 : x ≠ 0 := by
      rintro rfl
      exact hc.1 L₁.first
    obtain ⟨hprev, hpe, hnext⟩ := L₁.prev_mem h₁.mem hx0 h₁.ne_end
    obtain ⟨hu, hm⟩ := combine_accounts m₁ (m₁.prev x) x
    refine ⟨fun o ho => ?_, hu.trans hused, hm.trans hmax⟩
    rw [L₁.combine_outside hprev h₁.mem hpe hnext h₁.ne_end (ho.mono K₁.subset)]
    exact hword o ho
  · exact ⟨hword, hused, hmax⟩

end RtKernel.Mem

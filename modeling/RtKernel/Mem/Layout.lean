import RtKernel.Mem.SmallMem
import Mathlib.Data.List.Chain

/-!
# The items of a small memory heap

The items form a set of offsets on which `next` is the successor and `prev` its
inverse. Adding an offset inside an item and dropping an offset are the only two
changes any operation makes to this set, so the headers of the remaining items
are read back unchanged by distance alone.
-/

namespace RtKernel.Mem

namespace RtSmallMem

variable (m : RtSmallMem)

@[simp] theorem setWord_heapEnd (o v : Nat) : (m.setWord o v).heapEnd = m.heapEnd := rfl
@[simp] theorem setWord_heapPtr (o v : Nat) : (m.setWord o v).heapPtr = m.heapPtr := rfl
@[simp] theorem setWord_addr (o v : Nat) : (m.setWord o v).addr = m.addr := rfl
@[simp] theorem setWord_lfree (o v : Nat) : (m.setWord o v).lfree = m.lfree := rfl
@[simp] theorem setWord_used (o v : Nat) : (m.setWord o v).used = m.used := rfl
@[simp] theorem setWord_max (o v : Nat) : (m.setWord o v).max = m.max := rfl
@[simp] theorem setWord_memSizeAligned (o v : Nat) :
    (m.setWord o v).memSizeAligned = m.memSizeAligned := rfl

theorem setWord_word (o v x : Nat) :
    (m.setWord o v).word x = if x = o then v else m.word x := rfl

end RtSmallMem

open RtSmallMem

/-- The fields that no operation on an initialised heap changes. -/
structure SameRegion (m m' : RtSmallMem) : Prop where
  addr : m'.addr = m.addr
  heapPtr : m'.heapPtr = m.heapPtr
  heapEnd : m'.heapEnd = m.heapEnd
  memSizeAligned : m'.memSizeAligned = m.memSizeAligned

theorem SameRegion.refl (m : RtSmallMem) : SameRegion m m := ⟨rfl, rfl, rfl, rfl⟩

theorem SameRegion.trans {a b c : RtSmallMem} (h : SameRegion a b) (h' : SameRegion b c) :
    SameRegion a c :=
  ⟨h'.addr.trans h.addr, h'.heapPtr.trans h.heapPtr, h'.heapEnd.trans h.heapEnd,
    h'.memSizeAligned.trans h.memSizeAligned⟩

theorem SameRegion.setWord {m m' : RtSmallMem} (h : SameRegion m m') (o v : Nat) :
    SameRegion m (m'.setWord o v) := ⟨h.addr, h.heapPtr, h.heapEnd, h.memSizeAligned⟩

/-- Where the heap lies: aligned, and not running over the end of the address space. -/
structure Region (m : RtSmallMem) : Prop where
  heapEnd : m.heapEnd = m.memSizeAligned + 12
  fits : m.heapPtr + m.heapEnd + 12 < 2 ^ 32
  heapPtr : m.heapPtr % 4 = 0
  memSize : m.memSizeAligned % 4 = 0
  addr : m.addr % 4 = 0
  addr_lt : m.addr < 2 ^ 32

theorem Region.congr {m m' : RtSmallMem} (h : Region m) (hs : SameRegion m m') : Region m' := by
  obtain ⟨h1, h2, h3, h4, h5, h6⟩ := h
  rw [← hs.addr] at h5 h6
  rw [← hs.heapEnd] at h1 h2
  rw [← hs.heapPtr] at h2 h3
  rw [← hs.memSizeAligned] at h1 h4
  exact ⟨h1, h2, h3, h4, h5, h6⟩

/-- The offsets in `items` are the headers of the heap, in `next` order. -/
structure Layout (m : RtSmallMem) (items : Set Nat) : Prop where
  /-- The heap starts with an item. -/
  zero_mem : 0 ∈ items
  /-- `heap_end` is an item. -/
  end_mem : m.heapEnd ∈ items
  /-- No item lies behind `heap_end`. -/
  le_end : ∀ p ∈ items, p ≤ m.heapEnd
  /-- `next` leads to an item at least one header further on. -/
  next_mem : ∀ p ∈ items, p ≠ m.heapEnd → m.next p ∈ items ∧ p + 12 ≤ m.next p
  /-- No item lies between an item and its `next`. -/
  gap : ∀ p ∈ items, p ≠ m.heapEnd → ∀ s ∈ items, s ≤ p ∨ m.next p ≤ s
  /-- `prev` of every item but `heap_end` leads back. -/
  back : ∀ p ∈ items, p ≠ m.heapEnd → m.next p ≠ m.heapEnd → m.prev (m.next p) = p
  /-- The first item is its own predecessor. -/
  first : m.prev 0 = 0
  /-- Every header names this heap. -/
  pool : ∀ p ∈ items, m.memPool p = m.addr
  /-- Headers are aligned. -/
  aligned : ∀ p ∈ items, p % 4 = 0
  /-- `heap_end` counts as used. -/
  end_used : m.memIsUsed m.heapEnd

namespace Layout

variable {m : RtSmallMem} {items : Set Nat}

section

variable (L : Layout m items)
include L

theorem apart {s t : Nat} (hs : s ∈ items) (ht : t ∈ items) :
    s = t ∨ s + 12 ≤ t ∨ t + 12 ≤ s := by
  have hse := L.le_end s hs
  have hte := L.le_end t ht
  rcases Nat.lt_trichotomy s t with h | h | h
  · have hn := L.next_mem s hs (by omega)
    rcases L.gap s hs (by omega) t ht with hg | hg <;> omega
  · exact .inl h
  · have hn := L.next_mem t ht (by omega)
    rcases L.gap t ht (by omega) s hs with hg | hg <;> omega

/-- Below any item but the first there is the item that leads to it. -/
theorem exists_pred {p : Nat} (hp : p ∈ items) (h0 : p ≠ 0) :
    ∃ o ∈ items, o ≠ m.heapEnd ∧ m.next o = p := by
  have key : ∀ d o, o ∈ items → o < p → p - o ≤ d → ∃ o ∈ items, o ≠ m.heapEnd ∧ m.next o = p := by
    intro d
    induction d with
    | zero => intro o _ hlt hd; omega
    | succ d ih =>
      intro o ho hlt hd
      have hend := L.le_end p hp
      have hn := L.next_mem o ho (by omega)
      rcases L.gap o ho (by omega) p hp with hg | hg
      · omega
      · by_cases he : m.next o = p
        · exact ⟨o, ho, by omega, he⟩
        · exact ih (m.next o) hn.1 (by omega) (by omega)
  exact key p 0 L.zero_mem (by omega) (by omega)

/-- The `prev` of an inner item is the item that leads to it. -/
theorem prev_mem {p : Nat} (hp : p ∈ items) (h0 : p ≠ 0)
    (hend : p ≠ m.heapEnd) : m.prev p ∈ items ∧ m.prev p ≠ m.heapEnd ∧ m.next (m.prev p) = p := by
  obtain ⟨o, ho, hoe, rfl⟩ := L.exists_pred hp h0
  rw [L.back o ho hoe hend]
  exact ⟨ho, hoe, rfl⟩

theorem next_inj {p q : Nat} (hp : p ∈ items) (hq : q ∈ items)
    (hpe : p ≠ m.heapEnd) (hqe : q ≠ m.heapEnd) (h : m.next p = m.next q) : p = q := by
  have hpn := L.next_mem p hp hpe
  have hqn := L.next_mem q hq hqe
  have h1 := L.gap p hp hpe q hq
  have h2 := L.gap q hq hqe p hp
  omega

/-- A heap whose header words are the same has the same items. -/
theorem congr {m' : RtSmallMem} (hs : SameRegion m m')
    (hw : ∀ p ∈ items, m'.poolPtr p = m.poolPtr p ∧ m'.next p = m.next p ∧ m'.prev p = m.prev p) :
    Layout m' items where
  zero_mem := L.zero_mem
  end_mem := hs.heapEnd ▸ L.end_mem
  le_end := hs.heapEnd ▸ L.le_end
  next_mem p hp hne := by
    rw [(hw p hp).2.1]
    exact L.next_mem p hp (hs.heapEnd ▸ hne)
  gap p hp hne := by
    rw [(hw p hp).2.1]
    exact L.gap p hp (hs.heapEnd ▸ hne)
  back p hp hne hne' := by
    rw [hs.heapEnd] at hne hne'
    rw [(hw p hp).2.1] at hne' ⊢
    rw [(hw _ (L.next_mem p hp hne).1).2.2]
    exact L.back p hp hne hne'
  first := (hw 0 L.zero_mem).2.2.trans L.first
  pool p hp := by
    rw [memPool, (hw p hp).1, hs.addr]
    exact L.pool p hp
  aligned := L.aligned
  end_used := by
    rw [hs.heapEnd, memIsUsed, (hw _ L.end_mem).1]
    exact L.end_used

end

end Layout

theorem combine_word {m : RtSmallMem} {p q : Nat} (hpq : p ≠ q) (x : Nat) :
    (combine m p q).word x = if x = m.next q + 8 then p else if x = p + 4 then m.next q
      else if x = q then 0 else m.word x := by
  have hnext : ∀ v w, ((m.setPoolPtr q v).setNext p w).next q = m.next q := by
    intro v w
    have h1 : q + 4 ≠ p + 4 := by omega
    simp only [next, setNext, setPoolPtr, setWord_word, if_neg h1, Nat.add_eq_left, OfNat.ofNat_ne_zero,
      if_false]
  have hnext' : ∀ v, (m.setPoolPtr q v).next q = m.next q := by
    intro v
    simp only [next, setPoolPtr, setWord_word, Nat.add_eq_left, OfNat.ofNat_ne_zero, if_false]
  have hset : ∀ l, (combine { m with lfree := l } p q).word x = (((m.setPoolPtr q 0).setNext p
      ((m.setPoolPtr q 0).next q)).setPrev (((m.setPoolPtr q 0).setNext p
      ((m.setPoolPtr q 0).next q)).next q) p).word x := by
    intro l
    unfold combine
    by_cases hl : l = q <;> simp only [hl, if_true, if_false] <;> rfl
  rw [show m = { m with lfree := m.lfree } from rfl, hset, hnext, hnext']
  rfl

theorem combine_sameRegion (m : RtSmallMem) (p q : Nat) : SameRegion m (combine m p q) := by
  unfold combine
  by_cases hl : m.lfree = q <;> simp only [hl] <;> exact ⟨rfl, rfl, rfl, rfl⟩

theorem combine_lfree (m : RtSmallMem) (p q : Nat) :
    (combine m p q).lfree = if m.lfree = q then p else m.lfree := by
  unfold combine
  by_cases hl : m.lfree = q <;> simp [hl, setPoolPtr, setNext, setPrev]

section Combine

variable {m : RtSmallMem} {items : Set Nat} {p q : Nat}

section

variable (L : Layout m items)
include L

section

variable (hp : p ∈ items)
include hp

/-- Of the items that stay the status words are untouched. -/
theorem Layout.combine_links (hq : q ∈ items) (hpe : p ≠ m.heapEnd) (hpq : m.next p = q)
    (hqe : q ≠ m.heapEnd) :
    (∀ {s}, s ∈ items → s ≠ q → (combine m p q).poolPtr s = m.poolPtr s) ∧
      (∀ {s}, s ∈ items → s ≠ q → (combine m p q).next s = if s = p then m.next q else m.next s) ∧
      ∀ {s}, s ∈ items → s ≠ q → (combine m p q).prev s = if s = m.next q then p else m.prev s := by
  have hp12 := (L.next_mem p hp hpe).2
  refine ⟨?_, ?_, ?_⟩
  all_goals
    intro s hs hsq
    have hsp := L.apart hs hp
    have hapart := (L.apart hs hq).resolve_left hsq
    have hsr := L.apart hs (L.next_mem q hq hqe).1
  · rw [poolPtr, combine_word (by omega), if_neg (by omega), if_neg (by omega), if_neg hsq]
    rfl
  · rw [next, combine_word (by omega), if_neg (by omega), if_neg (by omega : s + 4 ≠ q)]
    simp only [Nat.add_right_cancel_iff]
    rfl
  · rw [prev, combine_word (by omega), if_neg (by omega : s + 8 ≠ p + 4),
      if_neg (by omega : s + 8 ≠ q)]
    simp only [Nat.add_right_cancel_iff]
    rfl

/-- Combining an item with its successor drops exactly the successor. -/
theorem Layout.combine (hq : q ∈ items)
    (hpe : p ≠ m.heapEnd) (hpq : m.next p = q) (hqe : q ≠ m.heapEnd) :
    Layout (combine m p q) (items \ {q}) := by
  have hp12 := (L.next_mem p hp hpe).2
  have hr := L.next_mem q hq hqe
  have hend := (combine_sameRegion m p q).heapEnd
  obtain ⟨hpool, hnext, hprev⟩ := L.combine_links hp hq hpe hpq hqe
  have hrq : m.next q ≠ q := by omega
  -- the successor of an item that stays: `p` now leads past `q`, the others as before
  have hskip : ∀ s ∈ items, s ≠ m.heapEnd → s ≠ q → s ≠ p → m.next s ≠ q := by
    intro s hs hse hsq hsp he
    exact hsp (L.next_inj hs hp hse hpe (he.trans hpq.symm))
  refine ⟨⟨L.zero_mem, ?_⟩, ⟨hend ▸ L.end_mem, ?_⟩, ?_, ?_, ?_, ?_, ?_, ?_, ?_, ?_⟩
  · simp only [Set.mem_singleton_iff]
    omega
  · simpa only [Set.mem_singleton_iff, hend] using hqe.symm
  · intro s hs
    rw [hend]
    exact L.le_end s hs.1
  · rintro s ⟨hs, hsq⟩ hse
    rw [hend] at hse
    rw [hnext hs hsq]
    by_cases hsp : s = p
    · rw [if_pos hsp]
      exact ⟨⟨hr.1, hrq⟩, by omega⟩
    · rw [if_neg hsp]
      have hn := L.next_mem s hs hse
      exact ⟨⟨hn.1, hskip s hs hse hsq hsp⟩, hn.2⟩
  · rintro s ⟨hs, hsq⟩ hse t ⟨ht, htq⟩
    rw [hend] at hse
    rw [hnext hs hsq]
    by_cases hsp : s = p
    · rw [if_pos hsp]
      have h1 := L.gap p hp hpe t ht
      have h2 := L.gap q hq hqe t ht
      simp only [Set.mem_singleton_iff] at htq
      omega
    · rw [if_neg hsp]
      exact L.gap s hs hse t ht
  · rintro s ⟨hs, hsq⟩ hse hne
    rw [hend] at hse hne
    rw [hnext hs hsq] at hne ⊢
    by_cases hsp : s = p
    · rw [if_pos hsp, hprev hr.1 hrq, if_pos rfl]
      exact hsp.symm
    · rw [if_neg hsp] at hne ⊢
      have hn := L.next_mem s hs hse
      rw [hprev hn.1 (hskip s hs hse hsq hsp), if_neg]
      · exact L.back s hs hse hne
      · intro he
        exact hsq (L.next_inj hs hq hse hqe he)
  · have h0 : (0 : Nat) ≠ q := by omega
    have h0r : (0 : Nat) ≠ m.next q := by omega
    rw [hprev L.zero_mem h0, if_neg h0r]
    exact L.first
  · rintro s ⟨hs, hsq⟩
    rw [memPool, hpool hs hsq, (combine_sameRegion m p q).addr]
    exact L.pool s hs
  · exact fun s hs => L.aligned s hs.1
  · rw [hend, memIsUsed, hpool L.end_mem hqe.symm]
    exact L.end_used

end

end

end Combine

section

variable {m : RtSmallMem} {p x : Nat} (R : Region m)
include R

/-- The stores of `splitItem`, with the offsets they go to resolved. -/
theorem splitItem_eq (hpx : p + 12 ≤ x) : splitItem m p x =
      let base := (((m.setPoolPtr x m.memFreed).setNext x (m.next p)).setPrev x p).setNext p x
      if m.next p ≠ m.heapEnd then base.setPrev (m.next p) x else base := by
  have hend : add32 m.memSizeAligned sizeofStructMem = m.heapEnd := by
    have h1 := R.heapEnd
    have h2 := R.fits
    rw [add32_eq (by unfold sizeofStructMem; omega), sizeofStructMem, h1]
  have h1 : (m.setPoolPtr x m.memFreed).next p = m.next p := by
    have : p + 4 ≠ x := by omega
    simp only [next, setPoolPtr, setWord_word, if_neg this]
  have h2 : ∀ v w u z, ((((m.setPoolPtr x u).setNext x v).setPrev x w).setNext p z).next x = v := by
    intro v w u z
    have h3 : x + 4 ≠ p + 4 := by omega
    have h4 : x + 4 ≠ x + 8 := by omega
    simp only [next, setPoolPtr, setNext, setPrev, setWord_word, if_neg h3, if_neg h4, if_true]
  have h3 : ∀ v w u z, ((((m.setPoolPtr x u).setNext x v).setPrev x w).setNext p z).memSizeAligned =
      m.memSizeAligned := fun _ _ _ _ => rfl
  unfold splitItem
  simp only [h1, h2, h3, hend]

theorem splitItem_word (hpx : p + 12 ≤ x) (o : Nat) :
    (splitItem m p x).word o = if o = m.next p + 8 ∧ m.next p ≠ m.heapEnd then x
      else if o = p + 4 then x else if o = x + 8 then p else if o = x + 4 then m.next p
      else if o = x then m.memFreed else m.word o := by
  rw [splitItem_eq R hpx]
  by_cases he : m.next p = m.heapEnd
  · simp only [he, ne_eq, not_true_eq_false, if_false, and_false, setPoolPtr, setNext, setPrev,
      setWord_word]
  · simp only [he, ne_eq, not_false_eq_true, if_true, and_true, setPoolPtr, setNext, setPrev,
      setWord_word]

theorem splitItem_sameRegion (hpx : p + 12 ≤ x) : SameRegion m (splitItem m p x) := by
  rw [splitItem_eq R hpx]
  have hbase := ((((SameRegion.refl m).setWord x m.memFreed).setWord (x + 4) (m.next p)).setWord
    (x + 8) p).setWord (p + 4) x
  by_cases he : m.next p = m.heapEnd
  · simp only [he, ne_eq, not_true_eq_false, if_false]
    exact he ▸ hbase
  · simp only [he, ne_eq, not_false_eq_true, if_true]
    exact hbase.setWord (m.next p + 8) x

theorem splitItem_lfree (hpx : p + 12 ≤ x) : (splitItem m p x).lfree = m.lfree := by
  rw [splitItem_eq R hpx]
  by_cases he : m.next p = m.heapEnd
  all_goals simp [he, setPoolPtr, setNext, setPrev]

theorem splitItem_accounts (hpx : p + 12 ≤ x) :
    (splitItem m p x).used = m.used ∧ (splitItem m p x).max = m.max := by
  rw [splitItem_eq R hpx]
  by_cases he : m.next p = m.heapEnd
  all_goals simp [he, setPoolPtr, setNext, setPrev]

end

theorem memFreed_eq {m : RtSmallMem} (R : Region m) : m.memFreed = m.addr := by
  have h1 := R.addr
  have h2 := R.addr_lt
  rw [memFreed, memMask, and_fffffffe h2, Nat.or_zero]
  omega

section Split

variable {m : RtSmallMem} {items : Set Nat} {p x : Nat}

theorem Layout.splitItem_links (L : Layout m items) (R : Region m) (hp : p ∈ items)
    (hpe : p ≠ m.heapEnd) (hpx : p + 12 ≤ x) (hxq : x + 12 ≤ m.next p) :
    (∀ {s}, s ∈ items → (splitItem m p x).poolPtr s = m.poolPtr s) ∧
      (∀ {s}, s ∈ items → (splitItem m p x).next s = if s = p then x else m.next s) ∧
      ∀ {s}, s ∈ items → (splitItem m p x).prev s =
        if s = m.next p ∧ m.next p ≠ m.heapEnd then x else m.prev s := by
  have hq := (L.next_mem p hp hpe).1
  have hword := splitItem_word (m := m) R hpx
  refine ⟨?_, ?_, ?_⟩
  all_goals
    intro s hs
    have hg := L.gap p hp hpe s hs
    have hsq := L.apart hs hq
    have hsp := L.apart hs hp
  · rw [poolPtr, hword, if_neg (by omega), if_neg (by omega), if_neg (by omega), if_neg (by omega),
      if_neg (by omega)]
    rfl
  · rw [next, hword, if_neg (by omega), if_neg (by omega : s + 4 ≠ x + 8),
      if_neg (by omega : s + 4 ≠ x + 4), if_neg (by omega : s + 4 ≠ x)]
    simp only [Nat.add_right_cancel_iff]
    rfl
  · rw [prev, hword, if_neg (by omega : s + 8 ≠ p + 4), if_neg (by omega : s + 8 ≠ x + 8),
      if_neg (by omega : s + 8 ≠ x + 4), if_neg (by omega : s + 8 ≠ x)]
    simp only [Nat.add_right_cancel_iff]
    rfl

theorem splitItem_new (R : Region m) (hpx : p + 12 ≤ x) (hxq : x + 12 ≤ m.next p) :
    (splitItem m p x).poolPtr x = m.addr ∧ (splitItem m p x).next x = m.next p ∧
      (splitItem m p x).prev x = p := by
  have h1 : x ≠ m.next p + 8 := by omega
  have h2 : x + 4 ≠ m.next p + 8 := by omega
  have h3 : x + 8 ≠ m.next p + 8 := by omega
  have h4 : x ≠ p + 4 := by omega
  have h5 : x + 4 ≠ p + 4 := by omega
  have h6 : x + 8 ≠ p + 4 := by omega
  refine ⟨?_, ?_, ?_⟩
  · rw [poolPtr, splitItem_word R hpx, if_neg fun h => h1 h.1, if_neg h4, if_neg (by omega),
      if_neg (by omega), if_pos rfl, memFreed_eq R]
  · rw [next, splitItem_word R hpx, if_neg fun h => h2 h.1, if_neg h5, if_neg (by omega), if_pos rfl]
  · rw [prev, splitItem_word R hpx, if_neg fun h => h3 h.1, if_neg h6, if_pos rfl]

/-- Splitting an item adds exactly the offset it is split at. -/
theorem Layout.split (L : Layout m items) (R : Region m) (hp : p ∈ items)
    (hpe : p ≠ m.heapEnd) (hpx : p + 12 ≤ x) (hxq : x + 12 ≤ m.next p) (hx4 : x % 4 = 0) :
    Layout (splitItem m p x) (insert x items) := by
  have hq := L.next_mem p hp hpe
  have hqe := L.le_end _ hq.1
  have hreg := splitItem_sameRegion (m := m) R hpx
  have hend := hreg.heapEnd
  obtain ⟨hpool, hnext, hprev⟩ := L.splitItem_links R hp hpe hpx hxq
  obtain ⟨xpool, xnext, xprev⟩ := splitItem_new (m := m) (p := p) (x := x) R hpx hxq
  have hxs : ∀ s ∈ items, s ≠ x := by
    intro s hs he
    have := L.gap p hp hpe s hs
    omega
  refine ⟨.inr L.zero_mem, .inr (hend ▸ L.end_mem), ?_, ?_, ?_, ?_, ?_, ?_, ?_, ?_⟩
  · rw [hend]
    rintro s (rfl | hs)
    · omega
    · exact L.le_end s hs
  · rw [hend]
    rintro s (rfl | hs) hse
    · rw [xnext]
      exact ⟨.inr hq.1, hxq⟩
    · rw [hnext hs]
      by_cases hsp : s = p
      · rw [if_pos hsp]
        exact ⟨.inl rfl, by omega⟩
      · rw [if_neg hsp]
        have hn := L.next_mem s hs hse
        exact ⟨.inr hn.1, hn.2⟩
  · rw [hend]
    rintro s (rfl | hs) hse t (rfl | ht)
    · exact .inl le_rfl
    · rw [xnext]
      have := L.gap p hp hpe t ht
      omega
    · rw [hnext hs]
      by_cases hsp : s = p
      · rw [if_pos hsp]
        exact .inr le_rfl
      · rw [if_neg hsp]
        have h1 := L.gap s hs hse p hp
        have h2 := L.gap p hp hpe s hs
        omega
    · rw [hnext hs]
      by_cases hsp : s = p
      · have := L.gap p hp hpe t ht
        rw [if_pos hsp]
        omega
      · rw [if_neg hsp]
        exact L.gap s hs hse t ht
  · rw [hend]
    rintro s (rfl | hs) hse hne
    · rw [xnext] at hne ⊢
      rw [hprev hq.1, if_pos ⟨rfl, hne⟩]
    · rw [hnext hs] at hne ⊢
      by_cases hsp : s = p
      · rw [if_pos hsp, xprev]
        exact hsp.symm
      · rw [if_neg hsp] at hne ⊢
        rw [hprev (L.next_mem s hs hse).1, if_neg]
        · exact L.back s hs hse hne
        · rintro ⟨he, -⟩
          exact hsp (L.next_inj hs hp hse hpe he)
  · have h0 : ¬ (0 = m.next p ∧ m.next p ≠ m.heapEnd) := by omega
    rw [hprev L.zero_mem, if_neg h0]
    exact L.first
  · rw [hreg.addr]
    rintro s (rfl | hs)
    · have h1 := R.addr
      rw [memPool, xpool, memMask, and_fffffffe R.addr_lt]
      omega
    · rw [memPool, hpool hs]
      exact L.pool s hs
  · rintro s (rfl | hs)
    · exact hx4
    · exact L.aligned s hs
  · rw [hend, memIsUsed, hpool L.end_mem]
    exact L.end_used

end Split

end RtKernel.Mem

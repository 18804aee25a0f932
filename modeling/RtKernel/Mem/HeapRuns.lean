import RtKernel.Mem.HeapRealloc

/-!
# Runs of calls on a memory heap

The blocks that clients hold are the items in use. A block that is to grow to a size
near `2 ^ 32` is not compared rightly with the free item behind it; in all other runs
the heap stays laid out.
-/

namespace RtKernel.Memheap

open RtMemheap List

/-- A region that may be given to `rt_memheap_init`, with an object that does not lie in it. -/
structure Region (obj freeHeader startAddr size : Nat) : Prop where
  large : 3 * rtMemheapSize < size
  size_lt : size < 2 ^ 32
  fits : startAddr + size ≤ 2 ^ 32
  outside : freeHeader + rtMemheapSize ≤ startAddr ∨ startAddr + size ≤ freeHeader
  header_lt : freeHeader + rtMemheapSize ≤ 2 ^ 32
  obj_lt : obj < 2 ^ 32

variable {mem : Nat → UInt8} {obj freeHeader startAddr size : Nat}

section

variable (r : Region obj freeHeader startAddr size)
include r

theorem Region.pool_spec : 72 ≤ rtAlignDown size ∧ rtAlignDown size ≤ size ∧
      sub32 (rtAlignDown size) (2 * rtMemheapSize) = rtAlignDown size - 48 := by
  have hlarge := r.large
  have hsize := r.size_lt
  have hheader : rtMemheapSize = 24 := rfl
  have halign := rtAlignDown_eq hsize
  refine ⟨by omega, by omega, sub32_eq (by omega) (by omega)⟩

theorem Region.init_get {tail : Nat} {h : RtMemheap}
    (heq : h = rtMemheapInit mem obj freeHeader startAddr size)
    (htail : tail + 24 = startAddr + rtAlignDown size) :
    (h.get startAddr .magic = rtMemheapFreed ∧ h.get startAddr .poolPtr = obj ∧
      h.get startAddr .next = tail ∧ h.get startAddr .prev = tail) ∧
    (h.get startAddr .nextFree = freeHeader ∧ h.get startAddr .prevFree = freeHeader) ∧
    (h.get freeHeader .nextFree = startAddr ∧ h.get freeHeader .prevFree = startAddr) ∧
    h.get tail .magic = rtMemheapUsed ∧ h.get tail .next = startAddr ∧
      h.get tail .prev = startAddr := by
  obtain ⟨hmin, hle, havail⟩ := r.pool_spec
  have hheader : rtMemheapSize = 24 := rfl
  have hfits := r.fits
  have hout := r.outside
  have hlt := r.header_lt
  have hobj := r.obj_lt
  have hfreed : rtMemheapFreed < 2 ^ 32 := by decide
  have hused : rtMemheapUsed < 2 ^ 32 := by decide
  have hzero : 0 < 2 ^ 32 := by decide
  have hflt : freeHeader < 2 ^ 32 := by omega
  have hslt : startAddr < 2 ^ 32 := by omega
  have htlt : tail < 2 ^ 32 := by omega
  have hend : add32 (add32 startAddr (rtAlignDown size - 48)) rtMemheapSize = tail := by
    have hdata : add32 startAddr (rtAlignDown size - 48) = startAddr + (rtAlignDown size - 48) :=
      add32_eq (by omega)
    rw [hdata, add32_eq (by omega)]
    omega
  have hfs : Apart freeHeader startAddr := by unfold Apart; omega
  have hft : Apart freeHeader tail := by unfold Apart; omega
  have hst : Apart startAddr tail := by unfold Apart; omega
  have hne : freeHeader ≠ startAddr ∧ freeHeader ≠ tail ∧ startAddr ≠ tail := by omega
  simp only [heq, rtMemheapInit, havail, hend]
  simp only [get_set, set_freeList, hfs, hfs.symm, hft, hft.symm, hst, hst.symm, Apart.refl, hfreed,
    hused, hzero, hflt, hslt, htlt, hobj, hne.1, hne.2.1, hne.2.2, hne.1.symm, hne.2.1.symm,
    hne.2.2.symm, reduceCtorEq, and_true, and_false, if_true, if_false, and_self]

end

theorem init_object {h : RtMemheap} (heq : h = rtMemheapInit mem obj freeHeader startAddr size) :
    h.self = obj ∧ h.startAddr = startAddr ∧ h.poolSize = rtAlignDown size ∧
      h.freeList = freeHeader ∧ h.availableSize = sub32 (rtAlignDown size) (2 * rtMemheapSize) ∧
      h.maxUsedSize = sub32 (rtAlignDown size) (sub32 (rtAlignDown size) (2 * rtMemheapSize)) := by
  subst heq
  exact ⟨rfl, rfl, rfl, rfl, rfl, rfl⟩

theorem Region.init_laid (r : Region obj freeHeader startAddr size) {tail : Nat}
    (htail : tail + 24 = startAddr + rtAlignDown size) :
    Laid (rtMemheapInit mem obj freeHeader startAddr size) tail [startAddr] [startAddr] := by
  generalize heq : rtMemheapInit mem obj freeHeader startAddr size = h
  obtain ⟨hmin, hle, havail⟩ := r.pool_spec
  have hpoollt := hle.trans_lt r.size_lt
  obtain ⟨hitem, htaillt, hheader, hdata⟩ : startAddr + 24 ≤ tail ∧ tail + 24 ≤ 2 ^ 32 ∧
      (freeHeader + 24 ≤ startAddr ∧ freeHeader + 24 ≤ tail ∨ tail + 24 ≤ freeHeader) ∧
      tail - startAddr - 24 = rtAlignDown size - 48 := by
    have hheader : rtMemheapSize = 24 := rfl
    have hfits := r.fits
    have hout := r.outside
    omega
  have hused : sub32 (rtAlignDown size) (rtAlignDown size - 48) = 48 := by
    rw [sub32_eq (by omega) hpoollt]
    omega
  obtain ⟨⟨hmagic, hpool, hnext, hprev⟩, ⟨hnf, hpf⟩, ⟨hfn, hfp⟩, htm, htn, htp⟩ :=
    r.init_get heq.symm htail
  obtain ⟨hself, hstart, hsize, hfree, hcount, hmax⟩ := init_object heq.symm
  rw [havail] at hcount hmax
  have R : Rings h tail [startAddr] [startAddr] := by
    constructor
    · exact .cons_cons ⟨htn, hprev⟩ (.cons_cons ⟨hnext, htp⟩ (.singleton _))
    · rw [hfree]
      exact .cons_cons ⟨hfn, hpf⟩ (.cons_cons ⟨hnf, hfp⟩ (.singleton _))
    · simpa using hitem
    · rw [hfree]
      simpa using hheader
    · exact htaillt
    · rw [hfree]
      exact r.header_lt
    · rw [hself]
      exact r.obj_lt
    · exact nodup_singleton startAddr
    · exact fun a ha => ha
  have M : Marks h tail [startAddr] [startAddr] := by
    constructor
    · intro a ha _
      exact mem_singleton.mp ha ▸ hmagic
    · exact fun a ha hnot => absurd ha hnot
    · intro a ha
      rw [mem_singleton.mp ha, hpool, hself]
    · exact htm
  constructor
  · constructor
    · exact R
    · exact M
    · rw [hstart]
      rfl
    · rw [hstart, hsize]
      exact htail
    · rw [hsize]
      exact hpoollt
    · exact R.nodup
    · exact fun a ha => ha
  · intro a ha hm
    rw [mem_singleton.mp ha, hnext, mem_singleton] at hm
    omega
  · have hdata : h.size startAddr = rtAlignDown size - 48 := by rw [RtMemheap.size, hnext, hdata]
    rw [total_cons, total_nil, hdata, hcount, Nat.add_zero]
  · rw [hsize, hmax, hcount]
    omega

/-- The clients hold the data of the items in use. -/
structure Holds (s : Sys) (tail : Nat) (items free : List Nat) : Prop where
  laid : Laid s.heap tail items free
  nodup : s.live.Nodup
  live : ∀ p, p ∈ s.live ↔ ∃ a, Held items free a ∧ p = a + 24

/-- The calls of which no comparison wraps around. -/
def Careful (s : Sys) : Act → Prop
  | .realloc ptr newsize =>
    ptr = 0 ∨ s.heap.IsUsed (s.heap.get (sub32 ptr rtMemheapSize) .next) ∨
      request newsize + rtMemheapMinialloc < 2 ^ 32
  | _ => True

instance (s : Sys) (a : Act) : Decidable (Careful s a) :=
  match a with
  | .realloc ptr newsize => inferInstanceAs (Decidable (ptr = 0 ∨
      s.heap.IsUsed (s.heap.get (sub32 ptr rtMemheapSize) .next) ∨
      request newsize + rtMemheapMinialloc < 2 ^ 32))
  | .alloc _ => .isTrue trivial
  | .free _ => .isTrue trivial
  | .store _ _ _ => .isTrue trivial

/-- A block that could not be resized is as it was, and one that could has the bytes it had. -/
def Resizes (h h' : RtMemheap) (ptr p newsize : Nat) : Prop :=
  (p = 0 → h' = h) ∧ (p ≠ 0 → ptr ≠ 0 → ∀ j < request newsize,
    j < h.memitemSize (sub32 ptr rtMemheapSize) → h'.mem (p + j) = h.mem (ptr + j))

namespace Holds

variable {s : Sys} {tail : Nat} {items free : List Nat}

section

variable (H : Holds s tail items free) {a : Nat} {h' : RtMemheap} {items' free' : List Nat}
include H

theorem ne_zero : 0 ∉ s.live := by
  intro hm
  obtain ⟨a, -, ha⟩ := (H.live 0).mp hm
  omega

/-- A block of the list of live ones is one item in use. -/
theorem mem_iff : a + 24 ∈ s.live ↔ Held items free a := by
  rw [H.live]
  constructor
  · rintro ⟨b, hb, heq⟩
    have hab : a = b := by omega
    exact hab ▸ hb
  · exact fun ha => ⟨a, ha, rfl⟩

theorem take
    (hfresh : ¬ Held items free a) (L : Laid h' tail items' free')
    (hheld : ∀ b, Held items' free' b ↔ b = a ∨ Held items free b) :
    Holds ⟨h', (a + 24) :: s.live⟩ tail items' free' where
  laid := L
  nodup := nodup_cons.mpr ⟨fun hm => hfresh (H.mem_iff.mp hm), H.nodup⟩
  live p := by
    rw [mem_cons, H.live]
    constructor
    · rintro (rfl | ⟨b, hb, rfl⟩)
      · exact ⟨a, (hheld a).mpr (.inl rfl), rfl⟩
      · exact ⟨b, (hheld b).mpr (.inr hb), rfl⟩
    · rintro ⟨b, hb, rfl⟩
      rcases (hheld b).mp hb with rfl | hb
      · exact .inl rfl
      · exact .inr ⟨b, hb, rfl⟩

theorem give
    (L : Laid h' tail items' free') (hheld : ∀ b, Held items' free' b ↔ Held items free b ∧ b ≠ a) :
    Holds ⟨h', s.live.erase (a + 24)⟩ tail items' free' where
  laid := L
  nodup := H.nodup.erase (a + 24)
  live p := by
    rw [H.nodup.mem_erase_iff, H.live]
    constructor
    · rintro ⟨hne, b, hb, rfl⟩
      exact ⟨b, (hheld b).mpr ⟨hb, fun heq => hne (heq ▸ rfl)⟩, rfl⟩
    · rintro ⟨b, hb, rfl⟩
      obtain ⟨hb, hne⟩ := (hheld b).mp hb
      exact ⟨by omega, b, hb, rfl⟩

theorem alloc (size : Nat) :
    ∃ h' p, s.heap.rtMemheapAlloc size = some (h', p) ∧ SameObject s.heap h' ∧
      (p = 0 → h' = s.heap) ∧ ∃ items' free',
      Holds ⟨h', if p = 0 then s.live else p :: s.live⟩ tail items' free' := by
  obtain ⟨h', p, halloc, hsame, -, hend⟩ := H.laid.alloc size
  refine ⟨h', p, halloc, hsame, ?_⟩
  rcases hend with ⟨rfl, rfl⟩ | ⟨a, items', free', rfl, hfresh, L, -, hheld⟩
  · exact ⟨fun _ => rfl, items, free, H⟩
  · exact ⟨fun hzero => by omega, items', free', H.take hfresh L hheld⟩

theorem release {ptr : Nat} (hptr : s.Passes ptr) :
    ∃ h', s.heap.rtMemheapFree ptr = some h' ∧ SameObject s.heap h' ∧ ∃ items' free',
      Holds ⟨h', s.live.erase ptr⟩ tail items' free' := by
  rcases hptr with rfl | hptr
  · rw [erase_of_not_mem H.ne_zero]
    exact ⟨s.heap, rfl, .refl _, items, free, H⟩
  · obtain ⟨a, ha, rfl⟩ := (H.live ptr).mp hptr
    obtain ⟨h', items', free', hfree, hsame, L, hheld⟩ := H.laid.free_spec ha.1 ha.2
    exact ⟨h', hfree, hsame.toSameObject, items', free', H.give L hheld⟩

theorem resize {a newsize : Nat} (ha : Held items free a)
    (hcareful : s.heap.IsUsed (s.heap.get a .next) ∨ request newsize + rtMemheapMinialloc < 2 ^ 32) :
    ∃ h' p, (if request newsize > s.heap.memitemSize a then s.heap.grow (a + 24) (request newsize)
      else some (s.heap.shrink (a + 24) (request newsize))) = some (h', p) ∧ SameObject s.heap h' ∧
        Resizes s.heap h' (a + 24) p newsize ∧ ∃ items' free',
          Holds ⟨h', if p ≠ 0 then p :: s.live.erase (a + 24) else s.live⟩ tail items' free' := by
  have hagain : ∀ {h' : RtMemheap} {items' free' : List Nat}, Laid h' tail items' free' →
      (∀ x, Held items' free' x ↔ x = a ∨ Held items free x ∧ x ≠ a) →
      Holds ⟨h', (a + 24) :: s.live.erase (a + 24)⟩ tail items' free' := by
    intro h' items' free' L hheld
    have hperm := perm_cons_erase (H.mem_iff.mpr ha)
    refine ⟨L, hperm.nodup_iff.mp H.nodup, fun p => ?_⟩
    rw [← hperm.mem_iff, H.live]
    have hiff : ∀ x, Held items' free' x ↔ Held items free x := by
      intro x
      rw [hheld]
      by_cases hx : x = a
      · simp [hx, ha]
      · simp [hx]
    simp only [hiff]
  unfold Resizes
  rw [H.laid.linked.rings.header_eq ha.1, H.laid.linked.rings.memitemSize_eq ha.1]
  by_cases hgrow : request newsize > s.heap.size a
  · rw [if_pos hgrow]
    obtain ⟨h', p, hcall, hsame, hend⟩ :=
      H.laid.grow_spec ha.1 ha.2 hgrow (request_le newsize) hcareful
    refine ⟨h', p, hcall, hsame, ?_⟩
    rcases hend with ⟨rfl, rfl⟩ | ⟨items', free', n, rfl, hn, hdata, L, hheld⟩
    · exact ⟨⟨fun _ => rfl, fun hne => absurd rfl hne⟩, items, free, H⟩
    · refine ⟨⟨fun hzero => by omega, fun _ _ j _ => hdata j⟩, items', free', ?_⟩
      rw [if_pos (by omega)]
      rcases hn with rfl | hfresh
      · exact hagain L hheld
      · have hne : n + 24 ∉ s.live.erase (a + 24) := fun hm =>
          hfresh (H.mem_iff.mp (mem_of_mem_erase hm))
        refine ⟨L, nodup_cons.mpr ⟨hne, H.nodup.erase _⟩, fun p => ?_⟩
        rw [mem_cons, H.nodup.mem_erase_iff, H.live]
        constructor
        · rintro (rfl | ⟨hpa, b, hb, rfl⟩)
          · exact ⟨n, (hheld n).mpr (.inl rfl), rfl⟩
          · exact ⟨b, (hheld b).mpr (.inr ⟨hb, fun heq => hpa (heq ▸ rfl)⟩), rfl⟩
        · rintro ⟨b, hb, rfl⟩
          rcases (hheld b).mp hb with rfl | ⟨hb, hba⟩
          · exact .inl rfl
          · exact .inr ⟨by omega, b, hb, rfl⟩
  · rw [if_neg hgrow]
    obtain ⟨h', items', free', hcall, hsame, hdata, L, hheld⟩ :=
      H.laid.shrink_spec ha.1 ha.2 (Nat.le_of_not_gt hgrow)
    refine ⟨h', a + 24, by rw [hcall], hsame, ⟨fun hzero => by omega, fun _ _ j hj _ =>
      hdata _ (by omega) (by omega)⟩, items', free', ?_⟩
    apply hagain L
    intro x
    rw [hheld]
    by_cases hx : x = a
    · simp [hx, ha]
    · simp [hx]

theorem realloc {ptr newsize : Nat} (hptr : s.Passes ptr)
    (hcareful : Careful s (.realloc ptr newsize)) :
    ∃ h' p, s.heap.rtMemheapRealloc ptr newsize = some (h', p) ∧ SameObject s.heap h' ∧
      (newsize ≠ 0 → Resizes s.heap h' ptr p newsize) ∧ ∃ items' free',
        Holds ⟨h', if p ≠ 0 then p :: s.live.erase ptr else if newsize = 0 then
          s.live.erase ptr else s.live⟩ tail items' free' := by
  unfold rtMemheapRealloc
  by_cases hzero : newsize = 0
  · -- the block is freed
    rw [if_pos hzero]
    obtain ⟨h', hfree, hsame, hholds⟩ := H.release hptr
    rw [hfree]
    refine ⟨h', 0, rfl, hsame, absurd hzero, ?_⟩
    rw [if_neg fun hne => hne rfl, if_pos hzero]
    exact hholds
  · rw [if_neg hzero, if_neg hzero]
    rcases hptr with rfl | hptr
    · -- a block is allocated
      obtain ⟨h', p, halloc, hsame, hnull, hholds⟩ := H.alloc (request newsize)
      rw [if_pos rfl, erase_of_not_mem H.ne_zero]
      refine ⟨h', p, halloc, hsame, fun _ => ⟨hnull, fun _ hne => absurd rfl hne⟩, ?_⟩
      rw [ite_not]
      exact hholds
    · obtain ⟨a, ha, rfl⟩ := (H.live ptr).mp hptr
      have hcareful := hcareful.resolve_left (by omega)
      rw [H.laid.linked.rings.header_eq ha.1] at hcareful ⊢
      rw [if_neg (by omega)]
      obtain ⟨h', p, hcall, hsame, hdata, hholds⟩ := H.resize ha hcareful
      exact ⟨h', p, hcall, hsame, fun _ => hdata, hholds⟩

end

end Holds

/-- What holds of a heap between two calls. -/
structure Orderly (s : Sys) (startAddr tail : Nat) (items free : List Nat) : Prop where
  /-- All items are in a ring, in the order of their addresses. -/
  ring : Ring (s.heap.get · .next) (s.heap.get · .prev) tail items
  first : items.head? = some startAddr
  increasing : (items ++ [tail]).Pairwise fun a b => a + rtMemheapSize ≤ b
  tail_used : s.heap.get tail .magic = rtMemheapUsed
  /-- The free list has the items that are marked as freed, each once. -/
  freeRing : Ring (s.heap.get · .nextFree) (s.heap.get · .prevFree) s.heap.freeList free
  nodup : free.Nodup
  freed : ∀ a, a ∈ free ↔ a ∈ items ∧ s.heap.get a .magic = rtMemheapFreed
  /-- No two neighbours are free. -/
  separate : ∀ a ∈ free, s.heap.get a .next ∉ free
  available : s.heap.availableSize = (free.map s.heap.memitemSize).sum
  maxUsed : sub32 s.heap.poolSize s.heap.availableSize ≤ s.heap.maxUsedSize
  /-- The live blocks are the data of all other items, and are disjoint. -/
  live : ∀ p, p ∈ s.live ↔ ∃ a ∈ items, a ∉ free ∧ p = a + rtMemheapSize
  disjoint : s.live.Pairwise fun p q =>
    p + s.heap.memitemSize (sub32 p rtMemheapSize) ≤ q ∨
      q + s.heap.memitemSize (sub32 q rtMemheapSize) ≤ p

namespace Holds

variable {s t : Sys} {tail : Nat} {items free : List Nat}

section

variable (H : Holds s tail items free)
include H

theorem orderly : Orderly s s.heap.startAddr tail items free where
  ring := H.laid.linked.rings.ring
  first := H.laid.linked.first
  increasing := H.laid.linked.rings.sorted
  tail_used := H.laid.linked.marks.tail
  freeRing := H.laid.linked.rings.freeRing
  nodup := H.laid.linked.nodup
  freed a := by
    constructor
    · exact fun ha => ⟨H.laid.linked.sub a ha, H.laid.linked.marks.freed a (H.laid.linked.sub a ha) ha⟩
    · rintro ⟨ha, hmagic⟩
      by_contra hfree
      rw [H.laid.linked.marks.used a ha hfree] at hmagic
      cases hmagic
  separate := H.laid.separate
  available := by
    rw [H.laid.counted, total, map_congr_left fun a ha =>
      (H.laid.linked.rings.memitemSize_eq (H.laid.linked.sub a ha)).symm]
  maxUsed := by
    have hle := H.laid.available_le
    have hmax := H.laid.maxUsed
    rw [sub32_eq (by omega) H.laid.linked.pool_lt]
    omega
  live p := by
    rw [H.live]
    unfold Held
    simp only [and_assoc]
    rfl
  disjoint := by
    apply H.nodup.imp_of_mem
    intro p q hp hq hne
    obtain ⟨a, ha, rfl⟩ := (H.live p).mp hp
    obtain ⟨b, hb, rfl⟩ := (H.live q).mp hq
    have R := H.laid.linked.rings
    have haitem := ha.1
    have hbitem := hb.1
    rw [R.header_eq haitem, R.header_eq hbitem, R.memitemSize_eq haitem, R.memitemSize_eq hbitem]
    have hanext := R.next_size haitem
    have hbnext := R.next_size hbitem
    have hba := R.data_apart haitem (Rings.item_node hbitem)
    have hab := R.data_apart hbitem (Rings.item_node haitem)
    omega

theorem empty (hlive : s.live = []) : items = [s.heap.startAddr] ∧ free = [s.heap.startAddr] ∧
      s.heap.availableSize = s.heap.poolSize - 48 := by
  have hall : ∀ a ∈ items, a ∈ free := by
    intro a ha
    by_contra hfree
    have hmem := H.mem_iff.mpr ⟨ha, hfree⟩
    rw [hlive] at hmem
    cases hmem
  obtain ⟨rest, rfl⟩ := List.head?_eq_some_iff.mp H.laid.linked.first
  have hfirst := hall _ (.head _)
  cases rest with
  | cons b rest =>
    have R : Rings s.heap tail ([] ++ s.heap.startAddr :: b :: rest) free := H.laid.linked.rings
    have hnext := (R.next_eq (b := b) (k := rest ++ [tail]) rfl).1
    have hseparate := H.laid.separate _ hfirst
    rw [hnext] at hseparate
    exact absurd (hall b (by simp)) hseparate
  | nil =>
    have hfree : free = [s.heap.startAddr] := by
      obtain ⟨f₁, f₂, rfl⟩ := append_of_mem hfirst
      have hsub : ∀ x ∈ f₁ ++ f₂, x = s.heap.startAddr := fun x hx =>
        mem_singleton.mp (H.laid.linked.sub x (by
          rcases mem_append.mp hx with hx | hx <;> simp [hx]))
      have hnot := (nodup_cons.mp (perm_middle.nodup_iff.mp H.laid.linked.nodup)).1
      have hnil : f₁ ++ f₂ = [] := eq_nil_iff_forall_not_mem.mpr fun x hx =>
        hnot (hsub x hx ▸ hx)
      rw [(append_eq_nil_iff.mp hnil).1, (append_eq_nil_iff.mp hnil).2]
      rfl
    have R : Rings s.heap tail ([] ++ [s.heap.startAddr]) free := H.laid.linked.rings
    have hnext := (R.next_eq (b := tail) (k := []) rfl).1
    have htail := H.laid.linked.tail_eq
    refine ⟨rfl, hfree, ?_⟩
    rw [H.laid.counted, hfree, total_cons, total_nil, RtMemheap.size, hnext]
    omega

theorem step {a : Act} (hcareful : Careful s a) (hstep : s.exec a = some t) :
    SameObject s.heap t.heap ∧ ∃ items' free', Holds t tail items' free' := by
  cases a with
  | alloc size =>
    obtain ⟨h', p, halloc, hsame, -, hholds⟩ := H.alloc size
    simp only [Sys.exec, halloc, Option.map_some] at hstep
    split at hstep
    · cases hstep
      exact ⟨hsame, hholds⟩
    · cases hstep
  | realloc ptr newsize =>
    simp only [Sys.exec] at hstep
    split at hstep
    · next hvalid =>
      obtain ⟨h', p, hcall, hsame, -, hholds⟩ := H.realloc hvalid.1 hcareful
      rw [hcall] at hstep
      cases hstep
      exact ⟨hsame, hholds⟩
    · cases hstep
  | free ptr =>
    simp only [Sys.exec] at hstep
    split at hstep
    · next hvalid =>
      obtain ⟨h', hfree, hsame, hholds⟩ := H.release hvalid
      rw [hfree] at hstep
      cases hstep
      exact ⟨hsame, hholds⟩
    · cases hstep
  | store ptr addr v =>
    simp only [Sys.exec] at hstep
    split at hstep
    · next hdata =>
      obtain ⟨a, ha, rfl⟩ := (H.live ptr).mp hdata.1
      cases hstep
      rw [H.laid.linked.rings.header_eq ha.1, H.laid.linked.rings.memitemSize_eq ha.1] at hdata
      have hsame : SameObject s.heap { s.heap with mem := store8 s.heap.mem addr v } :=
        ⟨rfl, rfl, rfl, rfl⟩
      refine ⟨hsame, items, free, H.laid.data ha.1 hsame rfl rfl fun x hx => ?_, H.nodup, H.live⟩
      exact if_neg (by omega)
    · cases hstep

end

end Holds

/-- The heap stays laid out where each call is careful. -/
theorem reachable_holds (r : Region obj freeHeader startAddr size) {s : Sys}
    (h : Reachable (· = ⟨rtMemheapInit mem obj freeHeader startAddr size, []⟩)
      (Within (fun s a t => s.exec a = some t) Careful) s) :
    ∃ tail items free, tail + 24 = startAddr + rtAlignDown size ∧
      SameObject (rtMemheapInit mem obj freeHeader startAddr size) s.heap ∧
      Holds s tail items free := by
  obtain ⟨hmin, hle, havail⟩ := r.pool_spec
  obtain ⟨tail, htail⟩ : ∃ tail, tail + 24 = startAddr + rtAlignDown size :=
    ⟨startAddr + rtAlignDown size - 24, by omega⟩
  obtain ⟨hsame, items, free, H⟩ :
      SameObject (rtMemheapInit mem obj freeHeader startAddr size) s.heap ∧
        ∃ items free, Holds s tail items free := by
    apply h.invariant
    · rintro s rfl
      refine ⟨.refl _, [startAddr], [startAddr], r.init_laid htail, nodup_nil, fun p => ?_⟩
      simp [Held]
    · rintro s a t - ⟨hsame, items, free, H⟩ hstep
      obtain ⟨hsame', hholds⟩ := H.step hstep.1 hstep.2
      exact ⟨hsame.trans hsame', hholds⟩
  exact ⟨tail, items, free, htail, hsame, H⟩

/-- Where each call is careful, the heap is orderly, each call of a live block or of none has a
result, and without a live block the heap is as it was made. -/
theorem reachable_orderly (r : Region obj freeHeader startAddr size) {s : Sys}
    (h : Reachable (· = ⟨rtMemheapInit mem obj freeHeader startAddr size, []⟩)
      (Within (fun s a t => s.exec a = some t) Careful) s) :
    ∃ tail items free, tail + rtMemheapSize = startAddr + rtAlignDown size ∧
      Orderly s startAddr tail items free ∧
      (s.live = [] → items = [startAddr] ∧ free = [startAddr] ∧ s.heap.availableSize =
        (rtMemheapInit mem obj freeHeader startAddr size).availableSize) ∧
      (∀ n, (s.heap.rtMemheapAlloc n).isSome) ∧
      (∀ ptr, s.Passes ptr → (s.heap.rtMemheapFree ptr).isSome) ∧
      ∀ ptr n, s.Passes ptr → Careful s (.realloc ptr n) → (s.heap.rtMemheapRealloc ptr n).isSome := by
  obtain ⟨-, -, havail⟩ := r.pool_spec
  obtain ⟨tail, items, free, htail, hsame, H⟩ := reachable_holds r h
  have hstart : s.heap.startAddr = startAddr := hsame.startAddr
  have hpool : s.heap.poolSize = rtAlignDown size := hsame.poolSize
  refine ⟨tail, items, free, htail, hstart ▸ H.orderly, ?_, ?_, ?_, ?_⟩
  · intro hlive
    obtain ⟨hitems, hfree, hcount⟩ := H.empty hlive
    rw [hstart] at hitems hfree
    rw [hpool, ← havail] at hcount
    exact ⟨hitems, hfree, hcount⟩
  · intro n
    obtain ⟨h', p, halloc, -⟩ := H.alloc n
    rw [halloc]
    rfl
  · intro ptr hptr
    obtain ⟨h', hfree, -⟩ := H.release hptr
    rw [hfree]
    rfl
  · intro ptr n hptr hcareful
    obtain ⟨h', p, hcall, -⟩ := H.realloc hptr hcareful
    rw [hcall]
    rfl

theorem region_small : Region 64 80 4096 160 :=
  ⟨by decide, by decide, by decide, by decide, by decide, by decide⟩

/-- A block that has grown in place, and one behind the rest. -/
theorem reachable_orderly_grown : ∃ s : Sys, s.live = [4160, 4120] ∧
    ∃ tail items free, tail + rtMemheapSize = 4096 + rtAlignDown 160 ∧
      Orderly s 4096 tail items free ∧
      (s.live = [] → items = [4096] ∧ free = [4096] ∧ s.heap.availableSize =
        (rtMemheapInit (fun _ => 0) 64 80 4096 160).availableSize) ∧
      (∀ n, (s.heap.rtMemheapAlloc n).isSome) ∧
      (∀ ptr, s.Passes ptr → (s.heap.rtMemheapFree ptr).isSome) ∧
      ∀ ptr n, s.Passes ptr → Careful s (.realloc ptr n) → (s.heap.rtMemheapRealloc ptr n).isSome := by
  obtain ⟨s, hs, hlive⟩ : ∃ s ∈ runWithin Sys.exec Careful ⟨rtMemheapInit (fun _ => 0) 64 80 4096 160,
      []⟩ [.alloc 12, .realloc 4120 16, .store 4120 4121 7, .alloc 12],
      s.live = [4160, 4120] := by decide +kernel
  have hstart : Reachable (fun s : Sys => s = ⟨rtMemheapInit (fun _ => 0) 64 80 4096 160, []⟩)
      (Within (fun s a t => s.exec a = some t) Careful)
      ⟨rtMemheapInit (fun _ => 0) 64 80 4096 160, []⟩ := .start rfl
  exact ⟨s, hlive, reachable_orderly region_small (hstart.runWithin hs)⟩

/-- A block that is to grow to nearly `2 ^ 32` bytes is grown in place: the header of what is left
is written into the header of the block. -/
theorem wrapped_not_orderly : ∃ s : Sys,
    Reachable (· = ⟨rtMemheapInit (fun _ => 0) 64 80 4096 160, []⟩) (fun s a t => s.exec a = some t) s ∧
      s.heap.get 4096 .next = 4112 ∧ ¬ ∃ tail items free, Orderly s 4096 tail items free := by
  obtain ⟨s, hs, hnext⟩ :
      ∃ s ∈ runAll Sys.exec ⟨rtMemheapInit (fun _ => 0) 64 80 4096 160, []⟩ [.alloc 12,
      .realloc 4120 0xfffffff8],
      s.heap.get 4096 .next = 4112 := by decide +kernel
  have hstart : Reachable (fun s : Sys => s = ⟨rtMemheapInit (fun _ => 0) 64 80 4096 160, []⟩)
      (fun s a t => s.exec a = some t) ⟨rtMemheapInit (fun _ => 0) 64 80 4096 160, []⟩ := .start rfl
  refine ⟨s, hstart.runAll hs, hnext, ?_⟩
  rintro ⟨tail, items, free, H⟩
  obtain ⟨rest, rfl⟩ := List.head?_eq_some_iff.mp H.first
  obtain ⟨b, k, hk⟩ := Rings.exists_next rest tail
  have hlink : s.heap.get 4096 .next = b := (H.ring.link (f := [tail]) rfl hk).1
  have hincreasing := H.increasing
  rw [List.cons_append, hk] at hincreasing
  have hle := (List.pairwise_cons.mp hincreasing).1 b List.mem_cons_self
  have hheader : rtMemheapSize = 24 := rfl
  omega

end RtKernel.Memheap

import RtKernel.Mem.Operations

/-!
# Serving a request

A request walks from `lfree` to the first free item that is large enough, cuts
what is not needed off its end and marks it used.
-/

namespace RtKernel.Mem

open RtSmallMem

/-- `m'` is `m` with what lies behind the first `size` bytes of `p` possibly cut off. -/
structure Carved (m m' : RtSmallMem) (items items' : Set Nat) (p size : Nat) : Prop where
  region : SameRegion m m'
  layout : Layout m' items'
  lfree : m'.lfree = m.lfree
  subset : items ⊆ items'
  poolPtr : ∀ s ∈ items, m'.poolPtr s = m.poolPtr s
  next : ∀ s ∈ items, s ≠ p → m'.next s = m.next s
  /-- The request still fits. -/
  room : p + 12 + size ≤ m'.next p
  /-- A new item is free and lies between `p` and the old successor of `p`. -/
  fresh : ∀ x ∈ items', x ∉ items → ¬ m'.memIsUsed x ∧ p < x ∧ m'.next x = m.next p

namespace Carved

variable {m m' : RtSmallMem} {items items' : Set Nat} {p size : Nat}

theorem isUsed_iff (c : Carved m m' items items' p size) {s : Nat} (hs : s ∈ items) :
    m'.memIsUsed s ↔ m.memIsUsed s := by
  rw [memIsUsed, memIsUsed, c.poolPtr s hs]

theorem refl (L : Layout m items) (hroom : p + 12 + size ≤ m.next p) :
    Carved m m items items p size where
  region := .refl m
  layout := L
  lfree := rfl
  subset := subset_rfl
  poolPtr _ _ := rfl
  next _ _ _ := rfl
  room := hroom
  fresh _ hx hnx := absurd hx hnx

theorem split (L : Layout m items) (R : Region m) (hp : p ∈ items) (hpe : p ≠ m.heapEnd)
    (hroom : p + 12 + size + 12 ≤ m.next p) (hsize : size % 4 = 0) :
    Carved m (splitItem m p (p + 12 + size)) items (insert (p + 12 + size) items) p size := by
  have hpx : p + 12 ≤ p + 12 + size := by omega
  have hp4 := L.aligned p hp
  obtain ⟨xpool, xnext, -⟩ := splitItem_new R hpx hroom
  refine ⟨splitItem_sameRegion R hpx, L.split R hp hpe hpx hroom (by omega), splitItem_lfree R hpx,
    Set.subset_insert _ _, fun s hs => (L.splitItem_links R hp hpe hpx hroom).1 hs, ?_, ?_, ?_⟩
  · intro s hs hsp
    rw [(L.splitItem_links R hp hpe hpx hroom).2.1 hs, if_neg hsp]
  · rw [(L.splitItem_links R hp hpe hpx hroom).2.1 hp, if_pos rfl]
  · rintro x (rfl | hx) hnx
    · have h1 := R.addr
      refine ⟨?_, by omega, xnext⟩
      rw [memIsUsed, Nat.and_one_is_mod]
      omega
    · exact absurd hx hnx

theorem charge (c : Carved m m' items items' p size) (n : Nat) :
    Carved m (Mem.charge m' n) items items' p size where
  region := ⟨c.region.addr, c.region.heapPtr, c.region.heapEnd, c.region.memSizeAligned⟩
  layout := c.layout.congr ⟨rfl, rfl, rfl, rfl⟩ fun _ _ => ⟨rfl, rfl, rfl⟩
  lfree := c.lfree
  subset := c.subset
  poolPtr := c.poolPtr
  next := c.next
  room := c.room
  fresh := c.fresh

end Carved

/-- The free item `q` serves a request of `size` bytes. -/
def Serves (m : RtSmallMem) (items : Set Nat) (size q : Nat) : Prop :=
  q ∈ items ∧ ¬ m.memIsUsed q ∧ q + 12 + size ≤ m.next q

variable {items : Set Nat} {m : RtSmallMem}

theorem Serves.ne_end {size q : Nat} (h : Serves m items size q)
    (L : Layout m items) : q ≠ m.heapEnd := by
  rintro rfl
  exact h.2.1 L.end_used

/-- The search for a fit ends, at the first item that serves the request. -/
theorem Layout.findFit_first {size : Nat} (L : Layout m items)
    (R : Region m) (hsize : size ≤ m.memSizeAligned) :
    ∀ fuel ptr, ptr ∈ items → m.heapEnd < fuel + ptr →
      (findFit m size fuel ptr = some none ∧ ∀ q, ptr ≤ q → ¬ Serves m items size q) ∨
        ∃ p, findFit m size fuel ptr = some (some p) ∧ Serves m items size p ∧ ptr ≤ p ∧
          ∀ q, ptr ≤ q → Serves m items size q → p ≤ q := by
  have h1 := R.heapEnd
  have h2 := R.fits
  have hlim : sub32 m.memSizeAligned size = m.memSizeAligned - size := sub32_eq hsize (by omega)
  intro fuel
  induction fuel with
  | zero =>
    intro ptr hptr hfuel
    have := L.le_end ptr hptr
    omega
  | succ fuel ih =>
    intro ptr hptr hfuel
    rw [Mem.findFit, hlim]
    by_cases hle : ptr ≤ m.memSizeAligned - size
    · have hpe : ptr ≠ m.heapEnd := by omega
      have hn := L.next_mem ptr hptr hpe
      have hne := L.le_end _ hn.1
      have hadd : add32 ptr sizeofStructMem = ptr + 12 := add32_eq (by rw [sizeofStructMem]; omega)
      have hroom : sub32 (m.next ptr) (ptr + 12) = m.next ptr - (ptr + 12) :=
        sub32_eq (by omega) (by omega)
      have hfits : fits m size ptr ↔ Serves m items size ptr := by
        rw [fits, hadd]
        constructor
        · rintro ⟨hfree, hfit⟩
          exact ⟨hptr, hfree, by omega⟩
        · rintro ⟨-, hfree, hfit⟩
          exact ⟨hfree, by omega⟩
      rw [if_pos hle]
      by_cases hfit : fits m size ptr
      · rw [if_pos hfit]
        exact .inr ⟨ptr, rfl, hfits.mp hfit, le_rfl, fun q hq _ => hq⟩
      · rw [if_neg hfit]
        -- an item that serves from `ptr` on is not `ptr`
        have hskip : ∀ q, ptr ≤ q → Serves m items size q → m.next ptr ≤ q := by
          intro q hq hserves
          rcases L.gap ptr hptr hpe q hserves.1 with hg | hg
          · have heq : q = ptr := by omega
            exact absurd (hfits.mpr (heq ▸ hserves)) hfit
          · exact hg
        rcases ih (m.next ptr) hn.1 (by omega) with ⟨hr, hnone⟩ | ⟨p, hr, hp, hle', hlow⟩
        · exact .inl ⟨hr, fun q hq hserves => hnone q (hskip q hq hserves) hserves⟩
        · exact .inr ⟨p, hr, hp, by omega, fun q hq hserves => hlow q (hskip q hq hserves) hserves⟩
    · rw [if_neg hle]
      refine .inl ⟨rfl, fun q hq hserves => ?_⟩
      have hend := L.le_end _ (L.next_mem q hserves.1 (hserves.ne_end L)).1
      have hfit := hserves.2.2
      omega

/-- The walk of `lfree` ends at the first free item from where it starts. -/
theorem Layout.nextFree (L : Layout m items) : ∀ fuel ptr, ptr ∈ items → m.heapEnd < fuel + ptr →
      ∃ l, nextFree m fuel ptr = some l ∧ l ∈ items ∧ (l = m.heapEnd ∨ ¬ m.memIsUsed l) ∧
        ∀ s ∈ items, ptr ≤ s → ¬ m.memIsUsed s → l ≤ s := by
  intro fuel
  induction fuel with
  | zero =>
    intro ptr hptr hfuel
    have := L.le_end ptr hptr
    omega
  | succ fuel ih =>
    intro ptr hptr hfuel
    rw [Mem.nextFree]
    by_cases hstep : m.memIsUsed ptr ∧ ptr ≠ m.heapEnd
    · rw [if_pos hstep]
      have hn := L.next_mem ptr hptr hstep.2
      obtain ⟨l, hl, hmem, hfree, hlow⟩ := ih (m.next ptr) hn.1 (by omega)
      refine ⟨l, hl, hmem, hfree, ?_⟩
      intro s hs hle hsf
      apply hlow s hs _ hsf
      rcases L.gap ptr hptr hstep.2 s hs with hg | hg
      · have : s = ptr := by omega
        exact absurd hstep.1 (this ▸ hsf)
      · exact hg
    · rw [if_neg hstep]
      refine ⟨ptr, rfl, hptr, ?_, fun s _ hle _ => hle⟩
      by_cases he : ptr = m.heapEnd
      · exact .inl he
      · exact .inr fun hu => hstep ⟨hu, he⟩

/-- What `takeItem` leaves behind. -/
structure Taken (m m' : RtSmallMem) (items items' : Set Nat) (p size : Nat) : Prop where
  settled : Settled m' items'
  region : SameRegion m m'
  keeps : KeepsBlocks m m' items items' p
  mem : p ∈ items'
  used : m'.memIsUsed p
  room : p + 12 + size ≤ m'.next p

variable {items' : Set Nat} {m' : RtSmallMem} {p size : Nat}

/-- Marking the carved item used settles the heap once `lfree` is a lowest free item again. -/
theorem Carved.taken {p size l : Nat}
    (c : Carved m m' items items' p size) (h : Settled m items) (hp : p ∈ items)
    (hpe : p ≠ m.heapEnd) (hfree : ¬ m.memIsUsed p) (hl : l ∈ items')
    (hlf : l = m.heapEnd ∨ ¬ (m'.setPoolPtr p m'.memUsed).memIsUsed l)
    (hlow : ∀ s ∈ items', ¬ (m'.setPoolPtr p m'.memUsed).memIsUsed s → l ≤ s) :
    Taken m { m'.setPoolPtr p m'.memUsed with lfree := l } items items' p size := by
  have hR' := h.region.congr c.region
  obtain ⟨-, hpool, -, hodd⟩ := status_spec hR'
  have hp' := c.subset hp
  have hpe' : p ≠ m'.heapEnd := c.region.heapEnd ▸ hpe
  have hself : (m'.setPoolPtr p m'.memUsed).memIsUsed p := setPoolPtr_isUsed_self.mpr hodd
  have hnext : ∀ s ∈ items', (m'.setPoolPtr p m'.memUsed).next s = m'.next s :=
    fun s hs => c.layout.setPoolPtr_next hp' hs
  have hL := c.layout.setPoolPtr (v := m'.memUsed) hp' hpe' hpool
  have hroom : p + 12 + size ≤ (m'.setPoolPtr p m'.memUsed).next p := by
    rw [hnext p hp']
    exact c.room
  refine ⟨⟨hR'.congr ⟨rfl, rfl, rfl, rfl⟩,
    hL.congr ⟨rfl, rfl, rfl, rfl⟩ fun _ _ => ⟨rfl, rfl, rfl⟩, ?_, hl, ?_, hlow⟩,
    ⟨c.region.addr, c.region.heapPtr, c.region.heapEnd, c.region.memSizeAligned⟩, ?_, hp', hself,
    hroom⟩
  · -- the neighbours of `p` are used because `p` was free
    intro s hs hse
    change s ≠ m'.heapEnd at hse
    change (m'.setPoolPtr p m'.memUsed).memIsUsed s ∨
      (m'.setPoolPtr p m'.memUsed).memIsUsed ((m'.setPoolPtr p m'.memUsed).next s)
    rw [c.region.heapEnd] at hse
    by_cases hsp : s = p
    · exact .inl (hsp ▸ hself)
    rw [hnext s hs, setPoolPtr_isUsed_ne hsp]
    by_cases hold : s ∈ items
    · rw [c.isUsed_iff hold, c.next s hold hsp]
      by_cases hnp : m.next s = p
      · exact .inr (hnp.symm ▸ hself)
      · rw [setPoolPtr_isUsed_ne hnp, c.isUsed_iff (h.layout.next_mem s hold hse).1]
        exact h.coalesced s hold hse
    · obtain ⟨-, -, hnx⟩ := c.fresh s hs hold
      have hnp := h.layout.next_mem p hp hpe
      have hne : m.next p ≠ p := by omega
      rw [hnx, setPoolPtr_isUsed_ne hne, c.isUsed_iff hnp.1]
      exact .inr ((h.coalesced p hp hpe).resolve_left hfree)
  · change l = m'.heapEnd ∨ _
    rw [c.region.heapEnd]
    exact hlf
  · intro a' q hne b
    have hpool' : (m'.setPoolPtr p m'.memUsed).poolPtr q = m.poolPtr q :=
      (if_neg hne).trans (c.poolPtr q b.mem)
    have hnext' := (hnext q (c.subset b.mem)).trans (c.next q b.mem hne)
    exact ⟨b.congr ⟨c.region.addr, c.region.heapPtr, c.region.heapEnd, c.region.memSizeAligned⟩
      (c.subset b.mem) hpool' hnext', hnext'⟩

/-- All items but `heap_end` have at least the minimal size. -/
def Roomy (m : RtSmallMem) (items : Set Nat) : Prop :=
  ∀ s ∈ items, s ≠ m.heapEnd → s + sizeofStructMem + minSizeAligned ≤ m.next s

/-- `m'` is `m` with the item `p` carved and charged to the account. -/
structure Cut (m m' : RtSmallMem) (items items' : Set Nat) (p size : Nat) : Prop extends
    Carved m m' items items' p size where
  used : m'.used = add32 m.used (m'.next p - p)
  max : m'.max = if m.max < m'.used then m'.used else m.max
  /-- What is not needed is left over only where it makes no item. -/
  tight : m'.next p < p + 12 + size + 24
  rest : ∀ x ∈ items', x ∉ items → x + sizeofStructMem + minSizeAligned ≤ m'.next x
  word : ∀ o, o < p ∨ m.next p ≤ o → Outside items o → m'.word o = m.word o

/-- The item that serves a request of `size` bytes, taken from `p`, without the search for `lfree`. -/
theorem Settled.carve (h : Settled m items)
    (hp : p ∈ items) (hpe : p ≠ m.heapEnd) (hroom : p + 12 + size ≤ m.next p)
    (hsize : size % 4 = 0) : ∃ items', Cut m
      (if sub32 (m.next p) (add32 p sizeofStructMem) ≥
          add32 (add32 size sizeofStructMem) minSizeAligned then
        Mem.charge (splitItem m p (add32 (add32 p sizeofStructMem) size)) (add32 size sizeofStructMem)
      else Mem.charge m (sub32 (m.next p) p)) items items' p size := by
  have h2 := h.region.fits
  have hnm := h.layout.next_mem p hp hpe
  have hn := h.layout.le_end _ hnm.1
  have hp12 : add32 p sizeofStructMem = p + 12 := add32_eq (by rw [sizeofStructMem]; omega)
  have hx : add32 (p + 12) size = p + 12 + size := add32_eq (by omega)
  have hs12 : add32 size sizeofStructMem = size + 12 := add32_eq (by rw [sizeofStructMem]; omega)
  have hs24 : add32 (size + 12) minSizeAligned = size + 12 + 12 :=
    add32_eq (by rw [minSizeAligned]; omega)
  have havail : sub32 (m.next p) (p + 12) = m.next p - (p + 12) := sub32_eq (by omega) (by omega)
  have hall : sub32 (m.next p) p = m.next p - p := sub32_eq (by omega) (by omega)
  rw [hp12, hx, hs12, hs24, havail, hall]
  by_cases hcut : m.next p - (p + 12) ≥ size + 12 + 12
  · rw [if_pos hcut]
    have hpx : p + 12 ≤ p + 12 + size := by omega
    have hxq : p + 12 + size + 12 ≤ m.next p := by omega
    have hsplit := Carved.split h.layout h.region hp hpe hxq hsize
    have hnext := (h.layout.splitItem_links h.region hp hpe hpx hxq).2.1 hp
    rw [if_pos rfl] at hnext
    obtain ⟨hsused, hsmax⟩ := splitItem_accounts h.region hpx
    refine ⟨_, hsplit.charge _, ?_, ?_, ?_, ?_, ?_⟩
    · change add32 (splitItem m p (p + 12 + size)).used (size + 12) =
        add32 m.used ((splitItem m p (p + 12 + size)).next p - p)
      rw [hnext, hsused, Nat.add_assoc p, Nat.add_sub_cancel_left, Nat.add_comm 12]
    · change (if (splitItem m p (p + 12 + size)).max < _ then _ else _) = _
      rw [hsmax]
      rfl
    · change (splitItem m p (p + 12 + size)).next p < _
      omega
    · intro x hmem hnew
      have hfresh := (hsplit.fresh x hmem hnew).2.2
      obtain rfl := (Set.mem_insert_iff.mp hmem).resolve_right hnew
      change _ ≤ (splitItem m p (p + 12 + size)).next (p + 12 + size)
      rw [sizeofStructMem, minSizeAligned]
      omega
    · intro o ho hout
      exact h.layout.splitItem_outside h.region hp hpe hpx hout (by omega)
  · rw [if_neg hcut]
    refine ⟨_, (Carved.refl h.layout hroom).charge _, rfl, rfl, ?_, fun x hx hnx => absurd hx hnx,
      fun _ _ _ => rfl⟩
    change m.next p < _
    omega

/-- What serving a request of `size` bytes from the item `p` leaves behind. -/
structure Served (m m' : RtSmallMem) (items items' : Set Nat) (p size : Nat) : Prop where
  settled : Settled m' items'
  spares : Spares m m' items items' p
  serves : Serves m items size p
  mem : p ∈ items'
  isUsed : m'.memIsUsed p
  room : p + 12 + size ≤ m'.next p
  tight : m'.next p < p + 12 + size + 24
  roomy : minSizeAligned ≤ size → Roomy m items → Roomy m' items'
  used : m'.used = add32 m.used (m'.next p - p)
  max : m'.max = if m.max < m'.used then m'.used else m.max

theorem Cut.served {p size l : Nat}
    (c : Cut m m' items items' p size) (h : Settled m items) (hserves : Serves m items size p)
    (hl : l ∈ items') (hlf : l = m.heapEnd ∨ ¬ (m'.setPoolPtr p m'.memUsed).memIsUsed l)
    (hlow : ∀ s ∈ items', ¬ (m'.setPoolPtr p m'.memUsed).memIsUsed s → l ≤ s) :
    Served m { m'.setPoolPtr p m'.memUsed with lfree := l } items items' p size := by
  obtain ⟨hp, hfree, -⟩ := id hserves
  have hpe := hserves.ne_end h.layout
  have t := c.toCarved.taken h hp hpe hfree hl hlf hlow
  have hp' := c.subset hp
  have hnext : ∀ s ∈ items', (m'.setPoolPtr p m'.memUsed).next s = m'.next s :=
    fun s hs => c.layout.setPoolPtr_next hp' hs
  have hused : ∀ s ≠ p, (m'.setPoolPtr p m'.memUsed).memIsUsed s ↔ m'.memIsUsed s :=
    fun s hs => setPoolPtr_isUsed_ne hs
  refine ⟨t.settled, ⟨t.region, ?_, ?_, ?_⟩, hserves, t.mem, t.used, t.room, ?_, ?_, ?_, ?_⟩
  · intro s hs
    refine (and_congr_right fun _ => hused s hs).trans ?_
    constructor
    · intro ⟨hmem, hu⟩
      by_cases hold : s ∈ items
      · exact ⟨hold, (c.isUsed_iff hold).mp hu⟩
      · exact absurd hu (c.fresh s hmem hold).1
    · exact fun ⟨hmem, hu⟩ => ⟨c.subset hmem, (c.isUsed_iff hmem).mpr hu⟩
  · intro s hs hmem _ _
    exact (hnext s (c.subset hmem)).trans (c.next s hmem hs)
  · intro s hs hmem hse _ o hlo hhi
    have hout := h.layout.outside hmem hse hlo hhi
    have hop : o ≠ p := by
      have := hout p hp
      omega
    refine (if_neg hop).trans (c.word o ?_ hout)
    rcases h.layout.gap s hmem hse p hp with hle | hge
    · rcases h.layout.gap p hp hpe s hmem with hle' | hge'
      · exact absurd (Nat.le_antisymm hle' hle) hs
      · exact .inr (by omega)
    · exact .inl (by omega)
  · change (m'.setPoolPtr p m'.memUsed).next p < _
    rw [hnext p hp']
    exact c.tight
  · intro hmin hroomy s hmem hse
    change s + sizeofStructMem + minSizeAligned ≤ (m'.setPoolPtr p m'.memUsed).next s
    rw [hnext s hmem]
    by_cases hold : s ∈ items
    · by_cases hs : s = p
      · have hroom := c.room
        rw [hs]
        rw [sizeofStructMem]
        omega
      · rw [c.next s hold hs]
        exact hroomy s hold (c.region.heapEnd ▸ hse)
    · exact c.rest s hmem hold
  · change m'.used = add32 m.used ((m'.setPoolPtr p m'.memUsed).next p - p)
    rw [hnext p hp']
    exact c.used
  · exact c.max

theorem Settled.takeItem (h : Settled m items)
    (hserves : Serves m items size p) (hsize : size % 4 = 0) :
    ∃ m' items', takeItem m size p = some m' ∧ Served m m' items items' p size := by
  obtain ⟨hp, hfree, hroom⟩ := id hserves
  have hpe := hserves.ne_end h.layout
  obtain ⟨items', c⟩ := h.carve hp hpe hroom hsize
  simp only [Mem.takeItem]
  generalize (if sub32 (m.next p) (add32 p sizeofStructMem) ≥
      add32 (add32 size sizeofStructMem) minSizeAligned then
    Mem.charge (splitItem m p (add32 (add32 p sizeofStructMem) size)) (add32 size sizeofStructMem)
    else Mem.charge m (sub32 (m.next p) p)) = m₁ at c ⊢
  have hR' := h.region.congr c.region
  obtain ⟨-, hpool, -, hodd⟩ := status_spec hR'
  have hL := c.layout.setPoolPtr (v := m₁.memUsed) (c.subset hp) (c.region.heapEnd ▸ hpe) hpool
  have hlf : (m₁.setPoolPtr p m₁.memUsed).lfree = m.lfree := c.lfree
  have hself : (m₁.setPoolPtr p m₁.memUsed).memIsUsed p := setPoolPtr_isUsed_self.mpr hodd
  have hlep := h.lowest p hp hfree
  -- a free item other than `p` was free before, or is the one cut off behind `p`
  have hlow : ∀ s ∈ items', ¬ (m₁.setPoolPtr p m₁.memUsed).memIsUsed s → m.lfree ≤ s := by
    intro s hs hsf
    have hsp : s ≠ p := fun he => hsf (he.symm ▸ hself)
    by_cases hold : s ∈ items
    · rw [setPoolPtr_isUsed_ne hsp, c.isUsed_iff hold] at hsf
      exact h.lowest s hold hsf
    · have := (c.fresh s hs hold).2.1
      omega
  rw [hlf]
  by_cases hpl : p = m.lfree
  · rw [if_pos hpl]
    obtain ⟨l, hl, hmem, hlfree, hllow⟩ := hL.nextFree (loopFuel (m₁.setPoolPtr p m₁.memUsed))
      m.lfree (c.subset h.lfree_mem) (by rw [loopFuel]; omega)
    rw [hl]
    refine ⟨_, items', rfl, c.served h hserves hmem ?_ ?_⟩
    · exact c.region.heapEnd ▸ hlfree
    · intro s hs hsf
      exact hllow s hs (hlow s hs hsf) hsf
  · rw [if_neg hpl]
    refine ⟨_, items', rfl, ?_⟩
    have hne : m.lfree ≠ p := fun he => hpl he.symm
    have hserved := c.served (l := m.lfree) h hserves (c.subset h.lfree_mem) ?_ hlow
    · have hself' : ({ m₁.setPoolPtr p m₁.memUsed with lfree := m.lfree } : RtSmallMem) =
          m₁.setPoolPtr p m₁.memUsed := by rw [← hlf]
      rwa [hself'] at hserved
    · rw [setPoolPtr_isUsed_ne hne, c.isUsed_iff h.lfree_mem]
      exact h.lfree_free

/-- What a request that is granted the address `a` leaves behind. -/
structure Granted (m m' : RtSmallMem) (items items' : Set Nat) (size a p : Nat) : Prop where
  settled : Settled m' items'
  region : SameRegion m m'
  keeps : KeepsBlocks m m' items items' p
  block : Block m' items' a p
  /-- The item was no block before. -/
  new : ∀ b, ¬ Block m items b p
  room : p + 12 + size ≤ m'.next p

/-- The bytes that a request of `size` bytes takes. -/
def request (size : Nat) : Nat :=
  if rtAlign size < minSizeAligned then minSizeAligned else rtAlign size

theorem request_spec (size : Nat) :
    request size % 4 = 0 ∧ rtAlign size ≤ request size ∧ minSizeAligned ≤ request size := by
  have hal := rtAlign_eq size
  unfold request
  rw [minSizeAligned]
  split_ifs
  · omega
  · omega

/-- `rt_smem_alloc` returns: refused, with the heap as it was, when no free item serves the request,
or with the block of the first item that does. -/
theorem Settled.rtSmemAlloc_served (h : Settled m items) (size : UInt32) (hsize : size.toNat ≠ 0) :
    (rtSmemAlloc m size = some (m, 0) ∧ ∀ q, ¬ Serves m items (request size.toNat) q) ∨
      ∃ m' items' p, rtSmemAlloc m size = some (m', m.heapPtr + p + 12) ∧
        Served m m' items items' p (request size.toNat) ∧
        ∀ q, Serves m items (request size.toNat) q → p ≤ q := by
  have h1 := h.region.heapEnd
  obtain ⟨hn4, hal, hn12⟩ := request_spec size.toNat
  unfold Mem.rtSmemAlloc
  rw [if_neg hsize]
  simp only
  rw [← request]
  generalize request size.toNat = n at hn4 hal hn12 ⊢
  have hbelow : ∀ q, Serves m items n q → m.lfree ≤ q ∧ n ≤ m.memSizeAligned := by
    intro q hq
    have hend := h.layout.le_end _ (h.layout.next_mem q hq.1 (hq.ne_end h.layout)).1
    have hfit := hq.2.2
    exact ⟨h.lowest q hq.1 hq.2.1, by omega⟩
  by_cases hbig : n > m.memSizeAligned
  · rw [if_pos hbig]
    refine .inl ⟨rfl, fun q hq => ?_⟩
    have := (hbelow q hq).2
    omega
  rw [if_neg hbig]
  have hnle : n ≤ m.memSizeAligned := by omega
  rcases h.layout.findFit_first h.region hnle (loopFuel m) m.lfree h.lfree_mem
    (by rw [loopFuel]; omega) with ⟨hr, hnone⟩ | ⟨p, hr, hserves, -, hlow⟩
  · rw [hr]
    exact .inl ⟨rfl, fun q hq => hnone q (hbelow q hq).1 hq⟩
  · right
    rw [hr]
    obtain ⟨m', items', htake, t⟩ := h.takeItem hserves hn4
    have R' := t.settled.region
    have L' := t.settled.layout
    have hend := t.spares.region.heapEnd
    have hptr := t.spares.region.heapPtr
    have hpe' : p ≠ m'.heapEnd := hend ▸ hserves.ne_end h.layout
    have hnx := L'.le_end _ (L'.next_mem p t.mem hpe').1
    have hroom' := t.room
    have hfits' := R'.fits
    have ha : add32 (add32 m'.heapPtr p) sizeofStructMem = m'.heapPtr + p + 12 := by
      have : add32 m'.heapPtr p = m'.heapPtr + p := add32_eq (by omega)
      rw [this, sizeofStructMem, add32_eq (by omega)]
    refine ⟨m', items', p, ?_, t, fun q hq => hlow q (hbelow q hq).1 hq⟩
    have hlast : add32 (m'.heapPtr + p + 12) n = m'.heapPtr + p + 12 + n := add32_eq (by omega)
    have hheap : add32 m'.heapPtr m'.heapEnd = m'.heapPtr + m'.heapEnd := add32_eq (by omega)
    have haligned : (m'.heapPtr + p + 12) % rtAlignSize = 0 := by
      have h3 := R'.heapPtr
      have h4 := L'.aligned p t.mem
      rw [rtAlignSize]
      omega
    simp only [htake, ha, hlast, hheap]
    rw [← hptr]
    exact if_pos ⟨t.settled.lfree_free, by omega, haligned⟩

theorem Served.block
    (t : Served m m' items items' p size) (h : Settled m items) (hmin : minSizeAligned ≤ size) :
    Block m' items' (m.heapPtr + p + 12) p := by
  have hroom := t.room
  rw [minSizeAligned] at hmin
  exact ⟨t.spares.region.heapPtr ▸ rfl, t.mem, t.spares.region.heapEnd ▸ t.serves.ne_end h.layout,
    t.isUsed, by omega⟩

/-- `rt_smem_alloc` returns: either refused, with the heap as it was, or granted. -/
theorem Settled.rtSmemAlloc (h : Settled m items) (size : UInt32) :
    rtSmemAlloc m size = some (m, 0) ∨
      ∃ m' items' a p, rtSmemAlloc m size = some (m', a) ∧
        Granted m m' items items' (rtAlign size.toNat) a p := by
  by_cases hzero : size.toNat = 0
  · rw [Mem.rtSmemAlloc, if_pos hzero]
    exact .inl rfl
  obtain ⟨-, hal, hmin⟩ := request_spec size.toNat
  rcases h.rtSmemAlloc_served size hzero with ⟨hnone, -⟩ | ⟨m', items', p, heq, t, -⟩
  · exact .inl hnone
  · have hroom := t.room
    refine .inr ⟨m', items', _, p, heq, t.settled, t.spares.region, t.spares.keepsBlocks,
      t.block h hmin, fun b hb => t.serves.2.1 hb.used, by omega⟩

end RtKernel.Mem

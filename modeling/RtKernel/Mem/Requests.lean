import RtKernel.Mem.Accounts

/-!
# What a request is given

A request is served by the lowest free item that is large enough, although the
search starts at `lfree` and gives up at an offset. A block is resized in place
or moved with its data. What resizing does not do is to take the smallest size
of a block into account, and to keep a block that is only a little too large.
-/

open Option

namespace RtKernel.Mem

open RtSmallMem

/-- The bytes that an item has for data. -/
def capacity (m : RtSmallMem) (mem : Nat) : Nat := m.next mem - mem - sizeofStructMem

/-- A free item with room for `n` bytes. -/
def FreeItem (m : RtSmallMem) (n mem : Nat) : Prop :=
  Item m mem ∧ ¬ m.memIsUsed mem ∧ n ≤ capacity m mem

/-- What a request of `size` bytes is rounded up to. -/
def rounded (size : Nat) : Nat := max ((size + 3) / 4 * 4) minSizeAligned

theorem rounded_eq {size : Nat} (h : size ≤ 2 ^ 32 - 4) : request size = rounded size := by
  have hal := rtAlign_eq size
  unfold request rounded
  split_ifs
  · omega
  · omega

variable {items : Set Nat} {m : RtSmallMem}

theorem Layout.freeItem_iff (L : Layout m items) {n q : Nat} :
    FreeItem m n q ↔ Serves m items n q := by
  unfold FreeItem Serves capacity
  rw [L.item_iff, sizeofStructMem]
  constructor
  · rintro ⟨hq, hfree, hn⟩
    have hqe : q ≠ m.heapEnd := fun he => hfree (he ▸ L.end_used)
    have hnext := L.next_mem q hq hqe
    exact ⟨hq, hfree, by omega⟩
  · rintro ⟨hq, hfree, hn⟩
    exact ⟨hq, hfree, by omega⟩

namespace Client

variable {c c' : Client}

theorem blockSize_eq (R : Region c.heap) (L : Layout c.heap items) {a p : Nat}
    (b : Block c.heap items a p) : c.blockSize a = capacity c.heap p := by
  rw [blockSize, b.itemOf R L, capacity]

/-- A request within the range of the rounding is given the lowest free item with room for it,
aligned, inside the heap and apart from every live block, and refused exactly when there is none. -/
theorem reachable_alloc_lowest : ∀ c, Reachable Initial Step c → ∀ size : UInt32,
    1 ≤ size.toNat → size.toNat ≤ 2 ^ 32 - 4 →
      (rtSmemAlloc c.heap size = some (c.heap, 0) ∧
          ∀ q, ¬ FreeItem c.heap (rounded size.toNat) q) ∨
        ∃ m p, rtSmemAlloc c.heap size = some (m, c.heap.heapPtr + p + sizeofStructMem) ∧
          c.heap.heapPtr + p + sizeofStructMem ≠ 0 ∧
          FreeItem c.heap (rounded size.toNat) p ∧
          (∀ q, FreeItem c.heap (rounded size.toNat) q → p ≤ q) ∧
          rounded size.toNat ≤ capacity m p ∧
          (c.heap.heapPtr + p + sizeofStructMem) % 4 = 0 ∧
          p + sizeofStructMem + capacity m p ≤ c.heap.heapEnd ∧
          ∀ a ∈ c.live, a + c.blockSize a ≤ c.heap.heapPtr + p + sizeofStructMem ∨
            c.heap.heapPtr + p + sizeofStructMem + capacity m p ≤ a := by
  intro c h size hpos hmax
  obtain ⟨items, hinv⟩ := reachable_inv h
  have L := hinv.settled.layout
  have hptr := hinv.settled.region.heapPtr
  simp only [L.freeItem_iff, ← rounded_eq hmax]
  rcases hinv.settled.rtSmemAlloc_served size (by omega) with
    ⟨hnull, hnone⟩ | ⟨m', items', p, halloc, t, hlow⟩
  · exact .inl ⟨hnull, hnone⟩
  · right
    have L' := t.settled.layout
    have hpe : p ≠ c.heap.heapEnd := t.serves.ne_end L
    have hp4 := L.aligned p t.serves.1
    have hroom := t.room
    have hn' := L'.next_mem p t.mem (t.spares.region.heapEnd ▸ hpe)
    have hend := L'.le_end _ hn'.1
    rw [t.spares.region.heapEnd] at hend
    refine ⟨m', p, halloc, ?_, t.serves, hlow, ?_, ?_, ?_, ?_⟩
    · rw [sizeofStructMem]
      omega
    · rw [capacity, sizeofStructMem]
      omega
    · rw [sizeofStructMem]
      omega
    · rw [capacity, sizeofStructMem]
      omega
    · intro a ha
      obtain ⟨s, b⟩ := hinv.blocks a ha
      have hsp : s ≠ p := fun he => t.serves.2.1 (he ▸ b.used)
      have haddr := b.addr
      have hnext := L.next_mem s b.mem b.ne_end
      obtain ⟨b', -⟩ := t.spares.keepsBlocks a s hsp b
      rw [blockSize_eq hinv.settled.region L b, capacity, capacity, sizeofStructMem]
      rcases L.gap s b.mem b.ne_end p t.serves.1 with hle | hge
      · rcases L'.gap p t.mem (t.spares.region.heapEnd ▸ hpe) s b'.mem with hle' | hge'
        · omega
        · exact .inr (by omega)
      · exact .inl (by omega)

/-- Between two live blocks, of which the first was given back, a small request takes the gap. -/
theorem reachable_alloc_lowest_gap :
    ∃ c m, runFrom 0x20000000 1024 [.alloc 100, .alloc 30, .free 0x20000044] = some c ∧
      rtSmemAlloc c.heap 40 = some (m, 0x20000044) ∧ FreeItem c.heap (rounded 40) 0 := by
  obtain ⟨c, hc, hptr, r, halloc, ha⟩ :
      ∃ c ∈ runFrom 0x20000000 1024 [.alloc 100, .alloc 30, .free 0x20000044],
        c.heap.heapPtr = 0x20000038 ∧ ∃ r ∈ rtSmemAlloc c.heap 40, r.2 = 0x20000044 := by
    decide +kernel
  refine ⟨c, r.1, hc, by rw [halloc, ← ha], ?_⟩
  rcases reachable_alloc_lowest c (reachable_runFrom hc) 40 (by decide) (by decide) with
    ⟨hnull, -⟩ | ⟨m, p, hm, -, hfree, -⟩
  · rw [halloc] at hnull
    have := congrArg Prod.snd (Option.some.inj hnull)
    rw [ha] at this
    cases this
  · rw [halloc] at hm
    have hp := congrArg Prod.snd (Option.some.inj hm)
    rw [ha, hptr, sizeofStructMem] at hp
    have hp0 : p = 0 := by
      simp only at hp
      omega
    exact hp0 ▸ hfree

end Client

/-- Every data block is at least `MIN_SIZE_ALIGNED` long. -/
def MinSized (m : RtSmallMem) : Prop :=
  ∀ mem, Item m mem → mem ≠ m.heapEnd → minSizeAligned ≤ capacity m mem

theorem Layout.minSized_iff (L : Layout m items) : MinSized m ↔ Roomy m items := by
  unfold MinSized Roomy capacity
  rw [sizeofStructMem, minSizeAligned]
  constructor
  · intro h s hs hse
    have := h s ((L.item_iff s).mpr hs) hse
    omega
  · intro h s hs hse
    have := h s ((L.item_iff s).mp hs) hse
    omega

section

variable {m m' : RtSmallMem} {items' : Set Nat} {p size : Nat}

/-- Items that only vanish leave larger ones behind. -/
theorem Released.roomy (r : Released m m' items items' p) (h : Settled m items)
    (hr : Roomy m items) : Roomy m' items' := by
  intro s hs hse
  have hn := r.settled.layout.next_mem s hs hse
  rw [r.spares.region.heapEnd] at hse
  have hroom := hr s (r.subset hs) hse
  rcases h.layout.gap s (r.subset hs) hse _ (r.subset hn.1) with hle | hge
  · omega
  · omega

theorem Shrunk.roomy (r : Shrunk m m' items items' p size) (h : Settled m items)
    (hp : p ∈ items) (hpe : p ≠ m.heapEnd) (hcut : p + 12 + size + 24 < m.next p)
    (hmin : minSizeAligned ≤ size) (hr : Roomy m items) : Roomy m' items' := by
  have L' := r.settled.layout
  have hheap := r.spares.region.heapEnd
  intro s hs hse
  have hn := L'.next_mem s hs hse
  by_cases hsp : s = p
  · rw [hsp, r.next, sizeofStructMem]
    omega
  -- only `p` is followed by the item that was cut off
  have hnew : m'.next s ≠ p + 12 + size := by
    intro he
    exact hsp (L'.next_inj hs r.mem hse (hheap ▸ hpe) (he.trans r.next.symm))
  have hnext := (Set.mem_insert_iff.mp (r.subset hn.1)).resolve_left hnew
  rw [sizeofStructMem, minSizeAligned]
  rcases Set.mem_insert_iff.mp (r.subset hs) with rfl | hold
  · rcases h.layout.gap p hp hpe _ hnext with hle | hge
    · omega
    · omega
  · have hroom := hr s hold (hheap ▸ hse)
    rw [sizeofStructMem, minSizeAligned] at hroom
    rcases h.layout.gap s hold (hheap ▸ hse) _ hnext with hle | hge
    · omega
    · omega

theorem DataWritten.roomy (d : DataWritten m m' p) (h : Settled m items) (hp : p ∈ items)
    (hpe : p ≠ m.heapEnd) (hr : Roomy m items) : Roomy m' items := by
  intro s hs hse
  rw [(d.header h.layout hp hpe hs).2.1]
  exact hr s hs (d.region.heapEnd ▸ hse)

end

namespace Client

variable {c c' : Client} {rmem : Nat}

/-- No live block is cut down to less than the smallest size. -/
def Careful (c : Client) : Call → Prop
  | .realloc rmem newsize => rmem ∈ c.live → rtAlign newsize.toNat = 0 ∨
      minSizeAligned ≤ rtAlign newsize.toNat ∨
      c.blockSize rmem ≤ rtAlign newsize.toNat + sizeofStructMem + minSize
  | _ => True

instance (c : Client) (call : Call) : Decidable (c.Careful call) :=
  match call with
  | .realloc _ _ => inferInstanceAs (Decidable (_ → _))
  | .alloc _ => .isTrue trivial
  | .free _ => .isTrue trivial
  | .store _ _ _ => .isTrue trivial

/-- A new heap whose one item has the smallest size of a block at least. -/
def InitialMin (c : Client) : Prop := c.Initial ∧ MinSized c.heap

theorem Inv.alloc_roomy (h : c.Inv items) (hr : Roomy c.heap items) {size : UInt32}
    (hexec : c.exec (.alloc size) = some c') : MinSized c'.heap := by
  have hsame := h.settled.layout.minSized_iff.mpr hr
  by_cases hzero : size.toNat = 0
  · rw [Client.exec, rtSmemAlloc, if_pos hzero, map_some] at hexec
    cases hexec
    exact hsame
  · rcases h.settled.rtSmemAlloc_served size hzero with ⟨hnull, -⟩ | ⟨m', items', p, halloc, t, -⟩
    · rw [Client.exec, hnull, map_some] at hexec
      cases hexec
      exact hsame
    · rw [Client.exec, halloc, map_some] at hexec
      cases hexec
      exact t.settled.layout.minSized_iff.mpr (t.roomy (request_spec size.toNat).2.2 hr)

/-- A heap as it was is left by `rt_smem_realloc` of `RT_NULL`, or one that `rt_smem_alloc` leaves. -/
theorem exec_realloc_null (newsize : UInt32) (hexec : c.exec (.realloc 0 newsize) = some c') :
    c'.heap = c.heap ∨ ∃ size c'', c.exec (.alloc size) = some c'' ∧ c'.heap = c''.heap := by
  rcases rtSmemRealloc_null (m := c.heap) newsize with hnull | hnull
  · rw [exec, hnull, map_some] at hexec
    cases hexec
    left
    split_ifs <;> rfl
  · right
    rw [exec, hnull] at hexec
    obtain ⟨r, hr, rfl⟩ := map_eq_some_iff.mp hexec
    refine ⟨_, _, by rw [exec, hr]; rfl, ?_⟩
    split_ifs <;> rfl

theorem Inv.free_roomy (h : c.Inv items) (hr : Roomy c.heap items)
    (hown : c.Owns rmem) (hexec : c.exec (.free rmem) = some c') : MinSized c'.heap := by
  rcases hown with rfl | hlive
  · rw [Client.exec, rtSmemFree, if_pos rfl, map_some] at hexec
    cases hexec
    exact h.settled.layout.minSized_iff.mpr hr
  · obtain ⟨p, b⟩ := h.blocks rmem hlive
    obtain ⟨m', items', hfree, r⟩ := h.settled.rtSmemFree_released h.addr b
    rw [Client.exec, hfree, map_some] at hexec
    cases hexec
    exact r.settled.layout.minSized_iff.mpr (r.roomy h.settled hr)

/-- Of a live block, the smallest size is kept exactly where it is taken into account. -/
theorem Inv.realloc_roomy (h : c.Inv items) (hr : Roomy c.heap items)
    (hown : c.Owns rmem) {newsize : UInt32} (hexec : c.exec (.realloc rmem newsize) = some c') :
    MinSized c'.heap ↔ c.Careful (.realloc rmem newsize) := by
  have hsame := h.settled.layout.minSized_iff.mpr hr
  rcases hown with rfl | hlive
  · have hcareful : c.Careful (.realloc 0 newsize) := fun hl => absurd rfl (h.ne_zero hl)
    refine iff_of_true ?_ hcareful
    rcases exec_realloc_null newsize hexec with heap | ⟨size, c'', halloc, heap⟩
    · exact heap ▸ hsame
    · exact heap ▸ h.alloc_roomy hr halloc
  · obtain ⟨p, b⟩ := h.blocks rmem hlive
    obtain ⟨r, hrealloc, hcase⟩ := h.settled.rtSmemRealloc_cases h.addr b newsize
    have hsize := blockSize_eq h.settled.region h.settled.layout b
    have hroom := hr p b.mem b.ne_end
    rw [Client.exec, hrealloc, map_some] at hexec
    have hheap : c'.heap = r.1 := by
      cases hexec
      split_ifs <;> rfl
    rw [hheap]
    unfold Careful
    dsimp only
    rw [hsize, capacity, minSize, minSizeAligned, sizeofStructMem]
    rw [minSizeAligned, sizeofStructMem] at hroom
    cases hcase with
    | tooLarge hbig =>
      have h1 := h.settled.region.heapEnd
      have h2 := h.settled.layout.le_end _ (h.settled.layout.next_mem p b.mem b.ne_end).1
      exact iff_of_true hsame fun _ => .inr (.inl (by omega))
    | @freed m' items' hzero r =>
      exact iff_of_true (r.settled.layout.minSized_iff.mpr (r.roomy h.settled hr)) fun _ => .inl hzero
    | same _ hsize' => exact iff_of_true hsame fun _ => .inr (.inl (by omega))
    | @shrunk m' items' hpos hcut r =>
      by_cases hmin : minSizeAligned ≤ rtAlign newsize.toNat
      · refine iff_of_true ?_ fun _ => .inr (.inl hmin)
        exact r.settled.layout.minSized_iff.mpr
          (r.roomy h.settled b.mem b.ne_end hcut hmin hr)
      · rw [minSizeAligned] at hmin
        refine iff_of_false ?_ ?_
        · rw [r.settled.layout.minSized_iff]
          intro hr'
          have := hr' p r.mem (r.spares.region.heapEnd ▸ b.ne_end)
          rw [r.next, sizeofStructMem, minSizeAligned] at this
          omega
        · intro hcareful
          rcases hcareful hlive with hzero | hge | hle
          all_goals omega
    | refused _ _ hcut _ => exact iff_of_true hsame fun _ => .inr (.inr (by omega))
    | @moved m₁ m' items₁ items' q _ _ hcut t d r =>
      refine iff_of_true ?_ fun _ => .inr (.inr (by omega))
      have hqe : q ≠ m₁.heapEnd := t.spares.region.heapEnd ▸ t.serves.ne_end h.settled.layout
      have hr₁ := t.roomy (request_spec (rtAlign newsize.toNat)).2.2 hr
      have hr₂ := d.roomy t.settled t.mem hqe hr₁
      have hset := d.settled t.settled t.mem hqe
      exact r.settled.layout.minSized_iff.mpr (r.roomy hset hr₂)

/-- After a legal call the smallest size is kept exactly where the call was careful. -/
theorem Inv.minSized_iff (h : c.Inv items) (hr : Roomy c.heap items) {call : Call}
    (hlegal : c.Legal call) (hexec : c.exec call = some c') :
    MinSized c'.heap ↔ c.Careful call := by
  cases call with
  | alloc size => exact iff_of_true (h.alloc_roomy hr hexec) trivial
  | realloc rmem newsize => exact h.realloc_roomy hr hlegal hexec
  | free rmem => exact iff_of_true (h.free_roomy hr hlegal hexec) trivial
  | store rmem k v =>
    refine iff_of_true ?_ trivial
    obtain ⟨hlive, hin⟩ := hlegal
    obtain ⟨p, b⟩ := h.blocks rmem hlive
    rw [blockSize, b.itemOf h.settled.region h.settled.layout, sizeofStructMem] at hin
    have d : DataWritten c.heap (c.heap.setWord (p + 12 + 4 * k) v) p :=
      .setWord (by omega) (by omega)
    rw [Client.exec, b.itemOf h.settled.region h.settled.layout, sizeofStructMem] at hexec
    cases hexec
    exact (d.settled h.settled b.mem b.ne_end).layout.minSized_iff.mpr
      (d.roomy h.settled b.mem b.ne_end hr)

/-- In every run of careful calls each data block has the smallest size, and the first call that is
not careful leaves one that is smaller. -/
theorem reachable_minSized : ∀ c, Reachable InitialMin
    (Within (fun c call c' => c.exec call = some c') fun c call => c.Legal call ∧ c.Careful call) c →
      MinSized c.heap ∧ ∀ call c', c.Legal call → c.exec call = some c' →
        (MinSized c'.heap ↔ c.Careful call) := by
  intro c h
  have hinv : ∃ items, c.Inv items ∧ Roomy c.heap items := by
    refine h.invariant (I := fun c => ∃ items, c.Inv items ∧ Roomy c.heap items) ?_ ?_
    · intro c ⟨h₀, hmin⟩
      exact ⟨_, h₀.inv, h₀.inv.settled.layout.minSized_iff.mp hmin⟩
    · rintro c call c' - ⟨items, hinv, hr⟩ ⟨⟨hlegal, hcareful⟩, hexec⟩
      obtain ⟨c'', items', hc'', hinv'⟩ := hinv.exec hlegal
      rw [hexec] at hc''
      cases hc''
      have hmin := (hinv.minSized_iff hr hlegal hexec).mpr hcareful
      exact ⟨items', hinv', hinv'.settled.layout.minSized_iff.mp hmin⟩
  obtain ⟨items, hinv, hr⟩ := hinv
  refine ⟨hinv.settled.layout.minSized_iff.mpr hr, fun call c' hlegal hexec => ?_⟩
  exact hinv.minSized_iff hr hlegal hexec

theorem Initial.minSized (h : c.Initial) (hmin : minSizeAligned ≤ c.heap.memSizeAligned) :
    c.InitialMin := by
  refine ⟨h, h.inv.settled.layout.minSized_iff.mpr ?_⟩
  have hend := h.inv.settled.region.heapEnd
  obtain ⟨-, -, word, beginAddr, size, hinit⟩ := h
  obtain ⟨-, -, -, hnext, -⟩ := rtSmemInit_region hinit
  rw [minSizeAligned] at hmin
  rintro s (rfl | rfl) hse
  · rw [hnext, sizeofStructMem, minSizeAligned]
    omega
  · exact absurd rfl hse

/-- A careful run: a block shrunk to 20 bytes. -/
theorem reachable_minSized_shrunk :
    ∃ m c, rtSmemInit (fun _ => 0) 0x20000000 1024 = some m ∧
      runWithin exec (fun c call => c.Legal call ∧ c.Careful call) ⟨m, []⟩
        [.alloc 100, .alloc 30, .realloc 0x20000044 20] = some c ∧ MinSized c.heap := by
  obtain ⟨m, hm, haddr, hsize, c, hc, -⟩ : ∃ m ∈ rtSmemInit (fun _ => 0) 0x20000000 1024,
      m.addr = 0x20000000 ∧ m.memSizeAligned = 944 ∧
        ∃ c ∈ runWithin exec (fun c call => c.Legal call ∧ c.Careful call) ⟨m, []⟩
          [.alloc 100, .alloc 30, .realloc 0x20000044 20], True := by
    decide +kernel
  have hinit : Initial ⟨m, []⟩ := ⟨rfl, by simp only [haddr]; decide, _, _, _, hm⟩
  have hmin : InitialMin ⟨m, []⟩ := hinit.minSized (by simp only [hsize]; decide)
  exact ⟨m, c, hm, hc, (reachable_minSized c (Reachable.runWithin (Reachable.start hmin) hc)).1⟩

/-- A block cut down to four bytes. -/
theorem minSized_broken : ∃ c, Reachable InitialMin Step c ∧ ¬ MinSized c.heap := by
  obtain ⟨m, hm, haddr, hsize, c, hc, hend, hcap⟩ : ∃ m ∈ rtSmemInit (fun _ => 0) 0x20000000 1024,
      m.addr = 0x20000000 ∧ m.memSizeAligned = 944 ∧
        ∃ c ∈ runWithin exec Legal ⟨m, []⟩ [.alloc 100, .realloc 0x20000044 4],
          c.heap.heapEnd = 956 ∧ capacity c.heap 0 = 4 := by
    decide +kernel
  have hinit : Initial ⟨m, []⟩ := ⟨rfl, by simp only [haddr]; decide, _, _, _, hm⟩
  have hmin : InitialMin ⟨m, []⟩ := hinit.minSized (by simp only [hsize]; decide)
  refine ⟨c, Reachable.runWithin (Reachable.start hmin) hc, fun h => ?_⟩
  have := h 0 .first (by omega)
  rw [hcap, minSizeAligned] at this
  omega

end Client

/-- Word `k` of the block at the address `a`. -/
def dataWord (m : RtSmallMem) (a k : Nat) : Nat :=
  m.word (itemOf m a + sizeofStructMem + 4 * k)

/-- The block at `a` is in use with its size and its data. -/
structure BlockKept (m m' : RtSmallMem) (a : Nat) : Prop where
  item : Item m' (itemOf m a)
  isUsed : m'.memIsUsed (itemOf m a)
  size : capacity m' (itemOf m a) = capacity m (itemOf m a)
  data : ∀ k, 4 * k < capacity m (itemOf m a) → dataWord m' a k = dataWord m a k

theorem itemOf_congr {m m' : RtSmallMem} (h : SameRegion m m') (a : Nat) :
    itemOf m' a = itemOf m a := by
  rw [itemOf, itemOf, h.heapPtr]

theorem BlockKept.trans {m m' m'' : RtSmallMem} {a : Nat} (hr : SameRegion m m')
    (h : BlockKept m m' a) (h' : BlockKept m' m'' a) : BlockKept m m'' a where
  item := itemOf_congr hr a ▸ h'.item
  isUsed := itemOf_congr hr a ▸ h'.isUsed
  size := by
    rw [← h.size, ← itemOf_congr hr a]
    exact h'.size
  data k hk := by
    have hk' : 4 * k < capacity m' (itemOf m' a) := by
      rw [itemOf_congr hr, h.size]
      exact hk
    exact (h'.data k hk').trans (h.data k hk)

theorem Spares.blockKept {m m' : RtSmallMem} {items items' : Set Nat} {a s p : Nat}
    (h : Spares m m' items items' p) (R : Region m) (L : Layout m items) (L' : Layout m' items')
    (b : Block m items a s) (hs : s ≠ p) : BlockKept m m' a := by
  have hitem := b.itemOf R L
  obtain ⟨hmem, hu⟩ := (h.used_iff s hs).mpr ⟨b.mem, b.used⟩
  have hnext := h.next s hs b.mem b.ne_end b.used
  refine ⟨?_, ?_, ?_, fun k hk => ?_⟩
  · rw [hitem]
    exact (L'.item_iff s).mpr hmem
  · rw [hitem]
    exact hu
  · rw [hitem, Mem.capacity, Mem.capacity, hnext]
  · rw [hitem, Mem.capacity, sizeofStructMem] at hk
    rw [dataWord, dataWord, itemOf_congr h.region, hitem, sizeofStructMem]
    exact h.data s hs b.mem b.ne_end b.used _ (by omega) (by omega)

theorem ReallocCase.blockKept {rmem p size a s : Nat}
    {r : RtSmallMem × Nat} (h : Settled m items) (hcase : ReallocCase m items rmem p size r)
    (b' : Block m items a s) (hsp : s ≠ p) : BlockKept m r.1 a := by
  have R := h.region
  have L := h.layout
  have hsame := (Spares.refl m items p).blockKept R L L b' hsp
  cases hcase with
  | tooLarge | same | refused => exact hsame
  | freed _ r | shrunk _ _ r => exact r.spares.blockKept R L r.settled.layout b' hsp
  | @moved m₁ m' items₁ items' q _ _ _ t d r =>
    have hqe : q ≠ m₁.heapEnd := t.spares.region.heapEnd ▸ t.serves.ne_end L
    have hspares := t.spares.trans (d.spares t.settled.layout t.mem hqe)
    have hsettled := d.settled t.settled t.mem hqe
    have hsq : s ≠ q := fun he => t.serves.2.1 (he ▸ b'.used)
    have hkept := hspares.blockKept R L hsettled.layout b' hsq
    obtain ⟨b₂, -⟩ := hspares.keepsBlocks a s hsq b'
    exact hkept.trans hspares.region
      (r.spares.blockKept hsettled.region hsettled.layout r.settled.layout b₂ hsp)

namespace Client

/-- `rt_smem_realloc` of the block at `rmem` keeps what it has to keep: the data of the block up to
the smaller of the two sizes, the other live blocks, and the heap where it fails, which it does not
when the block is large enough already. -/
def KeepsData (c : Client) (rmem : Nat) (newsize : UInt32) : Prop :=
  ∃ m' a', rtSmemRealloc c.heap rmem newsize = some (m', a') ∧
    (a' ≠ 0 → ∀ k, 4 * k < min (c.blockSize rmem) newsize.toNat →
      dataWord m' a' k = dataWord c.heap rmem k) ∧
    (∀ a ∈ c.live, a ≠ rmem → BlockKept c.heap m' a) ∧
    (a' = 0 → m' = c.heap) ∧
    (rtAlign newsize.toNat ≤ c.blockSize rmem → a' ≠ 0)

/-- The rounding does not wrap around, and where the block is too large to stay and too small to be
split, some free item has room for the request. -/
def InPlaceOrRoom (c : Client) (rmem : Nat) (newsize : UInt32) : Prop :=
  newsize.toNat ≤ 2 ^ 32 - 4 ∧
    (rtAlign newsize.toNat < c.blockSize rmem →
      c.blockSize rmem ≤ rtAlign newsize.toNat + sizeofStructMem + minSize →
        ∃ q, FreeItem c.heap (rounded newsize.toNat) q)

theorem rounded_aligned {size : Nat} (h : size ≤ 2 ^ 32 - 4) :
    request (rtAlign size) = rounded size := by
  have hal := rtAlign_eq size
  rw [rounded_eq (by omega), rounded, rounded]
  omega

/-- Resizing a live block keeps what it has to exactly where the rounding does not wrap around and the
block is not left without a place between staying and being split. -/
theorem reachable_keepsData : ∀ c, Reachable Initial Step c → ∀ rmem ∈ c.live,
    ∀ newsize : UInt32, 0 < newsize.toNat →
      (c.KeepsData rmem newsize ↔ c.InPlaceOrRoom rmem newsize) := by
  intro c h rmem hlive newsize hnew
  obtain ⟨items, hinv⟩ := reachable_inv h
  obtain ⟨p, b⟩ := hinv.blocks rmem hlive
  have R := hinv.settled.region
  have L := hinv.settled.layout
  obtain ⟨r, hrealloc, hcase⟩ := hinv.settled.rtSmemRealloc_cases hinv.addr b newsize
  have hlt := newsize.toNat_lt
  have hal := rtAlign_eq newsize.toNat
  have hpos := hinv.ne_zero hlive
  have haddr := b.addr
  have hsize := blockSize_eq R L b
  have hitem := b.itemOf R L
  have hn := L.next_mem p b.mem b.ne_end
  have hle := L.le_end _ hn.1
  have hend := R.heapEnd
  have hothers : ∀ a ∈ c.live, a ≠ rmem → BlockKept c.heap r.1 a := by
    intro a ha hne
    obtain ⟨s, b'⟩ := hinv.blocks a ha
    refine hcase.blockKept hinv.settled b' fun he => hne ?_
    rw [b'.addr, he, haddr]
  unfold KeepsData InPlaceOrRoom
  rw [hsize, capacity, sizeofStructMem, minSize]
  constructor
  · rintro ⟨m', a', hr, -, -, hnull, hfit⟩
    rw [hr] at hrealloc
    cases hrealloc
    have hmax : newsize.toNat ≤ 2 ^ 32 - 4 := by
      by_contra hbig
      have hzero : rtAlign newsize.toNat = 0 := by omega
      generalize rtAlign newsize.toNat = size at hcase hzero
      subst hzero
      cases hcase with
      | tooLarge hbig' => omega
      | same hpos' _ => omega
      | shrunk hpos' _ _ => omega
      | refused hpos' _ _ _ => omega
      | moved hpos' _ _ _ _ _ => omega
      | @freed m' items' _ r =>
        -- the block was given back
        have hsame := hnull rfl
        subst hsame
        obtain rfl := L.unique r.settled.layout
        exact r.freed b.mem b.used
    refine ⟨hmax, fun hlt' hband => ?_⟩
    have ha' := hfit (by omega)
    simp only [L.freeItem_iff, ← rounded_aligned hmax]
    generalize rtAlign newsize.toNat = size at *
    cases hcase with
    | tooLarge hbig | freed hzero _ | refused _ _ _ _ => exact absurd rfl ha'
    | same _ hsame => omega
    | shrunk _ hcut _ => omega
    | @moved m₁ _ items₁ _ q _ _ _ t _ _ => exact ⟨q, t.serves⟩
  · rintro ⟨hmax, hroom⟩
    simp only [L.freeItem_iff, ← rounded_aligned hmax] at hroom
    refine ⟨r.1, r.2, hrealloc, ?_⟩
    generalize rtAlign newsize.toNat = size at *
    cases hcase with
    | tooLarge hbig => exact ⟨fun h0 => absurd rfl h0, hothers, fun _ => rfl, fun _ => by omega⟩
    | freed hzero _ => omega
    | same _ _ => exact ⟨fun _ _ _ => rfl, hothers, fun h0 => absurd h0 hpos, fun _ => hpos⟩
    | @shrunk m' items' _ hcut r =>
      refine ⟨fun _ k hk => ?_, hothers, fun h0 => absurd h0 hpos, fun _ => hpos⟩
      rw [dataWord, dataWord, itemOf_congr r.spares.region, hitem, sizeofStructMem]
      exact r.data _ (by omega) (by omega)
    | refused _ hne hcut hnone =>
      refine ⟨fun h0 => absurd rfl h0, hothers, fun _ => rfl, fun hfit => ?_⟩
      obtain ⟨q, hq⟩ := hroom (by omega) (by omega)
      exact absurd hq (hnone q)
    | @moved m₁ m' items₁ items' q hpos' hne hcut t d r =>
      have ha' : c.heap.heapPtr + q + 12 ≠ 0 := by omega
      have hqp : p ≠ q := fun he => t.serves.2.1 (he ▸ b.used)
      have hqe : q ≠ m₁.heapEnd := t.spares.region.heapEnd ▸ t.serves.ne_end L
      have L₂ := (d.settled t.settled t.mem hqe).layout
      have R₂ := (d.settled t.settled t.mem hqe).region
      obtain ⟨b₁, -⟩ := t.spares.keepsBlocks rmem p hqp b
      refine ⟨fun _ k hk => ?_, hothers, fun h0 => absurd h0 ha', fun _ => ha'⟩
      have hq := t.block hinv.settled (request_spec size).2.2
      have hq₂ := d.block t.settled.layout t.mem hqe hq
      have hroom' := t.room
      have hreq := (request_spec size).2.1
      rw [rtAlign_eq] at hreq
      have hnext₂ := (d.header t.settled.layout t.mem hqe t.mem).2.1
      have h4 := L.aligned p b.mem
      have h4' := L.aligned _ hn.1
      rw [dataWord, dataWord, itemOf_congr r.spares.region, hq₂.itemOf R₂ L₂, hitem,
        sizeofStructMem]
      rw [r.spares.data q hqp.symm t.mem hq₂.ne_end hq₂.used _ (by omega) (by omega)]
      -- the two blocks do not overlap
      have hapart : p + 12 + 4 * (min (c.heap.next p - p - 12) size / 4) ≤ q + 12 ∨
          q + 12 + 4 * (min (c.heap.next p - p - 12) size / 4) ≤ p + 12 := by
        rcases t.settled.layout.gap q t.mem hqe p b₁.mem with hle' | hge'
        · rcases L.gap p b.mem b.ne_end q t.serves.1 with hle'' | hge''
          · omega
          · exact .inl (by omega)
        · exact .inr (by omega)
      rw [copyWords_copied hapart (by omega)]
      exact t.spares.data p hqp b.mem b.ne_end b.used _ (by omega) (by omega)

/-- A block that grows is moved with its data. -/
theorem reachable_keepsData_grown :
    ∃ c, runFrom 0x20000000 1024 [.alloc 100, .alloc 30] = some c ∧ c.KeepsData 0x20000044 200 := by
  obtain ⟨c, hc, hlive, hsize⟩ : ∃ c ∈ runFrom 0x20000000 1024 [.alloc 100, .alloc 30],
      c.live = [0x200000b4, 0x20000044] ∧ c.blockSize 0x20000044 = 100 := by decide +kernel
  have hmem : 0x20000044 ∈ c.live := by
    rw [hlive]
    decide
  refine ⟨c, hc, (reachable_keepsData c (reachable_runFrom hc) _ hmem 200 (by decide)).mpr ?_⟩
  refine ⟨by decide, fun hlt _ => ?_⟩
  rw [hsize] at hlt
  exact absurd hlt (by decide)

/-- In a full heap a block of 100 bytes is not cut down to 90. -/
theorem keepsData_broken : ∃ c, Reachable Initial Step c ∧ 0x20000044 ∈ c.live ∧
    c.blockSize 0x20000044 = 100 ∧ ¬ c.KeepsData 0x20000044 90 := by
  obtain ⟨c, hc, hlive, hsize, r, hrealloc, hnull⟩ :
      ∃ c ∈ runFrom 0x20000000 1024 [.alloc 100, .alloc 832], c.live = [0x200000b4, 0x20000044] ∧
        c.blockSize 0x20000044 = 100 ∧ ∃ r ∈ rtSmemRealloc c.heap 0x20000044 90, r.2 = 0 := by
    decide +kernel
  refine ⟨c, reachable_runFrom hc, ?_, hsize, ?_⟩
  · rw [hlive]
    decide
  · rintro ⟨m', a', hr', -, -, -, hfit⟩
    rw [hrealloc] at hr'
    have ha : r.2 = a' := congrArg Prod.snd (Option.some.inj hr')
    refine hfit ?_ (ha.symm.trans hnull)
    rw [hsize]
    decide

end Client

end RtKernel.Mem

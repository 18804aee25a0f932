import Mathlib.Tactic.IntervalCases
import RtKernel.Mem.SystemHeap

/-!
# Aligned blocks

`rt_malloc_align` takes a block that is one alignment larger, and keeps its address in the word
below the address that it hands out. The owner writes from there on, so that `rt_free_align` finds
the address again.
-/

namespace RtKernel.Mem

open RtSmallMem Option

/-- `rt_free_align`. -/
def rtFreeAlign (m : RtSmallMem) (ptr : Nat) : Option RtSmallMem :=
  if ptr = 0 then some m else rtSmemFree m (m.word (sub32 (sub32 ptr 4) m.heapPtr))

/-- Of a power of two the alignment is a power of two that it divides. -/
theorem rtAlign_two_pow {k : Nat} (hk : 2 ^ k < 2 ^ 32 - 8) :
    ∃ j, rtAlign (2 ^ k) = 2 ^ j ∧ 2 ≤ j ∧ k ≤ j ∧ j < 32 := by
  have hlt : k < 32 := (Nat.pow_lt_pow_iff_right (by decide)).mp (hk.trans (by decide))
  rcases Nat.lt_or_ge k 2 with hsmall | hlarge
  · refine ⟨2, ?_, le_rfl, hsmall.le, by decide⟩
    interval_cases k <;> decide
  · refine ⟨k, ?_, hlarge, le_rfl, hlt⟩
    have hpow : 2 ^ k = 4 * 2 ^ (k - 2) := by
      rw [show (4 : Nat) = 2 ^ 2 from rfl, ← pow_add, Nat.add_sub_cancel' hlarge]
    rw [rtAlign_eq, hpow]
    omega

theorem alignPtr_mod {x j : Nat} (hj : j < 32) (hsum : x + 2 ^ j < 2 ^ 32) :
    alignPtr x (2 ^ j) % 2 ^ j = 0 := by
  have hpos : 0 < 2 ^ j := Nat.two_pow_pos j
  have hlt : 2 ^ j < 2 ^ 32 := Nat.pow_lt_pow_right (by decide) hj
  have hmask : sub32 (2 ^ j) 1 = 2 ^ j - 1 := sub32_eq (by omega) hlt
  unfold alignPtr
  rw [hmask]
  split_ifs with hzero
  · rw [Nat.and_two_pow_sub_one_eq_mod] at hzero
    rw [add32_eq hsum, Nat.add_mod_right, hzero]
  · have hclear := and_not32_and (add32 x (2 ^ j - 1)) (show 2 ^ j - 1 < 2 ^ 32 by omega)
    rwa [Nat.and_two_pow_sub_one_eq_mod] at hclear

variable {r : RtSmallMem × Nat}

theorem ReallocCase.heapPtr {m : RtSmallMem} {items : Set Nat} {rmem p size : Nat}
    (hcase : ReallocCase m items rmem p size r) : r.1.heapPtr = m.heapPtr := by
  cases hcase with
  | tooLarge | same | refused => rfl
  | freed _ r | shrunk _ _ r => exact r.spares.region.heapPtr
  | moved _ _ _ t d r =>
    exact r.spares.region.heapPtr.trans (d.region.heapPtr.trans t.spares.region.heapPtr)

namespace Client

variable {c c' : Client} {items : Set Nat} {a p k : Nat}

/-- The block at `a` is not given back or resized, and its owner writes into it only from the
address `p` on. -/
def Leaves (a p : Nat) (_ : Client) : Call → Prop
  | .alloc _ => True
  | .realloc rmem _ | .free rmem => a ≠ rmem
  | .store rmem k _ => rmem = a → p ≤ a + 4 * k

theorem item_ne {s q rmem : Nat} (b : Block c.heap items a s) (b' : Block c.heap items rmem q)
    (hne : a ≠ rmem) : s ≠ q := by
  rintro rfl
  exact hne (b.addr.trans b'.addr.symm)

/-- A call leaves the block with its size, and the words below the address as they were. -/
structure Left (c c' : Client) (a p : Nat) : Prop where
  live : a ∈ c'.live
  heapPtr : c'.heap.heapPtr = c.heap.heapPtr
  size : capacity c'.heap (itemOf c'.heap a) = capacity c.heap (itemOf c.heap a)
  data : ∀ k, 4 * k < capacity c.heap (itemOf c.heap a) → a + 4 * k < p →
    dataWord c'.heap a k = dataWord c.heap a k

variable {live : List Nat}

theorem Left.of_blockKept {m' : RtSmallMem} (hlive : a ∈ live)
    (hptr : m'.heapPtr = c.heap.heapPtr) (h : BlockKept c.heap m' a) : Left c ⟨m', live⟩ a p where
  live := hlive
  heapPtr := hptr
  size := by
    have hitem : itemOf m' a = itemOf c.heap a := by
      unfold itemOf
      rw [hptr]
    rw [hitem]
    exact h.size
  data k hk _ := h.data k hk

theorem Left.self (hlive : a ∈ live) : Left c ⟨c.heap, live⟩ a p :=
  ⟨hlive, rfl, rfl, fun _ _ _ => rfl⟩

section

variable (h : c.Inv items)
include h

section

variable (hlive : a ∈ c.live) {rmem : Nat}
include hlive

theorem Inv.left_alloc {size : UInt32}
    (hr : rtSmemAlloc c.heap size = some r) (hlive' : a ∈ live) : Left c ⟨r.1, live⟩ a p := by
  by_cases hzero : size.toNat = 0
  · rw [rtSmemAlloc, if_pos hzero] at hr
    cases hr
    exact .self hlive'
  · rcases h.settled.rtSmemAlloc_served size hzero with
      ⟨hnull, -⟩ | ⟨m', items', q, halloc, t, -⟩
    · obtain rfl := some.inj (hnull.symm.trans hr)
      exact .self hlive'
    · obtain rfl := some.inj (halloc.symm.trans hr)
      obtain ⟨s, b⟩ := h.blocks a hlive
      have hsq : s ≠ q := fun he => t.serves.2.1 (he ▸ b.used)
      exact .of_blockKept hlive' t.spares.region.heapPtr
        (t.spares.blockKept h.settled.region h.settled.layout t.settled.layout b hsq)

theorem Inv.left_realloc {newsize : UInt32} (hown : c.Owns rmem) (hne : a ≠ rmem)
    (hr : rtSmemRealloc c.heap rmem newsize = some r) (hlive' : a ∈ live) :
    Left c ⟨r.1, live⟩ a p := by
  rcases hown with rfl | hmem
  · rcases rtSmemRealloc_null (m := c.heap) newsize with hnull | hnull
    · obtain rfl := some.inj (hnull.symm.trans hr)
      exact .self hlive'
    · exact h.left_alloc hlive (hnull.symm.trans hr) hlive'
  · obtain ⟨q, b'⟩ := h.blocks rmem hmem
    obtain ⟨s, b⟩ := h.blocks a hlive
    obtain ⟨r', hr', hcase⟩ := h.settled.rtSmemRealloc_cases h.addr b' newsize
    obtain rfl := some.inj (hr'.symm.trans hr)
    have hkept := hcase.blockKept h.settled b (item_ne b b' hne)
    exact .of_blockKept hlive' hcase.heapPtr hkept

theorem Inv.left_free {m' : RtSmallMem}
    (hown : c.Owns rmem) (hne : a ≠ rmem) (hfree : rtSmemFree c.heap rmem = some m')
    (hlive' : a ∈ live) : Left c ⟨m', live⟩ a p := by
  rcases hown with rfl | hmem
  · rw [rtSmemFree, if_pos rfl] at hfree
    cases hfree
    exact .self hlive'
  · obtain ⟨q, b'⟩ := h.blocks rmem hmem
    obtain ⟨s, b⟩ := h.blocks a hlive
    obtain ⟨m₁, items', hfree', r⟩ := h.settled.rtSmemFree_released h.addr b'
    obtain rfl := some.inj (hfree'.symm.trans hfree)
    exact .of_blockKept hlive' r.spares.region.heapPtr (r.spares.blockKept h.settled.region
      h.settled.layout r.settled.layout b (item_ne b b' hne))

/-- A store into another block, or into this one from the address on. -/
theorem Inv.left_store {rmem k v : Nat}
    (hlegal : c.Legal (.store rmem k v)) (hleaves : rmem = a → p ≤ a + 4 * k) :
    Left c { c with heap := c.heap.setWord (itemOf c.heap rmem + sizeofStructMem + 4 * k) v }
      a p := by
  obtain ⟨hmem, hin⟩ := hlegal
  obtain ⟨q, b'⟩ := h.blocks rmem hmem
  obtain ⟨s, b⟩ := h.blocks a hlive
  have R := h.settled.region
  have L := h.settled.layout
  rw [blockSize, b'.itemOf R L, sizeofStructMem] at hin
  rw [b'.itemOf R L, sizeofStructMem]
  have d : DataWritten c.heap (c.heap.setWord (q + 12 + 4 * k) v) q :=
    .setWord (by omega) (by omega)
  by_cases hsame : rmem = a
  · subst hsame
    obtain rfl : s = q := by
      have h1 := b.addr
      have h2 := b'.addr
      omega
    have hitem : itemOf (c.heap.setWord (s + 12 + 4 * k) v) rmem = s := by
      rw [itemOf_congr d.region, b.itemOf R L]
    refine ⟨hlive, rfl, ?_, fun j hj hlow => ?_⟩
    · dsimp only
      rw [hitem, b.itemOf R L, capacity, capacity, (d.header L b.mem b.ne_end b.mem).2.1]
    · unfold dataWord
      rw [hitem, b.itemOf R L, setWord_word, if_neg]
      rw [sizeofStructMem]
      omega
  · have hspares := d.spares L b'.mem b'.ne_end
    have hlayout := (d.settled h.settled b'.mem b'.ne_end).layout
    exact .of_blockKept hlive rfl (hspares.blockKept R L hlayout b (item_ne b b' (Ne.symm hsame)))

theorem Inv.left {call : Call} (hlegal : c.Legal call)
    (hleaves : c.Leaves a p call) (hexec : c.exec call = some c') : Left c c' a p := by
  cases call with
  | alloc size =>
    obtain ⟨r, hr, rfl⟩ := map_eq_some_iff.mp hexec
    exact h.left_alloc hlive hr (mem_keep hlive)
  | realloc rmem newsize =>
    obtain ⟨r, hr, rfl⟩ := map_eq_some_iff.mp hexec
    split_ifs
    · exact h.left_realloc hlive hlegal hleaves hr hlive
    · exact h.left_realloc hlive hlegal hleaves hr (mem_keep (mem_drop hlive hleaves))
  | free rmem =>
    obtain ⟨m', hfree, rfl⟩ := map_eq_some_iff.mp hexec
    exact h.left_free hlive hlegal hleaves hfree (mem_drop hlive hleaves)
  | store rmem k v =>
    cases hexec
    exact h.left_store hlive hlegal hleaves

end

end

theorem Left.trans {c'' : Client} (h : Left c c' a p) (h' : Left c' c'' a p) : Left c c'' a p where
  live := h'.live
  heapPtr := h'.heapPtr.trans h.heapPtr
  size := h'.size.trans h.size
  data k hk hlow := by
    rw [h'.data k (h.size ▸ hk) hlow]
    exact h.data k hk hlow

theorem Inv.left_run (h : c.Inv items) (hlive : a ∈ c.live)
    (hrun : Reachable (· = c) (Within Step (Leaves a p)) c') : Left c c' a p := by
  have hall : (∃ items, c'.Inv items) ∧ Left c c' a p := by
    refine hrun.invariant (I := fun c' => (∃ items, c'.Inv items) ∧ Left c c' a p)
      (fun c₀ h₀ => ?_) fun c₁ call c₂ _ hc₁ hstep => ?_
    · subst h₀
      exact ⟨⟨items, h⟩, .self hlive⟩
    · obtain ⟨⟨items₁, hinv⟩, hleft⟩ := hc₁
      obtain ⟨hleaves, hlegal, hexec⟩ := hstep
      obtain ⟨c₃, items₂, hexec', hinv'⟩ := hinv.exec hlegal
      obtain rfl := some.inj (hexec'.symm.trans hexec)
      exact ⟨⟨items₂, hinv'⟩, hleft.trans (hinv.left hleft.live hlegal hleaves hexec)⟩
  exact hall.2

/-- Where the address of a block is kept in the word below `p`, it is what `rtFreeAlign` gives
back, after any run that leaves the block. -/
theorem Inv.rtFreeAlign_left (h : c.Inv items) (hlive : a ∈ c.live)
    (ha : c.heap.heapPtr + itemOf c.heap a + 12 = a)
    (hin : 4 * k + 4 ≤ capacity c.heap (itemOf c.heap a)) (hp : p = a + 4 * k + 4)
    (hlt : p < 2 ^ 32) (hrun : Reachable
      (· = { c with heap := c.heap.setWord (itemOf c.heap a + sizeofStructMem + 4 * k) a })
      (Within Step (Leaves a p)) c') :
    c'.Owns a ∧ rtFreeAlign c'.heap p = rtSmemFree c'.heap a := by
  obtain ⟨c₂, hexec, hinv⟩ := h.store ⟨hlive, hin⟩
  cases hexec
  have hleft := hinv.left_run hlive hrun
  have hptr : c'.heap.heapPtr = c.heap.heapPtr := hleft.heapPtr
  have hitem : ∀ m' : RtSmallMem, m'.heapPtr = c.heap.heapPtr → itemOf m' a = itemOf c.heap a := by
    intro m' hptr'
    unfold itemOf
    rw [hptr']
  have hword := hleft.data k ?_ (by omega)
  · unfold dataWord at hword
    rw [hitem _ hptr, hitem (c.heap.setWord _ _) rfl, setWord_word, if_pos rfl,
      sizeofStructMem] at hword
    have hoffset : sub32 (sub32 p 4) c'.heap.heapPtr = itemOf c.heap a + 12 + 4 * k := by
      rw [sub32_eq (by omega) hlt, sub32_eq (by omega) (by omega), hptr]
      omega
    refine ⟨.inr hleft.live, ?_⟩
    rw [rtFreeAlign, if_neg (by omega), hoffset, hword]
  · dsimp only
    rw [hitem (c.heap.setWord _ _) rfl]
    unfold capacity next at *
    rw [setWord_word, if_neg (by rw [sizeofStructMem]; omega)]
    omega

/-- The address is aligned, and a word fits between the block and it. -/
theorem alignPtr_block {a j : Nat} (hj : j < 32) (hj' : 2 ≤ j) (hfour : a % 4 = 0)
    (hsum : a + 2 ^ j < 2 ^ 32) :
    alignPtr a (2 ^ j) % 2 ^ j = 0 ∧ alignPtr a (2 ^ j) % 4 = 0 ∧ a + 4 ≤ alignPtr a (2 ^ j) ∧
      alignPtr a (2 ^ j) ≤ a + 2 ^ j := by
  have hdvd : 2 ^ 2 ∣ 2 ^ j := Nat.pow_dvd_pow 2 hj'
  have hmod := alignPtr_mod hj hsum
  obtain ⟨hspec, -⟩ := alignPtr_spec hfour (by omega) (Nat.mod_eq_zero_of_dvd hdvd)
    (Nat.pow_lt_pow_right (by decide) hj) (Nat.two_pow_pos j)
  obtain ⟨hlow, hhigh⟩ := hspec hsum
  exact ⟨hmod, Nat.mod_eq_zero_of_dvd (hdvd.trans (Nat.dvd_of_mod_eq_zero hmod)), by omega,
    by omega⟩

/-- The address `p` is aligned, what is behind it and the word below it lie in the block that
`rt_malloc` has returned, and `rt_free_align` gives back that block, whatever was called
meanwhile. -/
structure ServedAligned (c : Client) (size align : UInt32) (m' : RtSmallMem) (p : Nat) : Prop where
  aligned : p % align.toNat = 0
  block : ∃ m a, rtMalloc c.heap (alignSize size align) = some (m, a) ∧ a ≠ 0 ∧
    a ≤ p - 4 ∧ p - 4 + 4 = p ∧ p + size.toNat ≤ a + capacity m (itemOf m a) ∧
    ∀ c', Reachable (· = ⟨m', a :: c.live⟩) (Within Step (Leaves a p)) c' →
      c'.Owns a ∧ rtFreeAlign c'.heap p = rtSmemFree c'.heap a

/-- In every heap that is reached `rt_malloc_align` ends, and a pointer that it returns is aligned
to a block of its own that `rt_free_align` gives back. -/
theorem reachable_mallocAlign : ∀ c, Reachable Initial Step c → ∀ (size align : UInt32) (k : Nat),
    align.toNat = 2 ^ k → size.toNat + align.toNat < 2 ^ 32 - 8 →
      ∃ m' p, rtMallocAlign c.heap size align = some (m', p) ∧
        (p ≠ 0 → c.ServedAligned size align m' p) := by
  intro c h size align k hpow hsum
  obtain ⟨items, hinv⟩ := reachable_inv h
  obtain ⟨j, hround, hj2, hkj, hj⟩ := rtAlign_two_pow (k := k) (by omega)
  have hlt := size.toNat_lt
  have hal := rtAlign_eq size.toNat
  have hal' := rtAlign_eq align.toNat
  rw [hpow] at hal'
  have hn : (alignSize size align).toNat = rtAlign size.toNat + 2 ^ j := by
    unfold alignSize
    rw [UInt32.toNat_ofNat_of_lt' (add32_lt _ _), hpow, hround, add32_eq (by omega)]
  have hpos : 0 < 2 ^ j := Nat.two_pow_pos j
  rcases hinv.answer (show (alignSize size align).toNat ≠ 0 by omega) with
    ⟨hnull, -⟩ | ⟨m, q, halloc, ans⟩
  · refine ⟨c.heap, 0, ?_, fun hne => absurd rfl hne⟩
    rw [rtMallocAlign, hnull]
    rfl
  · have hfits := hinv.settled.region.fits
    have hptr4 := hinv.settled.region.heapPtr
    have hq4 := hinv.settled.layout.aligned q ((hinv.settled.layout.item_iff q).mp ans.free.1)
    have hroom := ans.room
    have hreq := request_ge (n := (alignSize size align).toNat) (by omega)
    have hinside := ans.inside
    have hptr := ans.heapPtr
    have hitem := ans.itemOf
    generalize ha : c.heap.heapPtr + q + 12 = a at *
    obtain ⟨hmod, hp4, hlow, hhigh⟩ := alignPtr_block hj hj2 (show a % 4 = 0 by omega) (by omega)
    generalize hp : alignPtr a (2 ^ j) = p at *
    have hoffset : sub32 (sub32 p 4) m.heapPtr = q + 12 + 4 * ((p - 4 - a) / 4) := by
      rw [sub32_eq (a := p) (by omega) (by omega), sub32_eq (by omega) (by omega), hptr]
      omega
    have hcall : rtMallocAlign c.heap size align =
        some (m.setWord (q + 12 + 4 * ((p - 4 - a) / 4)) a, p) := by
      rw [rtMallocAlign, halloc]
      dsimp only
      rw [if_pos (by omega), hpow, hround, hp, hoffset]
    -- the call is one of the heap, and a store into the block
    have hc₁ : c.Step (.alloc (alignSize size align)) ⟨m, a :: c.live⟩ := by
      refine ⟨trivial, ?_⟩
      have halloc' : rtSmemAlloc c.heap (alignSize size align) = some (m, a) := halloc
      rw [exec, halloc', Option.map_some, keep, if_neg (by omega)]
    obtain ⟨items₁, hinv₁⟩ := reachable_inv (h.next hc₁)
    refine ⟨_, p, hcall, fun _ => ⟨?_, m, a, halloc, by omega, by omega, by omega, ?_,
      fun c' hrun => hinv₁.rtFreeAlign_left (k := (p - 4 - a) / 4) List.mem_cons_self ?_ ?_
        (by omega) (by omega) ?_⟩⟩
    · rw [hpow]
      exact Nat.mod_eq_zero_of_dvd
        ((Nat.pow_dvd_pow 2 hkj).trans (Nat.dvd_of_mod_eq_zero hmod))
    · rw [hitem]
      omega
    · dsimp only
      omega
    · dsimp only
      rw [hitem]
      omega
    · dsimp only
      rwa [hitem]

/-- 40 bytes aligned to 64, next to another block. -/
theorem reachable_mallocAlign_ok : ∃ c m' p, runFrom 0x20000000 1024 [.alloc 100] = some c ∧
    rtMallocAlign c.heap 40 64 = some (m', p) ∧ p = 0x200000c0 ∧ c.ServedAligned 40 64 m' p := by
  obtain ⟨c, hc, ⟨m', p⟩, hcall, rfl⟩ : ∃ c ∈ runFrom 0x20000000 1024 [.alloc 100],
      ∃ r ∈ rtMallocAlign c.heap 40 64, r.2 = 0x200000c0 := by
    decide +kernel
  obtain ⟨m₁, p₁, hcall', hserved⟩ :=
    reachable_mallocAlign c (reachable_runFrom hc) 40 64 6 (by decide) (by decide)
  obtain ⟨rfl, rfl⟩ := Prod.mk.inj (Option.some.inj (hcall'.symm.trans hcall))
  exact ⟨c, m₁, _, hc, hcall, rfl, hserved (by decide)⟩

end Client

end RtKernel.Mem

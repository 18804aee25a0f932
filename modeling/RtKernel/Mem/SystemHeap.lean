import RtKernel.Mem.Requests

/-!
# The allocation interface of the kernel

`rt_malloc` and its siblings work on a small memory heap. Each rounds or
multiplies the request in 32 bits before the heap sees it. A request that wraps
around on the way is served with a block that is too small, or given back.
-/

namespace RtKernel.Mem

open RtSmallMem

/-- `~x` on `rt_ubase_t`. -/
def not32 (x : Nat) : Nat := 2 ^ 32 - 1 - x

/-- The bits outside a mask and those inside it make up the number. -/
theorem and_not32_add {z k : Nat} (hz : z < 2 ^ 32) (hk : k < 2 ^ 32) :
    (z &&& not32 k) + (z &&& k) = z := by
  have h : (BitVec.ofNat 32 z &&& ~~~BitVec.ofNat 32 k) +
      (BitVec.ofNat 32 z &&& BitVec.ofNat 32 k) = BitVec.ofNat 32 z := by
    rw [BitVec.add_eq_or_of_and_eq_zero]
    · ext i hi
      simp only [BitVec.getElem_or, BitVec.getElem_and, BitVec.getElem_not]
      cases (BitVec.ofNat 32 z)[i] <;> cases (BitVec.ofNat 32 k)[i] <;> rfl
    · ext i hi
      simp only [BitVec.getElem_and, BitVec.getElem_not, BitVec.getElem_zero]
      cases (BitVec.ofNat 32 z)[i] <;> cases (BitVec.ofNat 32 k)[i] <;> rfl
  have hnat := congrArg BitVec.toNat h
  rw [BitVec.toNat_add, BitVec.toNat_and, BitVec.toNat_and, BitVec.toNat_not, BitVec.toNat_ofNat,
    BitVec.toNat_ofNat, Nat.mod_eq_of_lt hz, Nat.mod_eq_of_lt hk] at hnat
  have h1 : z &&& not32 k ≤ z := Nat.and_le_left
  have h2 : z &&& k ≤ z := Nat.and_le_left
  unfold not32 at *
  omega

theorem and_not32_and (z : Nat) {k : Nat} (hk : k < 2 ^ 32) : z &&& not32 k &&& k = 0 := by
  have hmask : not32 k < 2 ^ 32 := by
    unfold not32
    omega
  have h := and_not32_add hmask hk
  rw [Nat.and_self] at h
  have hzero : not32 k &&& k = 0 := by omega
  rw [Nat.and_assoc, hzero, Nat.and_zero]

/-- Rounding up by clearing the bits of a mask goes up, by no more than the mask. -/
theorem roundUp_spec {x k : Nat} (hx : x + k < 2 ^ 32) (hk : x &&& k ≠ 0) :
    x < ((x + k) &&& not32 k) ∧ ((x + k) &&& not32 k) ≤ x + k := by
  refine ⟨?_, Nat.and_le_left⟩
  have hsum := and_not32_add hx (show k < 2 ^ 32 by omega)
  have hle : (x + k) &&& k ≤ k := Nat.and_le_right
  have hne : (x + k) &&& k ≠ k := by
    intro he
    have hself : x = (x + k) &&& not32 k := by omega
    apply hk
    rw [hself]
    exact and_not32_and _ (by omega)
  omega

/-- `rt_malloc`. -/
def rtMalloc (m : RtSmallMem) (size : UInt32) : Option (RtSmallMem × Nat) := rtSmemAlloc m size

/-- `rt_realloc`. -/
def rtRealloc (m : RtSmallMem) (rmem : Nat) (newsize : UInt32) : Option (RtSmallMem × Nat) :=
  rtSmemRealloc m rmem newsize

/-- `n` words of zeros from the word-aligned offset `dst` on. -/
def zeroWords (m : RtSmallMem) (dst : Nat) : Nat → RtSmallMem
  | 0 => m
  | n + 1 => (zeroWords m dst n).setWord (dst + 4 * n) 0

/-- `rt_memset` of `n` bytes to zero; of the last word the bytes above stay. -/
def rtMemset (m : RtSmallMem) (dst n : Nat) : RtSmallMem :=
  let m := zeroWords m dst (n / 4)
  let tail := dst + 4 * (n / 4)
  if n % 4 = 0 then m
  else m.setWord tail (m.word tail / 2 ^ (8 * (n % 4)) * 2 ^ (8 * (n % 4)))

/-- `rt_calloc`. -/
def rtCalloc (m : RtSmallMem) (count size : UInt32) : Option (RtSmallMem × Nat) :=
  match rtMalloc m (count * size) with
  | none => none
  | some (m, p) =>
    if p ≠ 0 then some (rtMemset m (sub32 p m.heapPtr) (count * size).toNat, p) else some (m, p)

/-- The total size `rt_malloc_align` asks for: both arguments rounded up to the size of a pointer. -/
def alignSize (size align : UInt32) : UInt32 :=
  UInt32.ofNat (add32 (rtAlign size.toNat) (rtAlign align.toNat))

/-- The address that `rt_malloc_align` hands out of the block at `ptr`. -/
def alignPtr (ptr align : Nat) : Nat :=
  if ptr &&& sub32 align 1 = 0 then add32 ptr align
  else add32 ptr (sub32 align 1) &&& not32 (sub32 align 1)

/-- `rt_malloc_align`. The address of the block is kept in the word below the one handed out. -/
def rtMallocAlign (m : RtSmallMem) (size align : UInt32) : Option (RtSmallMem × Nat) :=
  match rtMalloc m (alignSize size align) with
  | none => none
  | some (m, ptr) =>
    if ptr ≠ 0 then
      let ptr' := alignPtr ptr (rtAlign align.toNat)
      some (m.setWord (sub32 (sub32 ptr' 4) m.heapPtr) ptr, ptr')
    else some (m, ptr)

inductive Request
  | malloc (size : UInt32)
  | realloc (rmem : Nat) (newsize : UInt32)
  | calloc (count size : UInt32)
  | mallocAlign (size align : UInt32)

/-- From the address `r` on, the block at `a` has `n` bytes. -/
def Usable (m : RtSmallMem) (a r n : Nat) : Prop := a ≤ r ∧ r + n ≤ a + capacity m (itemOf m a)

/-- The call returns, with a heap and an address of which `P` holds. -/
def Returns (result : Option (RtSmallMem × Nat)) (P : RtSmallMem → Nat → Prop) : Prop :=
  ∃ m r, result = some (m, r) ∧ P m r

theorem returns_iff {result : Option (RtSmallMem × Nat)} {P : RtSmallMem → Nat → Prop}
    {m : RtSmallMem} {r : Nat} (h : result = some (m, r)) : Returns result P ↔ P m r := by
  constructor
  · rintro ⟨m', r', h', hP⟩
    obtain ⟨rfl, rfl⟩ := Prod.mk.inj (Option.some.inj (h.symm.trans h'))
    exact hP
  · exact fun hP => ⟨m, r, h, hP⟩

/-- The call returns, and a pointer it returns has the bytes asked for behind it; a block that was to
get another size is not lost. -/
def NeverShort (m : RtSmallMem) : Request → Prop
  | .malloc size => Returns (rtMalloc m size) fun m' r => r ≠ 0 → Usable m' r r size.toNat
  | .realloc rmem newsize => Returns (rtRealloc m rmem newsize) fun m' r =>
      (r ≠ 0 → Usable m' r r newsize.toNat) ∧
        (r = 0 → newsize.toNat ≠ 0 → rmem ≠ 0 → BlockKept m m' rmem)
  | .calloc count size => Returns (rtCalloc m count size) fun m' r =>
      r ≠ 0 → Usable m' r r (count.toNat * size.toNat)
  | .mallocAlign size align => Returns (rtMallocAlign m size align) fun _ r =>
      r ≠ 0 → Returns (rtMalloc m (alignSize size align)) fun m₁ a => Usable m₁ a r size.toNat

/-- No free item has room for the request of `size` bytes. -/
def Nowhere (m : RtSmallMem) (size : UInt32) : Prop := ∀ q, ¬ FreeItem m (request size.toNat) q

/-- What is asked for is not changed by the arithmetic in front of the heap, or nothing is served. -/
def Fits (m : RtSmallMem) : Request → Prop
  | .malloc size => size.toNat ≤ 2 ^ 32 - 4 ∨ Nowhere m size
  | .realloc rmem newsize => newsize.toNat ≤ 2 ^ 32 - 4 ∨ rmem = 0
  | .calloc count size => count.toNat * size.toNat ≤ 2 ^ 32 - 4 ∨
      (count * size).toNat = 0 ∨ Nowhere m (count * size)
  | .mallocAlign size align => rtAlign align.toNat = 0 ∨
      (size.toNat ≤ 2 ^ 32 - 4 ∧ rtAlign size.toNat + rtAlign align.toNat < 2 ^ 32) ∨
      (alignSize size align).toNat = 0 ∨ Nowhere m (alignSize size align) ∨
      -- the address of the lowest item that serves is rounded up past the end of the address space
      ∃ p, FreeItem m (request (alignSize size align).toNat) p ∧
        (∀ q, FreeItem m (request (alignSize size align).toNat) q → p ≤ q) ∧
        alignPtr (m.heapPtr + p + sizeofStructMem) (rtAlign align.toNat) = 0

namespace Client

variable {c : Client} {items : Set Nat} {m : RtSmallMem}

/-- The block that serves a request of `n` bytes, out of the item `p`. -/
structure Answer (m m' : RtSmallMem) (n p : Nat) : Prop where
  free : FreeItem m n p
  lowest : ∀ q, FreeItem m n q → p ≤ q
  heapPtr : m'.heapPtr = m.heapPtr
  itemOf : itemOf m' (m.heapPtr + p + 12) = p
  room : n ≤ capacity m' p
  tight : capacity m' p < n + 24
  inside : p + 12 + capacity m' p ≤ m.heapEnd

theorem Inv.answer (h : c.Inv items) {size : UInt32} (hsize : size.toNat ≠ 0) :
    (rtMalloc c.heap size = some (c.heap, 0) ∧ Nowhere c.heap size) ∨
      ∃ m' p, rtMalloc c.heap size = some (m', c.heap.heapPtr + p + 12) ∧
        Answer c.heap m' (request size.toNat) p := by
  have L := h.settled.layout
  rcases h.settled.rtSmemAlloc_served size hsize with ⟨hnull, hnone⟩ | ⟨m', items', p, halloc, t, hlow⟩
  · exact .inl ⟨hnull, fun q hq => hnone q (L.freeItem_iff.mp hq)⟩
  · right
    have L' := t.settled.layout
    have b := t.block h.settled (request_spec size.toNat).2.2
    have hn := L'.next_mem p t.mem b.ne_end
    have hend := L'.le_end _ hn.1
    have hroom := t.room
    have htight := t.tight
    have hcap : capacity m' p = m'.next p - p - 12 := rfl
    refine ⟨m', p, halloc, L.freeItem_iff.mpr t.serves,
      fun q hq => hlow q (L.freeItem_iff.mp hq), t.spares.region.heapPtr, ?_, ?_, ?_, ?_⟩
    · exact b.itemOf t.settled.region L'
    · omega
    · omega
    · rw [← t.spares.region.heapEnd]
      omega

/-- The block has the bytes asked for, unless these are more than the largest request rounded up. -/
theorem Answer.usable_iff {m m' : RtSmallMem} {n p k : Nat} (R : Region m)
    (ans : Answer m m' n p) (hk : k ≤ n ∨ 2 ^ 32 - 4 < k) :
    Usable m' (m.heapPtr + p + 12) (m.heapPtr + p + 12) k ↔ k ≤ 2 ^ 32 - 4 := by
  have hroom := ans.room
  have hinside := ans.inside
  have hfits := R.fits
  unfold Usable
  rw [ans.itemOf]
  constructor
  · intro ⟨_, hle⟩
    omega
  · intro hle
    exact ⟨le_rfl, by omega⟩

theorem request_ge {n : Nat} (h : n ≤ 2 ^ 32 - 4) : n ≤ request n := by
  have hle := (request_spec n).2.1
  rw [rtAlign_eq] at hle
  omega

theorem Inv.malloc_short (h : c.Inv items) (size : UInt32) :
    NeverShort c.heap (.malloc size) ↔ Fits c.heap (.malloc size) := by
  have R := h.settled.region
  unfold NeverShort Fits
  dsimp only
  by_cases hzero : size.toNat = 0
  · have hnull : rtMalloc c.heap size = some (c.heap, 0) := by
      rw [rtMalloc, rtSmemAlloc, if_pos hzero]
    exact iff_of_true ((returns_iff hnull).mpr fun h0 => absurd rfl h0) (.inl (by omega))
  rcases h.answer hzero with ⟨hnull, hnone⟩ | ⟨m', p, halloc, ans⟩
  · exact iff_of_true ((returns_iff hnull).mpr fun h0 => absurd rfl h0) (.inr hnone)
  · have hne : c.heap.heapPtr + p + 12 ≠ 0 := by omega
    have hk : size.toNat ≤ request size.toNat ∨ 2 ^ 32 - 4 < size.toNat := by
      by_cases hle : size.toNat ≤ 2 ^ 32 - 4
      · exact .inl (request_ge hle)
      · exact .inr (by omega)
    rw [returns_iff halloc, imp_iff_right hne, ans.usable_iff R hk]
    exact ⟨.inl, fun h' => h'.resolve_right fun hnone => hnone p ans.free⟩

theorem zeroWords_word {dst n o : Nat} (h : o < dst) :
    (zeroWords m dst n).word o = m.word o := by
  induction n with
  | zero => rfl
  | succ n ih =>
    rw [zeroWords, setWord_word, if_neg (by omega)]
    exact ih

theorem zeroWords_heapPtr (m : RtSmallMem) (dst n : Nat) :
    (zeroWords m dst n).heapPtr = m.heapPtr := by
  induction n with
  | zero => rfl
  | succ n ih => exact ih

/-- Clearing the data leaves the header in front of it. -/
theorem rtMemset_spec {dst n : Nat} :
    (rtMemset m dst n).heapPtr = m.heapPtr ∧ ∀ o < dst, (rtMemset m dst n).word o = m.word o := by
  unfold rtMemset
  split_ifs
  · exact ⟨zeroWords_heapPtr m dst _, fun o ho => zeroWords_word ho⟩
  · refine ⟨zeroWords_heapPtr m dst _, fun o ho => ?_⟩
    rw [setWord_word, if_neg (by omega)]
    exact zeroWords_word ho

theorem Inv.calloc_short (h : c.Inv items) (count size : UInt32) :
    NeverShort c.heap (.calloc count size) ↔ Fits c.heap (.calloc count size) := by
  have R := h.settled.region
  have hfits := R.fits
  have hmul : (count * size).toNat = count.toNat * size.toNat % 2 ^ 32 := UInt32.toNat_mul ..
  unfold NeverShort Fits
  dsimp only
  generalize count.toNat * size.toNat = n at *
  generalize hasked : count * size = asked at *
  by_cases hzero : asked.toNat = 0
  · have hnull : rtCalloc c.heap count size = some (c.heap, 0) := by
      rw [rtCalloc, hasked, rtMalloc, rtSmemAlloc, if_pos hzero]
      rfl
    exact iff_of_true ((returns_iff hnull).mpr fun h0 => absurd rfl h0) (.inr (.inl hzero))
  rcases h.answer hzero with ⟨hnull, hnone⟩ | ⟨m', p, halloc, ans⟩
  · have hnull' : rtCalloc c.heap count size = some (c.heap, 0) := by
      rw [rtCalloc, hasked, hnull]
      rfl
    exact iff_of_true ((returns_iff hnull').mpr fun h0 => absurd rfl h0) (.inr (.inr hnone))
  · have hne : c.heap.heapPtr + p + 12 ≠ 0 := by omega
    have hptr := ans.heapPtr
    have hinside := ans.inside
    have hdst : sub32 (c.heap.heapPtr + p + 12) m'.heapPtr = p + 12 := by
      rw [sub32_eq (by omega) (by omega)]
      omega
    have hcalloc : rtCalloc c.heap count size =
        some (rtMemset m' (p + 12) asked.toNat, c.heap.heapPtr + p + 12) := by
      rw [rtCalloc, hasked, halloc]
      dsimp only
      rw [if_pos hne, hdst]
    -- clearing the block leaves its extent
    obtain ⟨hptr', hword⟩ := @rtMemset_spec m' (p + 12) asked.toNat
    have hitem : itemOf (rtMemset m' (p + 12) asked.toNat) (c.heap.heapPtr + p + 12) = p := by
      rw [itemOf, hptr', ← itemOf, ans.itemOf]
    have hcap : capacity (rtMemset m' (p + 12) asked.toNat) p = capacity m' p := by
      rw [capacity, capacity, next, next, hword _ (by omega)]
    have hans : Answer c.heap (rtMemset m' (p + 12) asked.toNat) (request asked.toNat) p :=
      ⟨ans.free, ans.lowest, hptr'.trans hptr, hitem, hcap ▸ ans.room, hcap ▸ ans.tight,
        hcap ▸ ans.inside⟩
    have hk : n ≤ request asked.toNat ∨ 2 ^ 32 - 4 < n := by
      by_cases hle : n ≤ 2 ^ 32 - 4
      · have hreq := request_ge hle
        rw [hmul, Nat.mod_eq_of_lt (by omega)]
        exact .inl hreq
      · exact .inr (by omega)
    rw [returns_iff hcalloc, imp_iff_right hne, hans.usable_iff R hk]
    constructor
    · exact .inl
    · rintro (hle | hz | hnone)
      · exact hle
      · exact absurd hz hzero
      · exact absurd ans.free (hnone p)

theorem Inv.realloc_short (h : c.Inv items) {rmem : Nat} (hown : c.Owns rmem) (newsize : UInt32) :
    NeverShort c.heap (.realloc rmem newsize) ↔ Fits c.heap (.realloc rmem newsize) := by
  have hal := rtAlign_eq newsize.toNat
  have hlt := newsize.toNat_lt
  have R := h.settled.region
  unfold NeverShort Fits
  dsimp only
  rcases hown with rfl | hlive
  · refine iff_of_true ?_ (.inr rfl)
    have hnull : ∀ {result : Option (RtSmallMem × Nat)}, result = some (c.heap, 0) →
        Returns result fun m' r => (r ≠ 0 → Usable m' r r newsize.toNat) ∧
          (r = 0 → newsize.toNat ≠ 0 → (0 : Nat) ≠ 0 → BlockKept c.heap m' 0) := by
      intro result hresult
      exact (returns_iff hresult).mpr ⟨fun h0 => absurd rfl h0, fun _ _ h0 => absurd rfl h0⟩
    rcases rtSmemRealloc_null (m := c.heap) newsize with hrealloc | hrealloc
    · exact hnull hrealloc
    · have hnat : (UInt32.ofNat (rtAlign newsize.toNat)).toNat = rtAlign newsize.toNat :=
        UInt32.toNat_ofNat_of_lt' (by rw [UInt32.size]; omega)
      by_cases hzero : rtAlign newsize.toNat = 0
      · refine hnull ?_
        rw [rtRealloc, hrealloc, rtSmemAlloc, hnat, if_pos hzero]
      rcases h.answer (hnat.trans_ne hzero) with ⟨hrefused, -⟩ | ⟨m', p, halloc, ans⟩
      · exact hnull (hrealloc.trans hrefused)
      · rw [hnat] at ans
        have hreq := (request_spec (rtAlign newsize.toNat)).2.1
        have hal' := rtAlign_eq (rtAlign newsize.toNat)
        have hne : c.heap.heapPtr + p + 12 ≠ 0 := by omega
        refine (returns_iff (hrealloc.trans halloc)).mpr ⟨fun _ => ?_, fun h0 => absurd h0 hne⟩
        exact (ans.usable_iff R (.inl (by omega))).mpr (by omega)
  · obtain ⟨p, b⟩ := h.blocks rmem hlive
    have L := h.settled.layout
    have hpos := h.ne_zero hlive
    have hitem := b.itemOf R L
    have hn := L.next_mem p b.mem b.ne_end
    obtain ⟨r, hrealloc, hcase⟩ := h.settled.rtSmemRealloc_cases h.addr b newsize
    have hself : BlockKept c.heap c.heap rmem :=
      ⟨hitem ▸ (L.item_iff p).mpr b.mem, hitem ▸ b.used, rfl, fun _ _ => rfl⟩
    have hrealloc' : rtRealloc c.heap rmem newsize = some (r.1, r.2) := hrealloc
    rw [returns_iff hrealloc']
    by_cases hmax : newsize.toNat ≤ 2 ^ 32 - 4
    · refine iff_of_true ?_ (.inl hmax)
      generalize rtAlign newsize.toNat = size at hal hcase
      cases hcase with
      | tooLarge _ | refused _ _ _ _ => exact ⟨fun h0 => absurd rfl h0, fun _ _ _ => hself⟩
      | freed hzero _ => exact ⟨fun h0 => absurd rfl h0, fun _ hne _ => absurd hzero (by omega)⟩
      | same _ hsame =>
        refine ⟨fun _ => ⟨le_rfl, ?_⟩, fun h0 => absurd h0 hpos⟩
        dsimp only
        rw [hitem, capacity, sizeofStructMem]
        omega
      | shrunk _ _ r =>
        refine ⟨fun _ => ⟨le_rfl, ?_⟩, fun h0 => absurd h0 hpos⟩
        rw [itemOf_congr r.spares.region, hitem, capacity, r.next, sizeofStructMem]
        omega
      | moved _ _ _ t d r =>
        obtain ⟨-, hreq, hmin⟩ := request_spec size
        rw [rtAlign_eq] at hreq
        have hmoved := t.moved h.settled b d r hmin le_rfl
        have hroom := hmoved.room
        refine ⟨fun _ => ⟨le_rfl, ?_⟩, fun h0 => by omega⟩
        dsimp only
        rw [hmoved.block.itemOf hmoved.settled.region hmoved.settled.layout, capacity,
          sizeofStructMem]
        omega
    · refine iff_of_false ?_ (by omega)
      have hzero : rtAlign newsize.toNat = 0 := by omega
      generalize rtAlign newsize.toNat = size at hzero hcase
      rintro ⟨-, hkept⟩
      cases hcase with
      | tooLarge hbig => omega
      | same hpos' _ => omega
      | shrunk hpos' _ _ => omega
      | refused hpos' _ _ _ => omega
      | moved hpos' _ _ _ _ _ => omega
      | freed _ r =>
        have hk := hkept rfl (by omega) hpos
        exact r.freed ((r.settled.layout.item_iff p).mp (hitem ▸ hk.item)) (hitem ▸ hk.isUsed)

/-- The address handed out lies inside the block where the sum does not wrap around, and below the
block where it does. -/
theorem alignPtr_spec {x align : Nat} (hx : x % 4 = 0) (hx' : x < 2 ^ 32) (ha : align % 4 = 0)
    (ha' : align < 2 ^ 32) (hpos : 0 < align) :
    (x + align < 2 ^ 32 → x + 4 ≤ alignPtr x align ∧ alignPtr x align ≤ x + align) ∧
      (2 ^ 32 ≤ x + align → alignPtr x align < x) := by
  have hmask : sub32 align 1 = align - 1 := sub32_eq (by omega) ha'
  unfold alignPtr
  rw [hmask]
  by_cases hzero : x &&& (align - 1) = 0
  · rw [if_pos hzero, add32]
    exact ⟨fun _ => by omega, fun _ => by omega⟩
  · rw [if_neg hzero]
    have hnot : not32 (align - 1) = 2 ^ 32 - align := by
      unfold not32
      omega
    by_cases hsum : x + (align - 1) < 2 ^ 32
    · rw [add32_eq hsum]
      obtain ⟨hlo, hhi⟩ := roundUp_spec hsum hzero
      have hle : (x + (align - 1)) &&& not32 (align - 1) ≤ not32 (align - 1) := Nat.and_le_right
      have hmod : ((x + (align - 1)) &&& not32 (align - 1)) % 2 ^ 2 = 0 := by
        rw [Nat.and_mod_two_pow, hnot]
        have : (2 ^ 32 - align) % 2 ^ 2 = 0 := by omega
        rw [this, Nat.and_zero]
      generalize (x + (align - 1)) &&& (2 ^ 32 - align) = y at *
      exact ⟨fun _ => by omega, fun _ => by omega⟩
    · have hle : add32 x (align - 1) &&& not32 (align - 1) ≤ add32 x (align - 1) := Nat.and_le_left
      unfold add32 at *
      exact ⟨fun _ => by omega, fun _ => by omega⟩

theorem alignPtr_zero {x : Nat} (hx : x ≠ 0) (hx' : x < 2 ^ 32) : alignPtr x 0 = 0 := by
  have hmask : sub32 0 1 = 2 ^ 32 - 1 := by decide
  have hself : x &&& (2 ^ 32 - 1) = x := by
    rw [Nat.and_two_pow_sub_one_eq_mod]
    exact Nat.mod_eq_of_lt hx'
  have hnot : not32 (2 ^ 32 - 1) = 0 := by decide
  rw [alignPtr, hmask, hself, if_neg hx, hnot, Nat.and_zero]

theorem Inv.mallocAlign_short (h : c.Inv items)
    (hbelow : c.heap.addr + sizeofSmallMem ≤ c.heap.heapPtr) (size align : UInt32) :
    NeverShort c.heap (.mallocAlign size align) ↔ Fits c.heap (.mallocAlign size align) := by
  have R := h.settled.region
  have L := h.settled.layout
  have hfits := R.fits
  have hptr4 := R.heapPtr
  have hsum : (alignSize size align).toNat = add32 (rtAlign size.toNat) (rtAlign align.toNat) :=
    UInt32.toNat_ofNat_of_lt' (add32_lt _ _)
  have hal := rtAlign_eq size.toNat
  have hal' := rtAlign_eq align.toNat
  rw [add32] at hsum
  rw [sizeofSmallMem] at hbelow
  unfold NeverShort Fits
  dsimp only
  by_cases hzero : (alignSize size align).toNat = 0
  · have hnull : rtMallocAlign c.heap size align = some (c.heap, 0) := by
      rw [rtMallocAlign, rtMalloc, rtSmemAlloc, if_pos hzero]
      rfl
    exact iff_of_true ((returns_iff hnull).mpr fun h0 => absurd rfl h0) (.inr (.inr (.inl hzero)))
  rcases h.answer hzero with ⟨hnull, hnone⟩ | ⟨m', p, halloc, ans⟩
  · have hnull' : rtMallocAlign c.heap size align = some (c.heap, 0) := by
      rw [rtMallocAlign, hnull]
      rfl
    exact iff_of_true ((returns_iff hnull').mpr fun h0 => absurd rfl h0)
      (.inr (.inr (.inr (.inl hnone))))
  have hne : c.heap.heapPtr + p + 12 ≠ 0 := by omega
  have hinside := ans.inside
  have hp4 := L.aligned p ((L.item_iff p).mp ans.free.1)
  have hcall : ∃ m'', rtMallocAlign c.heap size align =
      some (m'', alignPtr (c.heap.heapPtr + p + 12) (rtAlign align.toNat)) := by
    rw [rtMallocAlign, halloc]
    dsimp only
    exact ⟨_, rfl⟩
  obtain ⟨m'', hcall⟩ := hcall
  rw [returns_iff hcall, returns_iff halloc]
  by_cases halign : rtAlign align.toNat = 0
  · rw [halign, alignPtr_zero hne (by omega)]
    exact iff_of_true (fun h0 => absurd rfl h0) (.inl rfl)
  obtain ⟨hin, hout⟩ := alignPtr_spec (x := c.heap.heapPtr + p + 12) (by omega) (by omega)
    (show rtAlign align.toNat % 4 = 0 by omega) (by omega) (by omega)
  have hroom := ans.room
  have htight := ans.tight
  have hreq : (alignSize size align).toNat ≤ request (alignSize size align).toNat ∧
      request (alignSize size align).toNat ≤ max (alignSize size align).toNat 12 := by
    have hle : (alignSize size align).toNat ≤ 2 ^ 32 - 4 := by omega
    rw [rounded_eq hle, rounded, minSizeAligned]
    omega
  by_cases hwhole : size.toNat ≤ 2 ^ 32 - 4 ∧ rtAlign size.toNat + rtAlign align.toNat < 2 ^ 32
  · refine iff_of_true (fun _ => ?_) (.inr (.inl hwhole))
    unfold Usable
    rw [ans.itemOf]
    omega
  · by_cases hr : alignPtr (c.heap.heapPtr + p + 12) (rtAlign align.toNat) = 0
    · exact iff_of_true (fun h0 => absurd hr h0)
        (.inr (.inr (.inr (.inr ⟨p, ans.free, ans.lowest, hr⟩))))
    · refine iff_of_false ?_ ?_
      · intro hshort
        have huse := hshort hr
        unfold Usable at huse
        rw [ans.itemOf] at huse
        by_cases hover : 2 ^ 32 ≤ c.heap.heapPtr + p + 12 + rtAlign align.toNat
        · have := hout hover
          omega
        · have := hin (by omega)
          omega
      · rintro (h0 | h0 | h0 | h0 | ⟨q, hq, hlow, h0⟩)
        · exact halign h0
        · exact hwhole h0
        · exact hzero h0
        · exact h0 p ans.free
        · have hpq : q = p := Nat.le_antisymm (hlow p ans.free) (ans.lowest q hq)
          exact hr (hpq ▸ h0)

/-- The requests a client may make. -/
def MayAsk (c : Client) : Request → Prop
  | .realloc rmem _ => c.Owns rmem
  | _ => True

/-- On a heap that lies behind its control block no request is answered with less than it asks for,
exactly where the arithmetic in front of the heap leaves the request as it is. -/
theorem reachable_neverShort : ∀ c, Reachable Initial Step c →
    c.heap.addr + sizeofSmallMem ≤ c.heap.heapPtr → ∀ req, c.MayAsk req →
      (NeverShort c.heap req ↔ Fits c.heap req) := by
  intro c h hbelow req hmay
  obtain ⟨items, hinv⟩ := reachable_inv h
  cases req with
  | malloc size => exact hinv.malloc_short size
  | realloc rmem newsize => exact hinv.realloc_short hmay newsize
  | calloc count size => exact hinv.calloc_short count size
  | mallocAlign size align => exact hinv.mallocAlign_short hbelow size align

/-- 40 bytes aligned to 64, next to another block. -/
theorem reachable_neverShort_aligned :
    ∃ c, runFrom 0x20000000 1024 [.alloc 100] = some c ∧ NeverShort c.heap (.mallocAlign 40 64) := by
  obtain ⟨c, hc, hr⟩ : ∃ c ∈ runFrom 0x20000000 1024 [.alloc 100], c.heap.addr = 0x20000000 ∧
      c.heap.heapPtr = 0x20000038 := by decide +kernel
  refine ⟨c, hc, (reachable_neverShort c (reachable_runFrom hc) ?_ (.mallocAlign 40 64) trivial).mpr ?_⟩
  · rw [hr.1, hr.2]
    decide
  · exact .inr (.inl (by decide))

/-- The largest size is answered with a block of twelve bytes. -/
theorem neverShort_broken : ∃ c, Reachable Initial Step c ∧
    c.heap.addr + sizeofSmallMem ≤ c.heap.heapPtr ∧ c.MayAsk (.malloc 0xffffffff) ∧
    ¬ NeverShort c.heap (.malloc 0xffffffff) := by
  obtain ⟨c, hc, haddr, hptr, r, hmalloc, hret, hcap⟩ : ∃ c ∈ runFrom 0x20000000 1024 [],
      c.heap.addr = 0x20000000 ∧ c.heap.heapPtr = 0x20000038 ∧
        ∃ r ∈ rtMalloc c.heap 0xffffffff, r.2 = 0x20000044 ∧ capacity r.1 (itemOf r.1 r.2) = 12 := by
    decide +kernel
  refine ⟨c, reachable_runFrom hc, ?_, trivial, ?_⟩
  · rw [haddr, hptr]
    decide
  · rintro ⟨m', r', hmalloc', huse⟩
    obtain rfl := Option.some.inj (hmalloc.symm.trans hmalloc')
    obtain ⟨-, hle⟩ := huse (by simp only at hret; omega)
    simp only at hret hcap
    rw [hcap] at hle
    have hsize : (0xffffffff : UInt32).toNat = 4294967295 := by decide
    omega

end Client

end RtKernel.Mem

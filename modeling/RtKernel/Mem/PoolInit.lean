import RtKernel.Mem.MemPool

/-!
# Where the initialisation of a pool writes

The words that `rt_mp_init` stores, in their order. Addresses wrap, so a word is in
the memory of the pool when each of its bytes is less than the size away from the
start.
-/

open List

namespace RtKernel.MemPool

/-- The stores into the memory of the pool, each an address and a word. -/
def initStores (start size blockSize : Nat) : List (Nat × Nat) :=
  let blockSize := rtAlign blockSize
  let total := rtAlignDown size / add32 blockSize 4
  (List.range total).map (fun offset =>
      (blockPtr start blockSize offset, blockPtr start blockSize (offset + 1))) ++
    [(blockPtr start blockSize (sub32 total 1), 0)]

def storeAll (mem : Nat → UInt8) (stores : List (Nat × Nat)) : Nat → UInt8 :=
  stores.foldl (fun mem w => store32 mem w.1 w.2) mem

/-- The four bytes at an address belong to the memory. -/
def Inside (start size address : Nat) : Prop := ∀ i < 4, sub32 (address + i) start < size

/-- The region holds a block, or the word one block before its start. -/
def InitFits (size blockSize : Nat) : Prop :=
  let step := add32 (rtAlign blockSize) 4
  0 < rtAlignDown size / step ∨ sub32 0 step + 4 ≤ size

theorem linkBlocks_eq (mem : Nat → UInt8) (start blockSize n : Nat) :
    linkBlocks mem start blockSize n = storeAll mem ((List.range n).map fun offset =>
      (blockPtr start blockSize offset, blockPtr start blockSize (offset + 1))) := by
  induction n with
  | zero => rfl
  | succ n ih =>
    rw [linkBlocks, ih, range_succ, map_append]
    unfold storeAll
    rw [foldl_append]
    rfl

/-- The stores are all that `rt_mp_init` does to the memory. -/
theorem rtMpInit_stores (mem : Nat → UInt8) {start size blockSize : Nat} (hstart : 0 < start)
    (hsize : 0 < size) (hblock : 0 < blockSize) : (rtMpInit mem start size blockSize).map (·.1) =
      some (storeAll mem (initStores start size blockSize)) := by
  unfold rtMpInit
  rw [if_neg (by omega), Option.map_some, linkBlocks_eq]
  unfold initStores storeAll
  rw [foldl_append]
  rfl

theorem inside_offset_iff {start size d : Nat} (hstart : start < 2 ^ 32) (hsize : size < 2 ^ 32)
    (hd : d < 2 ^ 32) : Inside start size ((start + d) % 2 ^ 32) ↔ d + 4 ≤ size := by
  unfold Inside sub32
  constructor
  · intro h
    have h₀ := h 0 (by decide)
    have h₁ := h 1 (by decide)
    have h₂ := h 2 (by decide)
    have h₃ := h 3 (by decide)
    omega
  · intro h i hi
    omega

/-- Each word that is stored is the one at the start of a block, when there is a block. -/
theorem mem_initStores {start size blockSize address : Nat}
    (h : 0 < rtAlignDown size / add32 (rtAlign blockSize) 4) (hsize : rtAlignDown size < 2 ^ 32) :
    address ∈ (initStores start size blockSize).map (·.1) →
      ∃ i < rtAlignDown size / add32 (rtAlign blockSize) 4,
        address = blockPtr start (rtAlign blockSize) i := by
  unfold initStores
  have hlt : rtAlignDown size / add32 (rtAlign blockSize) 4 < 2 ^ 32 :=
    (Nat.div_le_self ..).trans_lt hsize
  obtain ⟨total, htotal⟩ : ∃ n, n = rtAlignDown size / add32 (rtAlign blockSize) 4 := ⟨_, rfl⟩
  simp only [← htotal] at h hlt ⊢
  rw [sub32_eq h hlt]
  simp only [map_append, map_map, mem_append, mem_map, mem_range,
    map_cons, map_nil, mem_singleton]
  rintro (⟨i, hi, rfl⟩ | rfl)
  · exact ⟨i, hi, rfl⟩
  · exact ⟨total - 1, by omega, rfl⟩

/-- The words that `rt_mp_init` stores lie in the memory exactly when it holds a block, or where the
word one block before the start happens to lie in it. -/
theorem rtMpInit_inside (mem : Nat → UInt8) (start size blockSize : Nat) (hstart : 0 < start)
    (hsize : 0 < size) (hblock : 0 < blockSize) (hstart' : start < 2 ^ 32)
    (hsize' : size < 2 ^ 32) :
    (rtMpInit mem start size blockSize).map (·.1) =
        some (storeAll mem (initStores start size blockSize)) ∧
      ((∀ w ∈ initStores start size blockSize, Inside start size w.1) ↔
        InitFits size blockSize) := by
  refine ⟨rtMpInit_stores mem hstart hsize hblock, ?_⟩
  have hdown : rtAlignDown size = size / 4 * 4 := rtAlignDown_eq hsize'
  have hstep : add32 (rtAlign blockSize) 4 < 2 ^ 32 := add32_lt _ _
  have hmult : 4 ∣ add32 (rtAlign blockSize) 4 := by
    unfold add32
    rw [rtAlign_eq]
    omega
  unfold InitFits
  obtain ⟨step, hs⟩ : ∃ step, step = add32 (rtAlign blockSize) 4 := ⟨_, rfl⟩
  have hptr : ∀ i, blockPtr start (rtAlign blockSize) i = (start + i * step) % 2 ^ 32 := by
    intro i
    rw [blockPtr, hs]
  by_cases hpos : 0 < rtAlignDown size / add32 (rtAlign blockSize) 4
  · -- each block starts a whole step before the end
    refine iff_of_true (fun w hw => ?_) (.inl hpos)
    obtain ⟨i, hi, heq⟩ := mem_initStores hpos (by omega)
      (List.mem_map_of_mem hw (f := (·.1)))
    rw [← hs] at hi hmult hpos
    have hle : (i + 1) * step ≤ rtAlignDown size :=
      (Nat.mul_le_mul_right step hi).trans (Nat.div_mul_le_self _ _)
    have hnonzero : step ≠ 0 := by
      rintro rfl
      rw [Nat.div_zero] at hpos
      omega
    rw [Nat.succ_mul] at hle
    rw [heq, hptr, inside_offset_iff hstart' hsize' (by omega)]
    omega
  · have hzero := Nat.eq_zero_of_not_pos hpos
    have honly : initStores start size blockSize =
        [(blockPtr start (rtAlign blockSize) (sub32 0 1), 0)] := by
      unfold initStores
      dsimp only
      rw [hzero]
      rfl
    -- the number of the last block is `-1`
    have hlast : sub32 0 1 = 4294967295 := by decide
    have hback : blockPtr start (rtAlign blockSize) (sub32 0 1) =
        (start + sub32 0 step) % 2 ^ 32 := by
      rw [hptr, hlast]
      unfold sub32
      omega
    have hlt : sub32 0 step < 2 ^ 32 := Nat.mod_lt _ (by decide)
    simp only [honly, List.mem_singleton, forall_eq, hback, inside_offset_iff hstart' hsize' hlt]
    rw [← hs, or_iff_right (by rw [hs]; exact hpos)]

/-- Three blocks in 43 bytes. -/
theorem rtMpInit_inside_three :
    (rtMpInit (fun _ => 0) 4096 43 7).map (·.1) =
        some (storeAll (fun _ => 0) (initStores 4096 43 7)) ∧
      ((∀ w ∈ initStores 4096 43 7, Inside 4096 43 w.1) ↔ InitFits 43 7) :=
  rtMpInit_inside (fun _ => 0) 4096 43 7 (by decide) (by decide) (by decide) (by decide)
    (by decide)

/-- A region too small for a block has a word stored before its start. -/
theorem rtMpInit_before : ∃ w ∈ initStores 4096 4 4, w = (4088, 0) ∧ ¬ Inside 4096 4 w.1 := by
  refine ⟨(4088, 0), ?_, rfl, ?_⟩
  · decide +kernel
  · intro h
    have h₀ := h 0 (by decide)
    revert h₀
    decide

end RtKernel.MemPool

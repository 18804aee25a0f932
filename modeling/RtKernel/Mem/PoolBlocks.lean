import RtKernel.Mem.MemPool

/-!
# Free and allocated blocks

Each block of a pool is either in its free list or allocated, whichever thread
or interrupt takes and frees it. The pools share one memory and do not touch each
other's blocks.
-/

open List Option
open Nat (mul_le_mul_right succ_mul)

namespace RtKernel.MemPool

open Kernel

/-- The block with the number. -/
def RtMempool.block (mp : RtMempool) (i : Nat) : Nat := mp.startAddress + i * (mp.blockSize + 4)

def RtMempool.blocks (mp : RtMempool) : List Nat := (List.range mp.blockTotalCount).map mp.block

/-- The blocks lie in the memory of the pool. -/
structure RtMempool.Laid (mp : RtMempool) : Prop where
  start : 0 < mp.startAddress
  blockSize : 0 < mp.blockSize
  fits : mp.blockTotalCount * (mp.blockSize + 4) ≤ mp.size
  bound : mp.startAddress + mp.size ≤ 2 ^ 32

/-- A pointer in memory; `0` is `RT_NULL`. -/
def pointer (p : Nat) : Option Nat := if p = 0 then none else some p

/-- What the word of a free block points to. -/
def next (mem : Nat → UInt8) (b : Nat) : Option Nat := pointer (load32 mem b)

/-- Each block is in the free list or has been allocated. -/
structure Partition (x : Nat) (mp : RtMempool) (mem : Nat → UInt8) (free allocated : List Nat) :
    Prop where
  linked : Linked (next mem) (pointer mp.blockList) free
  count : mp.blockFreeCount = free.length
  blocks : (free ++ allocated.map (· - 4)).Perm mp.blocks
  owner : ∀ b ∈ allocated, load32 mem (b - 4) = x

section

variable {x : Nat} {mp : RtMempool} {mem mem' : Nat → UInt8} {free allocated : List Nat} {b : Nat}

theorem RtMempool.mem_blocks :
    b ∈ mp.blocks ↔ ∃ i < mp.blockTotalCount, mp.block i = b := by
  simp [RtMempool.blocks]

theorem RtMempool.Laid.block_bounds (h : mp.Laid) (hb : b ∈ mp.blocks) :
    mp.startAddress ≤ b ∧ b + (mp.blockSize + 4) ≤ mp.startAddress + mp.size := by
  obtain ⟨i, hi, rfl⟩ := RtMempool.mem_blocks.mp hb
  have hle : (i + 1) * (mp.blockSize + 4) ≤ mp.blockTotalCount * (mp.blockSize + 4) :=
    mul_le_mul_right _ hi
  have hfits := h.fits
  rw [succ_mul] at hle
  unfold RtMempool.block
  omega

theorem RtMempool.block_apart {b c : Nat} (hb : b ∈ mp.blocks) (hc : c ∈ mp.blocks) (hne : b ≠ c) :
    b + (mp.blockSize + 4) ≤ c ∨ c + (mp.blockSize + 4) ≤ b := by
  obtain ⟨i, -, rfl⟩ := RtMempool.mem_blocks.mp hb
  obtain ⟨j, -, rfl⟩ := RtMempool.mem_blocks.mp hc
  have hij : i ≠ j := by
    rintro rfl
    exact hne rfl
  unfold RtMempool.block
  rcases Nat.lt_or_gt_of_ne hij with hlt | hlt
  all_goals
    have hle := mul_le_mul_right (mp.blockSize + 4) (Nat.succ_le_of_lt hlt)
    rw [succ_mul] at hle
    omega

theorem RtMempool.nodup_blocks (mp : RtMempool) : mp.blocks.Nodup := by
  apply List.Nodup.map _ nodup_range
  intro i j hij
  exact Nat.eq_of_mul_eq_mul_right (Nat.succ_pos _) (Nat.add_left_cancel hij)

namespace Partition

section

variable (h : Partition x mp mem free allocated) {b : Nat}
include h

/-- Nothing changes as long as the words of the blocks do not. -/
theorem congr (hmem : ∀ b ∈ mp.blocks, load32 mem' b = load32 mem b) :
    Partition x mp mem' free allocated := by
  refine ⟨?_, h.count, h.blocks, ?_⟩
  · apply h.linked.congr
    intro b hb
    unfold next
    rw [hmem b (h.blocks.mem_iff.mp (mem_append_left _ hb))]
  · intro b hb
    rw [hmem _ (h.blocks.mem_iff.mp (mem_append_right _ (mem_map_of_mem hb)))]
    exact h.owner b hb

theorem nodup : (free ++ allocated.map (· - 4)).Nodup := h.blocks.nodup_iff.mpr mp.nodup_blocks

theorem free_mem (hb : b ∈ free) :
    b ∈ mp.blocks := h.blocks.mem_iff.mp (mem_append_left _ hb)

theorem allocated_mem (hb : b ∈ allocated) :
    b - 4 ∈ mp.blocks := h.blocks.mem_iff.mp (mem_append_right _ (mem_map_of_mem hb))

end

/-- A store to the word of one block leaves the words of the others. -/
theorem load_store {b c v : Nat} (hb : b ∈ mp.blocks) (hc : c ∈ mp.blocks)
    (hne : c ≠ b) : load32 (store32 mem b v) c = load32 mem c := by
  apply load32_store32_of_disjoint
  have hapart := RtMempool.block_apart hb hc hne.symm
  omega

theorem take (hlaid : mp.Laid) (h : Partition x mp mem free allocated) (hx : x < 2 ^ 32)
    (hcount : mp.blockFreeCount ≠ 0) : mp.blockList ≠ 0 ∧ ∃ rest, free = mp.blockList :: rest ∧
      add32 mp.blockList 4 = mp.blockList + 4 ∧
      Partition x
        { mp with
          blockFreeCount := mp.blockFreeCount - 1, blockList := load32 mem mp.blockList }
        (store32 mem mp.blockList x) rest ((mp.blockList + 4) :: allocated) := by
  have hlinked := h.linked
  obtain ⟨b, rest, rfl⟩ : ∃ b rest, free = b :: rest := by
    apply exists_cons_of_length_pos
    rw [← h.count]
    omega
  have hb := hlaid.block_bounds (h.free_mem (.head _))
  have hnodup := h.nodup
  rw [cons_append, nodup_cons, mem_append, not_or] at hnodup
  obtain ⟨⟨hrest, hall⟩, -⟩ := hnodup
  obtain ⟨hfirst, hlinked⟩ := hlinked
  have hnull : mp.blockList ≠ 0 := by
    intro hnull
    rw [pointer, if_pos hnull] at hfirst
    cases hfirst
  rw [pointer, if_neg hnull] at hfirst
  cases hfirst
  have hsize := hlaid.blockSize
  have hbound := hlaid.bound
  refine ⟨hnull, rest, rfl, add32_eq (by omega), ?_, ?_, ?_, ?_⟩
  · apply hlinked.congr
    intro c hc
    unfold next
    rw [load_store (h.free_mem (.head _)) (h.free_mem (.tail _ hc))]
    rintro rfl
    exact hrest hc
  · have hlength := h.count
    rw [length_cons] at hlength
    simp only
    omega
  · rw [map_cons, Nat.add_sub_cancel]
    exact perm_middle.trans h.blocks
  · intro c hc
    rcases mem_cons.mp hc with rfl | hc
    · rw [Nat.add_sub_cancel]
      exact load32_store32 hx
    · rw [load_store (h.free_mem (.head _)) (h.allocated_mem hc)]
      · exact h.owner c hc
      · intro heq
        exact hall (heq ▸ mem_map_of_mem hc)

/-- An allocated block is put in front of the free list. -/
theorem give (hlaid : mp.Laid) (h : Partition x mp mem free allocated) {block : Nat}
    (hblock : block ∈ allocated) : Partition x
      { mp with blockFreeCount := add32 mp.blockFreeCount 1, blockList := block - 4 }
      (store32 mem (block - 4) mp.blockList) ((block - 4) :: free) (allocated.erase block) := by
  have hmem := h.allocated_mem hblock
  have hbounds := hlaid.block_bounds hmem
  have hstart := hlaid.start
  have hbound := hlaid.bound
  obtain ⟨hnodup₁, hnodup₂, hdisj⟩ := nodup_append.mp h.nodup
  have hnot : block - 4 ∉ free := fun hf =>
    hdisj (block - 4) hf (block - 4) (mem_map_of_mem hblock) rfl
  have hlist : mp.blockList < 2 ^ 32 := by
    by_cases hnull : mp.blockList = 0
    · omega
    · have hlinked := h.linked
      rw [pointer, if_neg hnull] at hlinked
      obtain ⟨rest, rfl, -⟩ := hlinked.pop
      have hfirst := hlaid.block_bounds (h.free_mem (.head _))
      omega
  have hlength : free.length + (allocated.map (· - 4)).length = mp.blockTotalCount := by
    have hperm := h.blocks.length_eq
    simp only [length_append, RtMempool.blocks, length_map, length_range] at hperm ⊢
    exact hperm
  have htotal : mp.blockTotalCount < 2 ^ 32 := by
    have hfits := hlaid.fits
    have hpos : 0 < mp.blockSize + 4 := by omega
    have hmul := Nat.le_mul_of_pos_right mp.blockTotalCount hpos
    omega
  have hperm : (allocated.map (· - 4)).Perm ((block - 4) :: (allocated.erase block).map (· - 4)) :=
    (perm_cons_erase hblock).map _
  refine ⟨⟨?_, ?_⟩, ?_, ?_, ?_⟩
  · have hne : block - 4 ≠ 0 := by omega
    exact if_neg hne
  · have hself : next (store32 mem (block - 4) mp.blockList) (block - 4) = pointer mp.blockList := by
      rw [next, load32_store32 hlist]
    rw [hself]
    apply h.linked.congr
    intro c hc
    unfold next
    rw [load_store hmem (h.free_mem hc)]
    rintro rfl
    exact hnot hc
  · have hcount := h.count
    rw [length_map] at hlength
    have hpos := length_pos_of_mem hblock
    have hsum : mp.blockFreeCount + 1 < 2 ^ 32 := by omega
    rw [length_cons, add32_eq hsum, hcount]
  · exact (perm_middle.symm.trans (hperm.symm.append_left free)).trans h.blocks
  · intro c hc
    have hc' := mem_of_mem_erase hc
    rw [load_store hmem (h.allocated_mem hc')]
    · exact h.owner c hc'
    · intro heq
      have hnodup := hperm.nodup_iff.mp hnodup₂
      exact (nodup_cons.mp hnodup).1 (heq ▸ mem_map_of_mem hc)

end Partition

/-- The words of the first blocks, each pointing to the next block. -/
theorem linkBlocks_spec (mem : Nat → UInt8) (start blockSize : Nat) {n : Nat} (hn : start + n * (blockSize + 4) ≤ 2 ^ 32)
    (hb : blockSize + 4 < 2 ^ 32) (hpos : 0 < blockSize) :
    (∀ i < n, load32 (linkBlocks mem start blockSize n) (start + i * (blockSize + 4)) =
      (start + (i + 1) * (blockSize + 4)) % 2 ^ 32) ∧
    ∀ a, a < start ∨ start + n * (blockSize + 4) ≤ a → linkBlocks mem start blockSize n a = mem a := by
  have hptr : ∀ i, blockPtr start blockSize i = (start + i * (blockSize + 4)) % 2 ^ 32 := by
    intro i
    rw [blockPtr, add32_eq hb]
  induction n with
  | zero => exact ⟨nofun, fun _ _ => rfl⟩
  | succ n ih =>
    rw [succ_mul] at hn
    obtain ⟨hlinks, hout⟩ := ih (by omega)
    have haddr : blockPtr start blockSize n = start + n * (blockSize + 4) := by
      rw [hptr, Nat.mod_eq_of_lt]
      omega
    refine ⟨?_, ?_⟩
    · intro i hi
      rw [linkBlocks, haddr, hptr]
      rcases Nat.lt_succ_iff_lt_or_eq.mp hi with hlt | rfl
      · have hle := mul_le_mul_right (blockSize + 4) (Nat.succ_le_of_lt hlt)
        rw [succ_mul] at hle
        rw [load32_store32_of_disjoint (.inr (by omega))]
        exact hlinks i hlt
      · exact load32_store32 (Nat.mod_lt _ (by decide))
    · intro a ha
      rw [succ_mul] at ha
      rw [linkBlocks, haddr, store32, if_neg (by omega), if_neg (by omega), if_neg (by omega),
        if_neg (by omega)]
      exact hout a (by omega)

theorem linked_blocks {i n : Nat} (hlaid : mp.Laid) (hn : i + n = mp.blockTotalCount)
    (hnext : ∀ j, j + 1 < mp.blockTotalCount → load32 mem (mp.block j) = mp.block (j + 1))
    (hlast : ∀ j, j + 1 = mp.blockTotalCount → load32 mem (mp.block j) = 0) {p : Nat}
    (hp : p = if n = 0 then 0 else mp.block i) :
    Linked (next mem) (pointer p) ((List.range' i n).map mp.block) := by
  induction n generalizing i p with
  | zero => exact if_pos hp
  | succ n ih =>
    rw [if_neg (Nat.succ_ne_zero n)] at hp
    subst hp
    have hstart := hlaid.start
    refine ⟨if_neg (by unfold RtMempool.block; omega), ?_⟩
    apply ih
    · omega
    · by_cases h0 : n = 0
      · rw [if_pos h0]
        exact hlast i (by omega)
      · rw [if_neg h0]
        exact hnext i (by omega)

/-- What `rt_mp_init` makes of a memory with room for a block. -/
theorem rtMpInit_spec {start size blockSize : Nat} (hroom : HasRoom start size blockSize)
    (h : rtMpInit mem start size blockSize = some (mem', mp)) (x : Nat) :
    mp.Laid ∧ Partition x mp mem' mp.blocks [] ∧
      ∀ a, a < mp.startAddress ∨ mp.startAddress + mp.size ≤ a → mem' a = mem a := by
  obtain ⟨hbound, hfit⟩ := hroom
  unfold rtMpInit at h
  split_ifs at h with hassert
  have hsize : rtAlignDown size = size / 4 * 4 := rtAlignDown_eq (by omega)
  have hblock : rtAlign blockSize = (blockSize + 3) / 4 * 4 := by
    rw [rtAlign_eq, Nat.mod_eq_of_lt]
    omega
  obtain ⟨bs, hbs⟩ : ∃ bs, bs = (blockSize + 3) / 4 * 4 := ⟨_, rfl⟩
  obtain ⟨total, htotal⟩ : ∃ total, total = size / 4 * 4 / (bs + 4) := ⟨_, rfl⟩
  have hadd : add32 bs 4 = bs + 4 := add32_eq (by omega)
  have hpos : 0 < total := by
    rw [htotal]
    exact Nat.div_pos (by omega) (by omega)
  have hfits : total * (bs + 4) ≤ size / 4 * 4 := htotal ▸ Nat.div_mul_le_self _ _
  simp only [hsize, hblock, ← hbs, hadd, ← htotal] at h
  obtain ⟨rfl, rfl⟩ := Prod.mk.inj (some.inj h)
  have hlt : total < 2 ^ 32 := by
    have hmul := Nat.le_mul_of_pos_right total (show 0 < bs + 4 by omega)
    omega
  have hlast : blockPtr start bs (sub32 total 1) = start + (total - 1) * (bs + 4) := by
    have hmul : (total - 1) * (bs + 4) + (bs + 4) = total * (bs + 4) := by
      rw [← succ_mul]
      congr 1
      omega
    rw [blockPtr, hadd, sub32_eq (show 1 ≤ total from hpos) hlt, Nat.mod_eq_of_lt]
    omega
  rw [hlast]
  have hlaid : RtMempool.Laid
      { startAddress := start, size := size / 4 * 4, blockSize := bs, blockList := start
        blockTotalCount := total, blockFreeCount := total } := by
    refine ⟨?_, ?_, hfits, ?_⟩
    all_goals
      simp only
      omega
  obtain ⟨hlinks, hout⟩ := linkBlocks_spec mem start bs (n := total) (by omega) (by omega) (by omega)
  have hmul : ∀ i, i < total → i * (bs + 4) + (bs + 4) ≤ total * (bs + 4) := by
    intro i hi
    rw [← succ_mul]
    exact mul_le_mul_right _ hi
  refine ⟨hlaid, ⟨?_, ?_, ?_, nofun⟩, ?_⟩
  · rw [RtMempool.blocks, range_eq_range']
    apply linked_blocks hlaid
    · exact Nat.zero_add _
    · intro j hj
      have hj₂ := hmul (j + 1) hj
      have hlow : (j + 1) * (bs + 4) ≤ (total - 1) * (bs + 4) :=
        mul_le_mul_right _ (by simp only at hj; omega)
      rw [succ_mul] at hlow
      unfold RtMempool.block
      rw [load32_store32_of_disjoint (.inr (by simp only; omega)), hlinks j (by simp only at hj; omega),
        Nat.mod_eq_of_lt]
      omega
    · intro j hj
      have hjt : total - 1 = j := by
        simp only at hj
        omega
      rw [hjt]
      exact load32_store32 (by decide)
    · rw [if_neg (by simp only; omega), RtMempool.block]
      simp
  · simp [RtMempool.blocks]
  · rw [map_nil, append_nil]
  · intro a ha
    have hl := hmul (total - 1) (by omega)
    simp only at ha
    rw [store32, if_neg (by omega), if_neg (by omega), if_neg (by omega), if_neg (by omega)]
    exact hout a (by omega)

end

namespace Sys

variable {τ : Type*} [DecidableEq τ] {s s' : Sys τ}

/-- The invariant of a run. -/
structure Good (s : Sys τ) : Prop where
  address : ∀ x ∈ s.pools, x < 2 ^ 32
  laid : ∀ x ∈ s.pools, (s.pool x).Laid
  apart : ∀ x ∈ s.pools, ∀ y ∈ s.pools, x ≠ y → Apart (s.pool x) (s.pool y)
  part : ∀ x ∈ s.pools, ∃ free, Partition x (s.pool x) s.mem free (s.allocated x)
  unused : ∀ x ∉ s.pools, s.allocated x = []
  call : ∀ t x time, s.call t = some (.waiting x time) → x ∈ s.pools

section

omit [DecidableEq τ]

theorem Good.callers (h : s.Good) {c : Callers τ Nat Call}
    (hcall : ∀ t x time, c.call t = some (.waiting x time) → x ∈ s.pools) :
    Good { s with toCallers := c } :=
  ⟨h.address, h.laid, h.apart, h.part, h.unused, hcall⟩

/-- A store inside a block of one pool leaves the words of the other pools. -/
theorem Good.other_block (h : s.Good) {x y : Nat} (hx : x ∈ s.pools) (hy : y ∈ s.pools) (hne : x ≠ y)
    {b c : Nat} (hb : b ∈ (s.pool x).blocks) (hc : c ∈ (s.pool y).blocks) :
    b + ((s.pool x).blockSize + 4) ≤ c ∨ c + 4 ≤ b := by
  have hbx := (h.laid x hx).block_bounds hb
  have hcy := (h.laid y hy).block_bounds hc
  rcases h.apart x hx y hy hne with hle | hle
  · omega
  · omega

theorem Good.update (h : s.Good) {x : Nat} (hx : x ∈ s.pools) {count list b v : Nat}
    {free allocated : List Nat} (hb : b ∈ (s.pool x).blocks)
    (hpart : Partition x { s.pool x with blockFreeCount := count, blockList := list }
      (store32 s.mem b v) free allocated) :
    Good { s with
      mem := store32 s.mem b v
      pool := Function.update s.pool x
        { s.pool x with blockFreeCount := count, blockList := list }
      allocated := Function.update s.allocated x allocated } := by
  obtain ⟨mp, hmp⟩ : ∃ mp, mp = { s.pool x with blockFreeCount := count, blockList := list } :=
    ⟨_, rfl⟩
  have hsame : ∀ y, (Function.update s.pool x mp y).startAddress = (s.pool y).startAddress ∧
      (Function.update s.pool x mp y).size = (s.pool y).size := by
    intro y
    by_cases hy : y = x
    · rw [hy, Function.update_self, hmp]
      exact ⟨rfl, rfl⟩
    · rw [Function.update_of_ne hy]
      exact ⟨rfl, rfl⟩
  rw [← hmp] at hpart ⊢
  refine ⟨h.address, ?_, ?_, ?_, ?_, h.call⟩
  · intro y hy
    by_cases hyx : y = x
    · simp only [hyx, Function.update_self]
      have hlaid := h.laid x hx
      rw [hmp]
      exact ⟨hlaid.start, hlaid.blockSize, hlaid.fits, hlaid.bound⟩
    · simp only [Function.update_of_ne hyx]
      exact h.laid y hy
  · intro y hy z hz hne
    have hapart := h.apart y hy z hz hne
    unfold Apart at hapart ⊢
    simp only [hsame]
    exact hapart
  · intro y hy
    by_cases hyx : y = x
    · simp only [hyx, Function.update_self]
      exact ⟨free, hpart⟩
    · simp only [Function.update_of_ne hyx]
      obtain ⟨rest, hrest⟩ := h.part y hy
      refine ⟨rest, hrest.congr ?_⟩
      intro c hc
      apply load32_store32_of_disjoint
      have hother := h.other_block hx hy (Ne.symm hyx) hb hc
      omega
  · intro y hy
    have hyx : y ≠ x := fun he => hy (he ▸ hx)
    simp only [Function.update_of_ne hyx]
    exact h.unused y hy

/-- What is left of a pool when a part of a call finds no block. -/
theorem store_same (s : Sys τ) (x : Nat) {result : Result} (h : result = .returns 0 ∨ result = .waits) :
    s.store x s.mem (s.pool x) result = s := by
  unfold store
  rw [Function.update_eq_self]
  rcases h with rfl | rfl
  · rfl
  · rfl

end

section

variable (h : s.Good) {x : Nat} {mem : Nat → UInt8} {mp : RtMempool}
include h

/-- A part of `rt_mp_alloc` finds no block, or takes the first one. -/
theorem Good.alloc (hx : x ∈ s.pools) {time : Int} {k k' : Kernel τ Nat} {result : Result}
    (hk : rtMpAlloc k s.mem (s.pool x) x time = some (k', mem, mp, result)) :
    (s.store x mem mp result).Good := by
  unfold rtMpAlloc at hk
  by_cases hcount : (s.pool x).blockFreeCount = 0
  · rw [if_pos hcount] at hk
    have hsame : mem = s.mem ∧ mp = s.pool x ∧ (result = .returns 0 ∨ result = .waits) := by
      split_ifs at hk
      · cases hk
        exact ⟨rfl, rfl, .inl rfl⟩
      · cases hk
        exact ⟨rfl, rfl, .inr rfl⟩
    obtain ⟨rfl, rfl, hresult⟩ := hsame
    rw [store_same s x hresult]
    exact h
  · obtain ⟨free, hpart⟩ := h.part x hx
    obtain ⟨hnull, rest, hfree, hadd, htake⟩ := hpart.take (h.laid x hx) (h.address x hx) hcount
    rw [if_neg hcount] at hk
    simp only [if_neg hnull] at hk
    cases hk
    have hblock : add32 (s.pool x).blockList 4 ≠ 0 := by
      rw [hadd]
      exact Nat.succ_ne_zero _
    have hmem : (s.pool x).blockList ∈ (s.pool x).blocks :=
      hpart.free_mem (hfree ▸ mem_cons_self)
    unfold store
    rw [hadd]
    exact h.update hx hmem htake

theorem Good.finish (hx : x ∈ s.pools) (time : Int) (k : Kernel τ Nat)
    (result : Result) : (s.finish x time k result).Good := by
  apply h.callers
  intro t y time' hc
  by_cases ht : t = k.current
  · simp only [Callers.enter, ht, Function.update_self] at hc
    split_ifs at hc
    cases hc
    exact hx
  · simp only [Callers.enter, Function.update_of_ne ht] at hc
    exact h.call t y time' hc

/-- An allocated block is given back to the pool it points to. -/
theorem Good.free {x block : Nat} (hx : x ∈ s.pools) (hblock : block ∈ s.allocated x)
    (k : Kernel τ Nat) : Good { s with
      mem := (rtMpFree k s.mem s.pool block).2.1
      pool := (rtMpFree k s.mem s.pool block).2.2
      allocated := Function.update s.allocated x ((s.allocated x).erase block) } := by
  obtain ⟨free, hpart⟩ := h.part x hx
  have hmem := hpart.allocated_mem hblock
  have hbounds := (h.laid x hx).block_bounds hmem
  have hlaid := h.laid x hx
  have hstart := hlaid.start
  have hsize := hlaid.blockSize
  have hbound := hlaid.bound
  have hnull : block ≠ 0 := by omega
  have hsub : sub32 block 4 = block - 4 := sub32_eq (by omega) (by omega)
  have hgood := h.update hx hmem (hpart.give hlaid hblock)
  have hfree : (rtMpFree k s.mem s.pool block).2 =
      (store32 s.mem (block - 4) (s.pool x).blockList, Function.update s.pool x
        { s.pool x with
          blockFreeCount := add32 (s.pool x).blockFreeCount 1, blockList := block - 4 }) := by
    unfold rtMpFree
    rw [if_neg hnull]
    simp only [hsub, hpart.owner block hblock]
    cases k.wait x with
    | nil => rfl
    | cons thread rest => rfl
  rw [hfree]
  exact hgood

omit [DecidableEq τ] in
theorem Good.init {x start size blockSize : Nat} (hx : x < 2 ^ 32) (hnew : x ∉ s.pools)
    (hroom : HasRoom start size blockSize)
    (hinit : rtMpInit s.mem start size blockSize = some (mem, mp))
    (hapart : ∀ y ∈ s.pools, Apart mp (s.pool y)) :
    Good { s with mem := mem, pool := Function.update s.pool x mp, pools := x :: s.pools } := by
  obtain ⟨hlaid, hpart, hout⟩ := rtMpInit_spec hroom hinit x
  have hne : ∀ y ∈ s.pools, y ≠ x := fun y hy he => hnew (he ▸ hy)
  refine ⟨?_, ?_, ?_, ?_, ?_, ?_⟩
  · intro y hy
    rcases mem_cons.mp hy with rfl | hy
    · exact hx
    · exact h.address y hy
  · intro y hy
    rcases mem_cons.mp hy with rfl | hy
    · simp only [Function.update_self]
      exact hlaid
    · simp only [Function.update_of_ne (hne y hy)]
      exact h.laid y hy
  · intro y hy z hz hyz
    rcases mem_cons.mp hy with hy' | hy' <;> rcases mem_cons.mp hz with hz' | hz'
    · exact absurd (hy'.trans hz'.symm) hyz
    · simp only [hy', Function.update_self, Function.update_of_ne (hne z hz')]
      exact hapart z hz'
    · simp only [hz', Function.update_self, Function.update_of_ne (hne y hy')]
      exact (hapart y hy').symm
    · simp only [Function.update_of_ne (hne y hy'), Function.update_of_ne (hne z hz')]
      exact h.apart y hy' z hz' hyz
  · intro y hy
    rcases mem_cons.mp hy with rfl | hy
    · simp only [Function.update_self, h.unused y hnew]
      exact ⟨mp.blocks, hpart⟩
    · simp only [Function.update_of_ne (hne y hy)]
      obtain ⟨free, hfree⟩ := h.part y hy
      refine ⟨free, hfree.congr ?_⟩
      intro b hb
      have hbounds := (h.laid y hy).block_bounds hb
      have hdisj := hapart y hy
      apply load32_congr
      intro a hba hab
      apply hout
      unfold Apart at hdisj
      omega
  · intro y hy
    exact h.unused y fun hc => hy (mem_cons_of_mem x hc)
  · intro t y time hc
    exact mem_cons_of_mem x (h.call t y time hc)

omit [DecidableEq τ] in
/-- Whoever has a block writes in it and nowhere else. -/
theorem Good.write {x block address : Nat} (hx : x ∈ s.pools)
    (hblock : block ∈ s.allocated x) (hlow : block ≤ address)
    (hhigh : address < block + (s.pool x).blockSize) (value : UInt8) :
    Good { s with mem := store8 s.mem address value } := by
  obtain ⟨free, hpart⟩ := h.part x hx
  have hmem := hpart.allocated_mem hblock
  have hbounds := (h.laid x hx).block_bounds hmem
  have hstart := (h.laid x hx).start
  refine ⟨h.address, h.laid, h.apart, ?_, h.unused, h.call⟩
  intro y hy
  obtain ⟨rest, hrest⟩ := h.part y hy
  refine ⟨rest, hrest.congr ?_⟩
  intro c hc
  apply load32_store8_of_disjoint
  by_cases hxy : x = y
  · subst hxy
    by_cases hcb : c = block - 4
    · omega
    · have hother := RtMempool.block_apart hmem hc (Ne.symm hcb)
      omega
  · have hother := h.other_block hx hy hxy hmem hc
    omega

theorem Good.step {a : Act τ} (hstep : Step s a s') : s'.Good := by
  cases a with
  | init x start size blockSize =>
    simp only [Step, exec] at hstep
    split_ifs at hstep with hcond
    obtain ⟨⟨mem, mp⟩, hinit, hstep⟩ := bind_eq_some_iff.mp hstep
    split_ifs at hstep with hapart
    cases hstep
    exact (h.init hcond.1 hcond.2.1 hcond.2.2 hinit hapart).callers
      fun t y time hc => mem_cons_of_mem x (h.call t y time hc)
  | alloc x time =>
    simp only [Step, exec] at hstep
    split_ifs at hstep with hcond
    obtain ⟨⟨k, mem, mp, result⟩, hk, rfl⟩ := map_eq_some_iff.mp hstep
    exact (h.alloc hcond.2 hk).finish hcond.2 time k result
  | go left =>
    simp only [Step, exec] at hstep
    cases hc : s.call s.kernel.current with
    | none =>
      rw [hc] at hstep
      cases hstep
    | some c =>
      obtain ⟨x, time⟩ := c
      have hx := h.call _ _ _ hc
      rw [hc] at hstep
      split_ifs at hstep with herror
      · cases hstep
        exact h.finish hx time s.kernel (.returns 0)
      · obtain ⟨⟨k, mem, mp, result⟩, hk, rfl⟩ := map_eq_some_iff.mp hstep
        exact (h.alloc hx hk).finish hx _ k result
  | isrAlloc x =>
    simp only [Step, exec] at hstep
    split_ifs at hstep with hx
    obtain ⟨⟨k, mem, mp, result⟩, hk, rfl⟩ := map_eq_some_iff.mp hstep
    exact h.alloc hx hk
  | free x block =>
    simp only [Step, exec] at hstep
    split_ifs at hstep with hcond
    cases hstep
    exact (h.free hcond.1 hcond.2 s.kernel).callers h.call
  | write x block address value =>
    simp only [Step, exec] at hstep
    split_ifs at hstep with hcond
    cases hstep
    exact h.write hcond.1 hcond.2.1 hcond.2.2.1 hcond.2.2.2 value
  | timeout t =>
    obtain ⟨c, hc, rfl⟩ := map_eq_some_iff.mp hstep
    obtain ⟨k, -, rfl⟩ := Callers.timeout_cases hc
    exact h.callers h.call
  | other k =>
    cases hstep
    exact h.callers h.call

end

omit [DecidableEq τ] in
theorem Initial.good (h : s.Initial) : s.Good := by
  have hnot : ∀ x, x ∉ s.pools := by
    intro x hx
    rw [h.pools] at hx
    cases hx
  refine ⟨?_, ?_, ?_, ?_, ?_, ?_⟩
  · exact fun x hx => absurd hx (hnot x)
  · exact fun x hx => absurd hx (hnot x)
  · exact fun x hx => absurd hx (hnot x)
  · exact fun x hx => absurd hx (hnot x)
  · exact fun x _ => h.allocated x
  · intro t x time hc
    cases (h.call t).symm.trans hc

theorem reachable_good (h : Reachable Initial Step s) : s.Good :=
  h.induct (·.good) (·.step)

/-- The free list of a pool and its allocated blocks. -/
structure Divided (s : Sys τ) (x : Nat) (free : List Nat) : Prop where
  /-- Following the links from `block_list` visits the free blocks and ends. -/
  linked : Linked (next s.mem) (pointer (s.pool x).blockList) free
  nodup : free.Nodup
  count : free.length = (s.pool x).blockFreeCount
  blocks : ∀ b ∈ free, b ∈ (s.pool x).blocks
  allocated : ∀ b ∈ s.allocated x, b - 4 ∈ (s.pool x).blocks ∧ b - 4 ∉ free
  once : (s.allocated x).Nodup
  total : free.length + (s.allocated x).length = (s.pool x).blockTotalCount
  owner : ∀ b ∈ s.allocated x, load32 s.mem (b - 4) = x

/-- No pool yet. -/
def start : Sys (Fin 2) :=
  { kernel := boot (fun t => 5 * t + 5) 1 []
    call := fun _ => none, mem := fun _ => 0
    pool := fun _ =>
      { startAddress := 0, size := 0, blockSize := 0, blockList := 0, blockTotalCount := 0
        blockFreeCount := 0 }
    pools := [], allocated := fun _ => [] }

/-- Three blocks in 43 bytes of memory, of which a thread takes two and gives one back while the
other is written. -/
def threeBlocks : List (Act (Fin 2)) :=
  [.init 16 4096 43 7, .alloc 16 0, .isrAlloc 16, .write 16 4112 4119 255, .free 16 4100]

/-- In every run each block of a pool is free or allocated, and none is allocated twice. -/
theorem reachable_divided (s : Sys τ) (h : Reachable Initial Step s) (x : Nat) (hx : x ∈ s.pools) :
    (∃ free, s.Divided x free) ∧
      ∀ a s' b, Step s a s' → s'.allocated x = b :: s.allocated x → b ∉ s.allocated x := by
  have hdivided : ∀ s : Sys τ, Reachable Initial Step s → x ∈ s.pools → ∃ free, s.Divided x free := by
    intro s h hx
    obtain ⟨free, hpart⟩ := (reachable_good h).part x hx
    obtain ⟨hfree, hall, hdisj⟩ := List.nodup_append.mp hpart.nodup
    have hlength := hpart.blocks.length_eq
    simp only [List.length_append, List.length_map, RtMempool.blocks, List.length_range] at hlength
    refine ⟨free, hpart.linked, hfree, hpart.count.symm, fun b hb => hpart.free_mem hb, ?_,
      hall.of_map _, hlength, hpart.owner⟩
    intro b hb
    exact ⟨hpart.allocated_mem hb, fun hf => hdisj _ hf _ (List.mem_map_of_mem hb) rfl⟩
  refine ⟨hdivided s h hx, ?_⟩
  intro a s' b hstep hb
  have hx' : x ∈ s'.pools := by
    by_contra hnot
    have hunused := (reachable_good (h.next hstep)).unused x hnot
    rw [hunused] at hb
    cases hb
  obtain ⟨free, hdiv⟩ := hdivided s' (h.next hstep) hx'
  have honce := hdiv.once
  rw [hb] at honce
  exact (List.nodup_cons.mp honce).1

/-- One block is allocated, and the other two are free. -/
theorem reachable_divided_three : ∃ s : Sys (Fin 2), s.allocated 16 = [4112] ∧
    (s.pool 16).blockFreeCount = 2 ∧ (∃ free, s.Divided 16 free) ∧
      ∀ a s' b, Step s a s' → s'.allocated 16 = b :: s.allocated 16 → b ∉ s.allocated 16 := by
  have hrun : ∃ s ∈ runAll exec start threeBlocks, s.allocated 16 = [4112] ∧
      (s.pool 16).blockFreeCount = 2 ∧ s.pools = [16] := by decide +kernel
  have hstart : start.Initial := ⟨rfl, fun _ => rfl, fun _ => rfl⟩
  obtain ⟨s, hreach, hall, hcount, hpools⟩ := Reachable.of_runAll hstart hrun
  have hmem : 16 ∈ s.pools := by
    rw [hpools]
    exact List.mem_cons_self
  exact ⟨s, hall, hcount, reachable_divided s hreach 16 hmem⟩

end Sys

end RtKernel.MemPool

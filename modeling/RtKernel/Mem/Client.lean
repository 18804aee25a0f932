import RtKernel.Mem.Reallocate
import RtKernel.Core.Run

/-!
# Clients of the heap

A client keeps the addresses it was granted and has not given back, calls the
heap only with these, and stores only into the blocks they name. Whatever it
calls in whatever order, the call returns and the heap stays well formed.
-/

open Option (map_some)

namespace RtKernel.Mem

open RtSmallMem

/-- A heap and the addresses of the blocks that are live. -/
structure Client where
  heap : RtSmallMem
  live : List Nat

inductive Call
  | alloc (size : UInt32)
  | realloc (rmem : Nat) (newsize : UInt32)
  | free (rmem : Nat)
  /-- A store of the client into word `k` of its block. -/
  | store (rmem k v : Nat)

namespace Client

/-- A pointer that may be given back: `RT_NULL` or a live block. -/
def Owns (c : Client) (rmem : Nat) : Prop := rmem = 0 ∨ rmem ∈ c.live

/-- The bytes of the block at `rmem`. -/
def blockSize (c : Client) (rmem : Nat) : Nat :=
  c.heap.next (itemOf c.heap rmem) - itemOf c.heap rmem - sizeofStructMem

/-- The calls a client may make. -/
def Legal (c : Client) : Call → Prop
  | .alloc _ => True
  | .realloc rmem _ => c.Owns rmem
  | .free rmem => c.Owns rmem
  | .store rmem k _ => rmem ∈ c.live ∧ 4 * k + 4 ≤ c.blockSize rmem

/-- Keep the address returned, unless it is `RT_NULL`. -/
def keep (live : List Nat) (rmem : Nat) : List Nat := if rmem = 0 then live else rmem :: live

/-- Forget an address. -/
def drop (live : List Nat) (rmem : Nat) : List Nat := live.filter (· ≠ rmem)

/-- One call. There is no result where an assertion fails or the call does not return. -/
def exec (c : Client) : Call → Option Client
  | .alloc size => (rtSmemAlloc c.heap size).map fun r => ⟨r.1, keep c.live r.2⟩
  | .realloc rmem newsize => (rtSmemRealloc c.heap rmem newsize).map fun r =>
      -- a refused request leaves the block live
      if r.2 = 0 ∧ rtAlign newsize.toNat ≠ 0 then ⟨r.1, c.live⟩ else ⟨r.1, keep (drop c.live rmem) r.2⟩
  | .free rmem => (rtSmemFree c.heap rmem).map fun m => ⟨m, drop c.live rmem⟩
  | .store rmem k v => some
      { c with heap := c.heap.setWord (itemOf c.heap rmem + sizeofStructMem + 4 * k) v }

/-- A heap just made by `rt_smem_init`, which returned it. -/
def Initial (c : Client) : Prop :=
  c.live = [] ∧ c.heap.addr ≠ 0 ∧
    ∃ word beginAddr size, rtSmemInit word beginAddr size = some c.heap

/-- A legal call that returns. -/
def Step (c : Client) (call : Call) (c' : Client) : Prop := c.Legal call ∧ c.exec call = some c'

/-- The heap is settled and every live address is that of a used item. -/
structure Inv (c : Client) (items : Set Nat) : Prop where
  settled : Settled c.heap items
  addr : c.heap.addr ≠ 0
  blocks : ∀ a ∈ c.live, ∃ p, Block c.heap items a p

end Client

variable {m : RtSmallMem} {items : Set Nat}

theorem layOut_spec (h : m.memSizeAligned + 12 < 2 ^ 32) :
    (layOut m).addr = m.addr ∧ (layOut m).heapPtr = m.heapPtr ∧
      (layOut m).heapEnd = m.memSizeAligned + 12 ∧
      (layOut m).memSizeAligned = m.memSizeAligned ∧ (layOut m).lfree = 0 ∧
      (layOut m).poolPtr 0 = m.memFreed ∧ (layOut m).next 0 = m.memSizeAligned + 12 ∧
      (layOut m).prev 0 = 0 ∧ (layOut m).poolPtr (m.memSizeAligned + 12) = m.memUsed := by
  have hend : add32 m.memSizeAligned sizeofStructMem = m.memSizeAligned + 12 :=
    add32_eq (by rw [sizeofStructMem]; omega)
  have hfirst : ∀ v w, (((m.setPoolPtr 0 v).setNext 0 (m.memSizeAligned + 12)).setPrev 0 w).next 0 =
      m.memSizeAligned + 12 := fun _ _ => rfl
  simp only [layOut, setPoolPtr, setNext, setPrev, setWord_memSizeAligned, hend] at hfirst ⊢
  rw [hfirst]
  refine ⟨?_, ?_, ?_, trivial, trivial, ?_, ?_, ?_, ?_⟩
  · simp only [setWord_addr]
  · simp only [setWord_heapPtr]
  · simp only [setWord_heapEnd]
  · simp [poolPtr, setWord_word]
  · simp [next, setWord_word]
  · simp [prev, setWord_word]
  · simp [poolPtr, setWord_word, memUsed]

section

variable {word : Nat → Nat} {beginAddr size : UInt32} (h : rtSmemInit word beginAddr size = some m)
include h

/-- Where `rt_smem_init` puts the heap, and what it stores there. -/
theorem rtSmemInit_region :
    Region m ∧ m.lfree = 0 ∧ m.poolPtr 0 = m.memFreed ∧ m.next 0 = m.heapEnd ∧ m.prev 0 = 0 ∧
      m.poolPtr m.heapEnd = m.memUsed := by
  have hsmall := rtAlign_eq beginAddr.toNat
  have hdown : rtAlignDown (add32 beginAddr.toNat size.toNat) =
      add32 beginAddr.toNat size.toNat / 4 * 4 := rtAlignDown_eq (add32_lt _ _)
  have hlt := add32_lt beginAddr.toNat size.toNat
  unfold rtSmemInit at h
  simp only [hdown] at h
  generalize rtAlign beginAddr.toNat = small at h hsmall
  generalize add32 beginAddr.toNat size.toNat = stop at h hlt
  have hstart : add32 small sizeofSmallMem = (small + 56) % 2 ^ 32 := rfl
  have hbegin : rtAlign ((small + 56) % 2 ^ 32) = (small + 56) % 2 ^ 32 := by
    rw [rtAlign_eq]
    omega
  rw [hstart, hbegin] at h
  generalize hstart' : (small + 56) % 2 ^ 32 = start at h
  by_cases hfit : stop / 4 * 4 > 2 * sizeofStructMem ∧
      sub32 (stop / 4 * 4) (2 * sizeofStructMem) ≥ start
  · rw [if_pos hfit] at h
    obtain ⟨hbig, hroom⟩ := hfit
    rw [sizeofStructMem] at hbig hroom
    rw [sub32_eq (by omega) (by omega)] at hroom
    have hsize : sub32 (sub32 (stop / 4 * 4) start) (2 * sizeofStructMem) =
        stop / 4 * 4 - start - 24 := by
      have : sub32 (stop / 4 * 4) start = stop / 4 * 4 - start := sub32_eq (by omega) (by omega)
      rw [this, sizeofStructMem, sub32_eq (by omega) (by omega)]
    rw [hsize] at h
    cases h
    obtain ⟨haddr, hptr, hend, hmem, hlfree, hpool, hnext, hprev, hpool'⟩ := layOut_spec (m :=
      { addr := small, heapPtr := start, heapEnd := 0, lfree := 0,
        memSizeAligned := stop / 4 * 4 - start - 24, used := 0, max := 0, word := word })
      (by simp only; omega)
    simp only at haddr hptr hend hmem hnext hpool'
    refine ⟨⟨?_, ?_, ?_, ?_, ?_, ?_⟩, hlfree, ?_, ?_, hprev, ?_⟩
    · omega
    · omega
    · omega
    · omega
    · omega
    · omega
    · rw [hpool, memFreed, memFreed, haddr]
    · rw [hnext, hend]
    · rw [hend, hpool', memUsed, memUsed, haddr]
  · rw [if_neg hfit] at h
    cases h

/-- A new heap is one free item in front of `heap_end`. -/
theorem rtSmemInit_settled : Settled m {0, m.heapEnd} := by
  obtain ⟨R, hlfree, hpool, hnext, hprev, hpool'⟩ := rtSmemInit_region h
  obtain ⟨hfreed, hused, heven, hodd⟩ := status_spec R
  have h1 := R.heapEnd
  have h2 := R.memSize
  have h0free : ¬ m.memIsUsed 0 := by
    rw [memIsUsed, Nat.and_one_is_mod]
    omega
  have hend : m.memIsUsed m.heapEnd := by
    rw [memIsUsed, Nat.and_one_is_mod]
    omega
  have hlow : ∀ p ∈ ({0, m.heapEnd} : Set Nat), p ≠ m.heapEnd → p = 0 := by
    rintro p (rfl | rfl) hpe
    · rfl
    · exact absurd rfl hpe
  have L : Layout m {0, m.heapEnd} := by
    refine ⟨.inl rfl, .inr rfl, ?_, ?_, ?_, ?_, hprev, ?_, ?_, hend⟩
    · rintro p (rfl | rfl) <;> omega
    · intro p hp hpe
      obtain rfl := hlow p hp hpe
      rw [hnext]
      exact ⟨.inr rfl, by omega⟩
    · intro p hp hpe s hs
      obtain rfl := hlow p hp hpe
      rw [hnext]
      rcases hs with rfl | rfl
      · exact .inl le_rfl
      · exact .inr le_rfl
    · intro p hp hpe hne
      obtain rfl := hlow p hp hpe
      exact absurd hnext hne
    · rintro p (rfl | rfl)
      · rw [memPool, hpool, hfreed]
      · rw [memPool, hpool', hused]
    · rintro p (rfl | rfl) <;> omega
  refine ⟨R, L, ?_, ?_, ?_, ?_⟩
  · intro p hp hpe
    obtain rfl := hlow p hp hpe
    rw [hnext]
    exact .inr hend
  · exact .inl hlfree
  · rw [hlfree]
    exact .inr h0free
  · intro p _ _
    rw [hlfree]
    exact Nat.zero_le p

end

namespace Client

theorem Initial.inv {c : Client} (h : c.Initial) : c.Inv {0, c.heap.heapEnd} := by
  obtain ⟨hlive, haddr, word, beginAddr, size, hinit⟩ := h
  refine ⟨rtSmemInit_settled hinit, haddr, ?_⟩
  intro a ha
  rw [hlive] at ha
  cases ha

variable {c : Client} {items : Set Nat}

section

variable (h : c.Inv items) {a p : Nat}
include h

theorem Inv.ne_zero {a : Nat} (ha : a ∈ c.live) : a ≠ 0 := by
  obtain ⟨p, b⟩ := h.blocks a ha
  have := b.addr
  omega

/-- The blocks that stay live after the one at `a` is gone. -/
theorem Inv.dropped {m' : RtSmallMem} {items' : Set Nat}
    (hs : Settled m' items') (hr : SameRegion c.heap m') (b : Block c.heap items a p)
    (hk : ∀ a' p', p' ≠ p → Block c.heap items a' p' →
      Block m' items' a' p' ∧ m'.next p' = c.heap.next p') : Inv ⟨m', drop c.live a⟩ items' := by
  refine ⟨hs, hr.addr ▸ h.addr, ?_⟩
  intro a' ha'
  obtain ⟨hlive, hne⟩ := List.mem_filter.mp ha'
  obtain ⟨p', b'⟩ := h.blocks a' hlive
  have hpp : p' ≠ p := by
    rintro rfl
    exact of_decide_eq_true hne (b'.addr.trans b.addr.symm)
  exact ⟨p', (hk a' p' hpp b').1⟩

theorem Inv.kept (b : Block c.heap items a p) : Inv ⟨c.heap, keep c.live a⟩ items := by
  refine ⟨h.settled, h.addr, ?_⟩
  intro a' ha'
  unfold keep at ha'
  split_ifs at ha'
  · exact h.blocks a' ha'
  · rcases List.mem_cons.mp ha' with rfl | hlive
    · exact ⟨p, b⟩
    · exact h.blocks a' hlive

theorem Inv.alloc (size : UInt32) :
    ∃ c' items', c.exec (.alloc size) = some c' ∧ Inv c' items' := by
  rcases h.settled.rtSmemAlloc size with hnone | ⟨m', items', a, p, halloc, g⟩
  · exact ⟨⟨c.heap, keep c.live 0⟩, items, by rw [exec, hnone]; rfl, h⟩
  · refine ⟨⟨m', keep c.live a⟩, items', by rw [exec, halloc]; rfl, ?_⟩
    have hinv : Inv ⟨m', c.live⟩ items' := by
      refine ⟨g.settled, g.region.addr ▸ h.addr, ?_⟩
      intro a' ha'
      obtain ⟨p', b'⟩ := h.blocks a' ha'
      have hpp : p' ≠ p := fun he => g.new a' (he ▸ b')
      exact ⟨p', (g.keeps a' p' hpp b').1⟩
    exact hinv.kept g.block

theorem Inv.free {rmem : Nat} (hown : c.Owns rmem) :
    ∃ c' items', c.exec (.free rmem) = some c' ∧ Inv c' items' := by
  rcases hown with rfl | hlive
  · refine ⟨⟨c.heap, drop c.live 0⟩, items, rfl, h.settled, h.addr, ?_⟩
    intro a ha
    exact h.blocks a (List.mem_filter.mp ha).1
  · obtain ⟨p, b⟩ := h.blocks rmem hlive
    obtain ⟨m', items', hfree, hset, hreg, hkeep⟩ := h.settled.rtSmemFree h.addr b
    exact ⟨⟨m', drop c.live rmem⟩, items', by rw [exec, hfree]; rfl, h.dropped hset hreg b hkeep⟩

end

/-- `rt_smem_realloc` of `RT_NULL` is `rt_smem_alloc`, or nothing for a request of no bytes. -/
theorem rtSmemRealloc_null (newsize : UInt32) : rtSmemRealloc m 0 newsize = some (m, 0) ∨
      rtSmemRealloc m 0 newsize = rtSmemAlloc m (UInt32.ofNat (rtAlign newsize.toNat)) := by
  unfold rtSmemRealloc
  simp only []
  split_ifs
  · exact .inl rfl
  · exact .inl rfl
  · exact .inr rfl

theorem Inv.realloc (h : c.Inv items) {rmem : Nat} (hown : c.Owns rmem) (newsize : UInt32) :
    ∃ c' items', c.exec (.realloc rmem newsize) = some c' ∧ Inv c' items' := by
  rcases hown with rfl | hlive
  · have hdrop : drop c.live 0 = c.live :=
      List.filter_eq_self.mpr fun a ha => decide_eq_true (h.ne_zero ha)
    have hkeep : keep c.live 0 = c.live := if_pos rfl
    rcases rtSmemRealloc_null (m := c.heap) newsize with hnull | hnull
    · refine ⟨c, items, ?_, h⟩
      rw [exec, hnull, hdrop, map_some, hkeep, ite_self]
    · obtain ⟨c', items', hc', hinv⟩ := h.alloc (UInt32.ofNat (rtAlign newsize.toNat))
      refine ⟨c', items', ?_, hinv⟩
      rw [← hc', exec, exec, hnull, hdrop]
      cases rtSmemAlloc c.heap (UInt32.ofNat (rtAlign newsize.toNat)) with
      | none => rfl
      | some r =>
        rw [map_some, map_some]
        split_ifs with hr
        · rw [hr.1, hkeep]
        · rfl
  · obtain ⟨p, b⟩ := h.blocks rmem hlive
    obtain ⟨r, hr, hout⟩ := h.settled.rtSmemRealloc h.addr b newsize
    have hpos := h.ne_zero hlive
    rw [exec, hr, map_some]
    cases hout with
    | refused =>
      refine ⟨_, items, rfl, ?_⟩
      split_ifs
      · exact h
      · have hself := h.dropped h.settled (.refl _) b fun _ _ _ b' => ⟨b', rfl⟩
        rwa [keep, if_pos rfl]
    | @freed m' items' hzero hset hreg hkeep =>
      refine ⟨_, items', rfl, ?_⟩
      rw [if_neg fun hc => hc.2 hzero]
      exact h.dropped hset hreg b hkeep
    | @resized m' items' _ r =>
      refine ⟨_, items', rfl, ?_⟩
      rw [if_neg fun hc => hpos hc.1]
      exact (h.dropped r.settled r.region b r.keeps).kept r.block
    | @moved m' items' _ _ _ r =>
      refine ⟨_, items', rfl, ?_⟩
      have ha' := r.block.addr
      rw [if_neg fun hc => by omega]
      exact (h.dropped r.settled r.region b r.keeps).kept r.block

theorem Inv.store (h : c.Inv items) {rmem k v : Nat} (hlegal : c.Legal (.store rmem k v)) :
    ∃ c', c.exec (.store rmem k v) = some c' ∧ Inv c' items := by
  obtain ⟨hlive, hin⟩ := hlegal
  obtain ⟨p, b⟩ := h.blocks rmem hlive
  rw [blockSize, b.itemOf h.settled.region h.settled.layout, sizeofStructMem] at hin
  have d : DataWritten c.heap (c.heap.setWord (p + 12 + 4 * k) v) p :=
    .setWord (by omega) (by omega)
  rw [exec, b.itemOf h.settled.region h.settled.layout]
  refine ⟨_, rfl, d.settled h.settled b.mem b.ne_end, h.addr, ?_⟩
  intro a' ha'
  obtain ⟨p', b'⟩ := h.blocks a' ha'
  exact ⟨p', d.block h.settled.layout b.mem b.ne_end b'⟩

/-- Every legal call returns and keeps the invariant. -/
theorem Inv.exec (h : c.Inv items) {call : Call} (hlegal : c.Legal call) :
    ∃ c' items', c.exec call = some c' ∧ Inv c' items' := by
  cases call with
  | alloc size => exact h.alloc size
  | realloc rmem newsize => exact h.realloc hlegal newsize
  | free rmem => exact h.free hlegal
  | store rmem k v =>
    obtain ⟨c', hc', hinv⟩ := h.store hlegal
    exact ⟨c', items, hc', hinv⟩

theorem reachable_inv (h : Reachable Initial Step c) : ∃ items, c.Inv items := by
  refine h.invariant (I := fun c => ∃ items, c.Inv items) ?_ ?_
  · intro c h₀
    exact ⟨_, h₀.inv⟩
  · rintro c call c' - ⟨items, hinv⟩ ⟨hlegal, hexec⟩
    obtain ⟨c'', items', hc'', hinv'⟩ := hinv.exec hlegal
    rw [hexec] at hc''
    cases hc''
    exact ⟨items', hinv'⟩

end Client

/-- The items reached from `heap_ptr` by `next`, up to `heap_end`. -/
inductive Item (m : RtSmallMem) : Nat → Prop
  | first : Item m 0
  | next {mem : Nat} (h : Item m mem) (hne : mem ≠ m.heapEnd) : Item m (m.next mem)

/-- What the heap looks like between two calls. -/
structure WellFormed (m : RtSmallMem) : Prop where
  /-- Offsets increase along `next`. -/
  increasing : ∀ mem, Item m mem → mem ≠ m.heapEnd → mem < m.next mem
  /-- The items end at `heap_end`, ... -/
  ends : Item m m.heapEnd ∧ ∀ mem, Item m mem → mem ≤ m.heapEnd
  /-- ... which lies behind the aligned size. -/
  heapEnd : m.heapEnd = m.memSizeAligned + sizeofStructMem
  /-- The first item is its own predecessor. -/
  first : m.prev 0 = 0
  /-- `prev` of the others but `heap_end` leads back. -/
  back : ∀ mem, Item m mem → mem ≠ m.heapEnd → m.next mem ≠ m.heapEnd → m.prev (m.next mem) = mem
  /-- Two neighbours are never both free. -/
  coalesced : ∀ mem, Item m mem → mem ≠ m.heapEnd → m.memIsUsed mem ∨ m.memIsUsed (m.next mem)
  /-- Every item names this heap. -/
  pool : ∀ mem, Item m mem → m.memPool mem = m.addr
  /-- `lfree` is the lowest free item, or `heap_end` when there is none. -/
  lfree : (Item m m.lfree ∧ ¬ m.memIsUsed m.lfree ∧
      ∀ mem, Item m mem → ¬ m.memIsUsed mem → m.lfree ≤ mem) ∨
    (m.lfree = m.heapEnd ∧ ∀ mem, Item m mem → m.memIsUsed mem)

/-- The items of a layout are those reached by `next`. -/
theorem Layout.item_iff (L : Layout m items) (p : Nat) :
    Item m p ↔ p ∈ items := by
  constructor
  · intro h
    induction h with
    | first => exact L.zero_mem
    | next _ hne ih => exact (L.next_mem _ ih hne).1
  · induction p using Nat.strong_induction_on with
    | _ p ih =>
      intro hp
      by_cases h0 : p = 0
      · exact h0 ▸ .first
      · obtain ⟨o, ho, hoe, rfl⟩ := L.exists_pred hp h0
        have hlt := (L.next_mem o ho hoe).2
        exact .next (ih o (by omega) ho) hoe

theorem Settled.wellFormed (h : Settled m items) : WellFormed m := by
  have L := h.layout
  refine ⟨?_, ⟨(L.item_iff _).mpr L.end_mem, ?_⟩, h.region.heapEnd, L.first, ?_, ?_, ?_, ?_⟩
  · intro p hp hpe
    have := (L.next_mem p ((L.item_iff p).mp hp) hpe).2
    omega
  · intro p hp
    exact L.le_end p ((L.item_iff p).mp hp)
  · intro p hp
    exact L.back p ((L.item_iff p).mp hp)
  · intro p hp
    exact h.coalesced p ((L.item_iff p).mp hp)
  · intro p hp
    exact L.pool p ((L.item_iff p).mp hp)
  · rcases h.lfree_free with hend | hfree
    · right
      refine ⟨hend, ?_⟩
      intro p hp
      by_contra hfree
      have hmem := (L.item_iff p).mp hp
      have hle := L.le_end p hmem
      have hlow := h.lowest p hmem hfree
      have hpe : p = m.heapEnd := by omega
      exact hfree (hpe ▸ L.end_used)
    · left
      refine ⟨(L.item_iff _).mpr h.lfree_mem, hfree, ?_⟩
      intro p hp
      exact h.lowest p ((L.item_iff p).mp hp)

namespace Client

/-- After any legal calls the heap is well formed, and every further legal call returns. -/
theorem reachable_wellFormed :
    ∀ c, Reachable Initial Step c →
      WellFormed c.heap ∧ ∀ call, c.Legal call → ∃ c', c.exec call = some c' := by
  intro c h
  obtain ⟨items, hinv⟩ := reachable_inv h
  refine ⟨hinv.settled.wellFormed, ?_⟩
  intro call hlegal
  obtain ⟨c', -, hc', -⟩ := hinv.exec hlegal
  exact ⟨c', hc'⟩

/-- Two blocks of a 1 KiB region at `0x20000000`, the first of them given back. -/
theorem reachable_wellFormed_twoBlocks :
    ∃ m c₁ c₂ c₃, rtSmemInit (fun _ => 0) 0x20000000 1024 = some m ∧
      exec ⟨m, []⟩ (.alloc 100) = some c₁ ∧ exec c₁ (.alloc 30) = some c₂ ∧
      exec c₂ (.free 0x20000044) = some c₃ ∧ c₃.live = [0x200000b4] ∧ WellFormed c₃.heap := by
  have hrun : ((rtSmemInit (fun _ => 0) 0x20000000 1024).bind fun m =>
      (exec ⟨m, []⟩ (.alloc 100)).bind fun c₁ => (exec c₁ (.alloc 30)).bind fun c₂ =>
      (exec c₂ (.free 0x20000044)).map fun c₃ =>
        (m.addr, c₂.live.elem 0x20000044, c₃.live)) = some (0x20000000, true, [0x200000b4]) := by
    decide +kernel
  simp only [Option.bind_eq_some_iff, Option.map_eq_some_iff, Prod.mk.injEq] at hrun
  obtain ⟨m, hm, c₁, h₁, c₂, h₂, c₃, h₃, haddr, hlive₂, hlive₃⟩ := hrun
  refine ⟨m, c₁, c₂, c₃, hm, h₁, h₂, h₃, hlive₃, ?_⟩
  have hinit : Initial ⟨m, []⟩ := ⟨rfl, by simp only [haddr]; decide, _, _, _, hm⟩
  have s₁ : Step ⟨m, []⟩ (.alloc 100) c₁ := ⟨trivial, h₁⟩
  have s₂ : Step c₁ (.alloc 30) c₂ := ⟨trivial, h₂⟩
  have s₃ : Step c₂ (.free 0x20000044) c₃ := ⟨Or.inr (List.elem_iff.mp hlive₂), h₃⟩
  exact (reachable_wellFormed c₃ ((((Reachable.start hinit).next s₁).next s₂).next s₃)).1

end Client

end RtKernel.Mem

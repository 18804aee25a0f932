import RtKernel.Mem.Client
import Mathlib.Algebra.BigOperators.Intervals
import Mathlib.Algebra.Order.BigOperators.Group.Finset

/-!
# The bytes in use

`parent.used` is adjusted by a different formula in every call. Each of them is
the change of one sum, of what the used items extend over, so the account agrees
with the headers after every call and nothing is in use when nothing is live.
-/

open List Option

namespace RtKernel.Mem

open RtSmallMem

/-- What the used items from `mem` on, up to `heap_end`, extend over. -/
def usedBytes (m : RtSmallMem) : Nat → Nat → Nat
  | 0, _ => 0
  | fuel + 1, mem =>
    if mem = m.heapEnd then 0
    else (if m.memIsUsed mem then m.next mem - mem else 0) + usedBytes m fuel (m.next mem)

open Classical in
/-- What the offset `s` contributes: the extent of a used item. -/
noncomputable def extent (m : RtSmallMem) (items : Set Nat) (s : Nat) : Nat :=
  if s ∈ items ∧ m.memIsUsed s then m.next s - s else 0

/-- What all used items before `heap_end` extend over. -/
noncomputable def total (m : RtSmallMem) (items : Set Nat) : Nat :=
  ∑ s ∈ Finset.range m.heapEnd, extent m items s

variable {m : RtSmallMem} {items : Set Nat} {s : Nat}

theorem extent_of_used (hs : s ∈ items)
    (hu : m.memIsUsed s) : extent m items s = m.next s - s := if_pos ⟨hs, hu⟩

theorem extent_of_free
    (h : s ∈ items → ¬ m.memIsUsed s) : extent m items s = 0 := if_neg fun h' => h h'.1 h'.2

theorem extent_le (s : Nat) : extent m items s ≤ m.next s - s := by
  unfold extent
  split_ifs
  · exact le_rfl
  · exact Nat.zero_le _

namespace Layout

variable {p : Nat}

section

variable (L : Layout m items)
include L

/-- Between an item and the next one nothing else contributes. -/
theorem sum_item (hp : p ∈ items) (hpe : p ≠ m.heapEnd) :
    ∑ s ∈ Finset.Ico p (m.next p), extent m items s = extent m items p := by
  have hn := L.next_mem p hp hpe
  refine Finset.sum_eq_single_of_mem p (Finset.mem_Ico.mpr ⟨le_rfl, by omega⟩) ?_
  intro s hs hne
  obtain ⟨hlo, hhi⟩ := Finset.mem_Ico.mp hs
  refine extent_of_free fun hmem => ?_
  rcases L.gap p hp hpe s hmem with hle | hge
  · exact absurd (Nat.le_antisymm hle hlo) hne
  · omega

theorem sum_le : ∀ x ∈ items, ∑ s ∈ Finset.range x, extent m items s ≤ x := by
  intro x
  induction x using Nat.strong_induction_on with
  | _ x ih =>
    intro hx
    by_cases h0 : x = 0
    · subst h0
      exact le_rfl
    · obtain ⟨o, ho, hoe, rfl⟩ := L.exists_pred hx h0
      have hlt := (L.next_mem o ho hoe).2
      have hbelow := ih o (by omega) ho
      have hsplit := Finset.sum_range_add_sum_Ico (extent m items) (show o ≤ m.next o by omega)
      rw [L.sum_item ho hoe] at hsplit
      have hle := @extent_le m items o
      omega

theorem total_le : total m items ≤ m.heapEnd := L.sum_le _ L.end_mem

/-- The walk over the headers adds up the same items. -/
theorem usedBytes_eq : ∀ fuel x, x ∈ items → m.heapEnd < fuel + x →
      usedBytes m fuel x = ∑ s ∈ Finset.Ico x m.heapEnd, extent m items s := by
  intro fuel
  induction fuel with
  | zero =>
    intro x hx hfuel
    have := L.le_end x hx
    omega
  | succ fuel ih =>
    intro x hx hfuel
    rw [usedBytes]
    by_cases hxe : x = m.heapEnd
    · rw [if_pos hxe, hxe, Finset.Ico_self, Finset.sum_empty]
    · have hn := L.next_mem x hx hxe
      have hle := L.le_end _ hn.1
      have hself : extent m items x = if m.memIsUsed x then m.next x - x else 0 := by
        simp only [extent, hx, true_and]
      rw [if_neg hxe, ih (m.next x) hn.1 (by omega), ← hself, ← L.sum_item hx hxe]
      exact Finset.sum_Ico_consecutive _ (by omega) hle

end

variable {items' : Set Nat}

theorem unique (L : Layout m items) (L' : Layout m items') : items = items' :=
  Set.ext fun p => (L.item_iff p).symm.trans (L'.item_iff p)

end Layout

/-- The sum changes by what the one item not spared contributes. -/
theorem Spares.total {m m' : RtSmallMem} {items items' : Set Nat}
    (h : Spares m m' items items' p) (hp : p < m.heapEnd) :
    total m' items' + extent m items p = total m items + extent m' items' p := by
  have hmem : p ∈ Finset.range m.heapEnd := Finset.mem_range.mpr hp
  unfold Mem.total
  rw [h.region.heapEnd, ← Finset.sum_erase_add _ _ hmem, ← Finset.sum_erase_add _ _ hmem]
  have hrest : ∀ s ∈ (Finset.range m.heapEnd).erase p,
      extent m' items' s = extent m items s := by
    intro s hs
    obtain ⟨hsp, hse⟩ := Finset.mem_erase.mp hs
    have hlt := Finset.mem_range.mp hse
    by_cases hu : s ∈ items ∧ m.memIsUsed s
    · obtain ⟨hmem', hu'⟩ := (h.used_iff s hsp).mpr hu
      rw [extent_of_used hu.1 hu.2, extent_of_used hmem' hu',
        h.next s hsp hu.1 (by omega) hu.2]
    · rw [extent_of_free fun hs' hu' => hu ⟨hs', hu'⟩,
        extent_of_free fun hs' hu' => hu ((h.used_iff s hsp).mp ⟨hs', hu'⟩)]
  rw [Finset.sum_congr rfl hrest]
  exact Nat.add_right_comm _ _ _

/-- The account agrees with the headers and never passed its maximum. -/
structure Accounted (m : RtSmallMem) (items : Set Nat) : Prop where
  used : m.used = total m items
  le_max : m.used ≤ m.max

section

variable {m' : RtSmallMem} {items' : Set Nat} {p size : Nat} {a : Nat}

theorem Served.accounted (t : Served m m' items items' p size) (h : Settled m items)
    (acc : Accounted m items) : Accounted m' items' := by
  obtain ⟨hp, hfree, hroom⟩ := id t.serves
  have hpe := t.serves.ne_end h.layout
  have hlt : p < m.heapEnd := lt_of_le_of_ne (h.layout.le_end p hp) hpe
  have hsum := t.spares.total hlt
  rw [extent_of_free fun _ => hfree, extent_of_used t.mem t.isUsed] at hsum
  have hle := t.settled.layout.total_le
  have hfits := t.settled.region.fits
  have hused : m'.used = total m' items' := by
    rw [t.used, acc.used, add32_eq (by omega)]
    omega
  refine ⟨hused, ?_⟩
  rw [t.max]
  split_ifs <;> omega

/-- What is taken off the account is what the items have got smaller by. -/
theorem Accounted.less {k : Nat} (acc : Accounted m items) (h : Settled m items)
    (hused : m'.used = sub32 m.used k) (hmax : m'.max = m.max)
    (htotal : total m' items' + k = total m items) : Accounted m' items' := by
  have hle := h.layout.total_le
  have hfits := h.region.fits
  have hacc := acc.used
  have hused' : m'.used = total m' items' := by
    rw [hused, sub32_eq (by omega) (by omega)]
    omega
  refine ⟨hused', ?_⟩
  rw [hmax]
  exact Nat.le_trans (by omega) acc.le_max

theorem Released.accounted (r : Released m m' items items' p) (h : Settled m items)
    (b : Block m items a p) (acc : Accounted m items) : Accounted m' items' := by
  have hlt : p < m.heapEnd := lt_of_le_of_ne (h.layout.le_end p b.mem) b.ne_end
  have hsum := r.spares.total hlt
  rw [extent_of_used b.mem b.used, extent_of_free r.freed] at hsum
  exact acc.less h r.used r.max (by omega)

theorem Shrunk.accounted (r : Shrunk m m' items items' p size) (h : Settled m items)
    (b : Block m items a p) (hcut : p + 12 + size ≤ m.next p) (acc : Accounted m items) :
    Accounted m' items' := by
  have hlt : p < m.heapEnd := lt_of_le_of_ne (h.layout.le_end p b.mem) b.ne_end
  have hsum := r.spares.total hlt
  rw [extent_of_used b.mem b.used, extent_of_used r.mem r.isUsed, r.next] at hsum
  exact acc.less h r.used r.max (by omega)

/-- Stores into the data of a used item are no part of the account. -/
theorem DataWritten.accounted (d : DataWritten m m' p) (h : Settled m items) (hp : p ∈ items)
    (hpe : p ≠ m.heapEnd) (hup : m.memIsUsed p) (hu : m'.used = m.used) (hm : m'.max = m.max)
    (acc : Accounted m items) : Accounted m' items := by
  have hlt : p < m.heapEnd := lt_of_le_of_ne (h.layout.le_end p hp) hpe
  have hsum := (d.spares h.layout hp hpe).total hlt
  have hw := d.header h.layout hp hpe hp
  have hup' : m'.memIsUsed p := by
    rw [memIsUsed, hw.1]
    exact hup
  rw [extent_of_used hp hup, extent_of_used hp hup'] at hsum
  have hmax := acc.le_max
  have hacc := acc.used
  exact ⟨by omega, by omega⟩

end

/-- Every used item is a live block. -/
def AllLive (m : RtSmallMem) (items : Set Nat) (live : List Nat) : Prop :=
  ∀ s ∈ items, s ≠ m.heapEnd → m.memIsUsed s → m.heapPtr + s + 12 ∈ live

theorem Spares.allLive {m m' : RtSmallMem} {items items' : Set Nat} {live live' : List Nat}
    (h : Spares m m' items items' p) (hl : AllLive m items live)
    (hkeep : ∀ s ≠ p, m.heapPtr + s + 12 ∈ live → m.heapPtr + s + 12 ∈ live')
    (hp : p ∈ items' → m'.memIsUsed p → m.heapPtr + p + 12 ∈ live') : AllLive m' items' live' := by
  intro s hs hse hu
  rw [h.region.heapPtr]
  rw [h.region.heapEnd] at hse
  by_cases hsp : s = p
  · subst hsp
    exact hp hs hu
  · obtain ⟨hmem, hu'⟩ := (h.used_iff s hsp).mp ⟨hs, hu⟩
    exact hkeep s hsp (hl s hmem hse hu')

/-- A heap with nothing in use, as `rt_smem_init` lays it out. -/
structure AsBuilt (m : RtSmallMem) : Prop where
  used : m.used = 0
  /-- One item and `heap_end`. -/
  items : ∀ s, Item m s ↔ s = 0 ∨ s = m.heapEnd
  free : ¬ m.memIsUsed 0
  pool : m.memPool 0 = m.addr
  next : m.next 0 = m.heapEnd
  prev : m.prev 0 = 0
  lfree : m.lfree = 0

/-- A settled heap without used items is one free item. -/
theorem Settled.asBuilt (h : Settled m items)
    (acc : Accounted m items) (hfree : ∀ s ∈ items, s ≠ m.heapEnd → ¬ m.memIsUsed s) :
    AsBuilt m := by
  have L := h.layout
  have h0e : 0 ≠ m.heapEnd := by
    have := h.region.heapEnd
    omega
  have h0 := hfree 0 L.zero_mem h0e
  have hnext : m.next 0 = m.heapEnd := by
    by_contra hne
    have hu := (h.coalesced 0 L.zero_mem h0e).resolve_left h0
    exact hfree _ (L.next_mem 0 L.zero_mem h0e).1 hne hu
  have hsum : total m items = 0 := by
    refine Finset.sum_eq_zero fun s hs => extent_of_free fun hmem => ?_
    exact hfree s hmem (Finset.mem_range.mp hs).ne
  refine ⟨acc.used.trans hsum, fun s => ?_, h0, L.pool 0 L.zero_mem, hnext, L.first, ?_⟩
  · rw [L.item_iff]
    constructor
    · intro hs
      have hle := L.le_end s hs
      rcases L.gap 0 L.zero_mem h0e s hs with hg | hg
      · exact .inl (by omega)
      · exact .inr (by omega)
    · rintro (rfl | rfl)
      · exact L.zero_mem
      · exact L.end_mem
  · exact Nat.le_zero.mp (h.lowest 0 L.zero_mem h0)

theorem rtSmemInit_accounts {word : Nat → Nat} {beginAddr size : UInt32}
    (h : rtSmemInit word beginAddr size = some m) : m.used = 0 ∧ m.max = 0 := by
  unfold rtSmemInit at h
  dsimp only at h
  split_ifs at h
  cases h
  exact ⟨rfl, rfl⟩

namespace Client

variable {c c' : Client}

/-- The invariant with the account and with all that is used. -/
structure Held (c : Client) (items : Set Nat) : Prop extends Inv c items where
  accounted : Accounted c.heap items
  allLive : AllLive c.heap items c.live

theorem Initial.held (h : c.Initial) : c.Held {0, c.heap.heapEnd} := by
  have hinv := h.inv
  obtain ⟨-, -, word, beginAddr, size, hinit⟩ := h
  obtain ⟨hused, hmax⟩ := rtSmemInit_accounts hinit
  obtain ⟨R, -, hpool, -⟩ := rtSmemInit_region hinit
  obtain ⟨-, -, heven, -⟩ := status_spec R
  have h0 : ¬ c.heap.memIsUsed 0 := by
    rw [memIsUsed, Nat.and_one_is_mod]
    omega
  have hfree : ∀ s ∈ ({0, c.heap.heapEnd} : Set Nat), s ≠ c.heap.heapEnd →
      ¬ c.heap.memIsUsed s := by
    rintro s (rfl | rfl) hse
    · exact h0
    · exact absurd rfl hse
  have hsum : total c.heap {0, c.heap.heapEnd} = 0 := by
    refine Finset.sum_eq_zero fun s hs => extent_of_free fun hmem => ?_
    exact hfree s hmem (Finset.mem_range.mp hs).ne
  exact ⟨hinv, ⟨hused.trans hsum.symm, by omega⟩, fun s hs hse hu => absurd hu (hfree s hs hse)⟩

/-- What a call leaves on the books, whatever it returned. -/
def Books (c : Client) : Prop :=
  ∃ items, Settled c.heap items ∧ Accounted c.heap items ∧ AllLive c.heap items c.live

theorem Held.books (h : c.Held items) : c.Books := ⟨items, h.settled, h.accounted, h.allLive⟩

variable {live : List Nat} {a b : Nat}

theorem mem_keep (h : b ∈ live) : b ∈ keep live a := by
  unfold keep
  split_ifs
  · exact h
  · exact mem_cons_of_mem a h

theorem mem_keep_self {a : Nat} (h : a ≠ 0) : a ∈ keep live a := by
  rw [keep, if_neg h]
  exact .head _

theorem mem_drop (h : b ∈ live) (hne : b ≠ a) : b ∈ drop live a :=
  mem_filter.mpr ⟨h, decide_eq_true hne⟩

theorem Held.alloc (h : c.Held items) {size : UInt32} (hexec : c.exec (.alloc size) = some c') :
    c'.Books := by
  by_cases hzero : size.toNat = 0
  · rw [exec, rtSmemAlloc, if_pos hzero] at hexec
    cases hexec
    exact h.books
  · rcases h.settled.rtSmemAlloc_served size hzero with ⟨hnull, -⟩ | ⟨m', items', p, halloc, t, -⟩
    · rw [exec, hnull] at hexec
      cases hexec
      exact h.books
    · rw [exec, halloc] at hexec
      cases hexec
      exact ⟨items', t.settled, t.accounted h.settled h.accounted,
        t.spares.allLive h.allLive (fun _ _ hs => mem_keep (a := c.heap.heapPtr + p + 12) hs)
          fun _ _ => mem_keep_self (by omega)⟩

/-- An address stays live when another block is given back. -/
theorem mem_drop_other {a p : Nat} (b : Block c.heap items a p) {s : Nat} (hs : s ≠ p)
    (hl : c.heap.heapPtr + s + 12 ∈ live) : c.heap.heapPtr + s + 12 ∈ drop live a := by
  have hne : c.heap.heapPtr + s + 12 ≠ a := by
    have := b.addr
    omega
  exact mem_drop hl hne

section

variable (h : c.Held items) {rmem : Nat}
include h

theorem Held.free (hown : c.Owns rmem) (hexec : c.exec (.free rmem) = some c') : c'.Books := by
  rcases hown with rfl | hlive
  · have hdrop : drop c.live 0 = c.live :=
      filter_eq_self.mpr fun a ha => decide_eq_true (h.ne_zero ha)
    rw [exec, hdrop] at hexec
    cases hexec
    exact h.books
  · obtain ⟨p, b⟩ := h.blocks rmem hlive
    obtain ⟨m', items', hfree, r⟩ := h.settled.rtSmemFree_released h.addr b
    rw [exec, hfree] at hexec
    cases hexec
    exact ⟨items', r.settled, r.accounted h.settled b h.accounted,
      r.spares.allLive h.allLive (fun s hs hl => mem_drop_other b hs hl)
        fun hmem hu => absurd hu (r.freed hmem)⟩

theorem Held.realloc (hown : c.Owns rmem) {newsize : UInt32}
    (hexec : c.exec (.realloc rmem newsize) = some c') : c'.Books := by
  rcases hown with rfl | hlive
  · have hdrop : drop c.live 0 = c.live :=
      filter_eq_self.mpr fun a ha => decide_eq_true (h.ne_zero ha)
    have hkeep : keep c.live 0 = c.live := if_pos rfl
    rcases rtSmemRealloc_null (m := c.heap) newsize with hnull | hnull
    · rw [exec, hnull, hdrop, map_some, hkeep, ite_self] at hexec
      cases hexec
      exact h.books
    · have halloc : c.exec (.alloc (UInt32.ofNat (rtAlign newsize.toNat))) = some c' := by
        rw [← hexec, exec, exec, hnull, hdrop]
        cases rtSmemAlloc c.heap (UInt32.ofNat (rtAlign newsize.toNat)) with
        | none => rfl
        | some r =>
          rw [map_some, map_some]
          split_ifs with hr
          · rw [hr.1, hkeep]
          · rfl
      exact h.alloc halloc
  · obtain ⟨p, b⟩ := h.blocks rmem hlive
    obtain ⟨r, hr, hcase⟩ := h.settled.rtSmemRealloc_cases h.addr b newsize
    have hpos := h.ne_zero hlive
    have haddr := b.addr
    rw [exec, hr, map_some] at hexec
    cases hexec
    -- the block and its address stay as they are
    have hstays : Books ⟨c.heap, keep (drop c.live rmem) rmem⟩ := by
      refine ⟨items, h.settled, h.accounted, ?_⟩
      refine (Spares.refl c.heap items p).allLive h.allLive
        (fun s hs hl => mem_keep (mem_drop_other b hs hl)) fun _ _ => ?_
      rw [← haddr]
      exact mem_keep_self hpos
    cases hcase with
    | tooLarge hbig | refused hpos' _ _ _ =>
      rw [if_pos ⟨rfl, by omega⟩]
      exact h.books
    | @freed m' items' hzero r =>
      rw [if_neg fun hc => hc.2 hzero]
      exact ⟨items', r.settled, r.accounted h.settled b h.accounted,
        r.spares.allLive h.allLive (fun s hs hl => mem_drop_other b hs hl)
          fun hmem hu => absurd hu (r.freed hmem)⟩
    | same _ _ =>
      rw [if_neg fun hc => hpos hc.1]
      exact hstays
    | @shrunk m' items' _ hcut r =>
      rw [if_neg fun hc => hpos hc.1]
      refine ⟨items', r.settled, r.accounted h.settled b (by omega) h.accounted, ?_⟩
      refine r.spares.allLive h.allLive (fun s hs hl => mem_keep (mem_drop_other b hs hl)) fun _ _ => ?_
      rw [← haddr]
      exact mem_keep_self hpos
    | @moved m₁ m' items₁ items' q _ _ _ t d r =>
      have ha' : c.heap.heapPtr + q + 12 ≠ 0 := by omega
      have hqp : p ≠ q := fun he => t.serves.2.1 (he ▸ b.used)
      have hqe : q ≠ m₁.heapEnd := t.spares.region.heapEnd ▸ t.serves.ne_end h.settled.layout
      obtain ⟨b₁, -⟩ := t.spares.keepsBlocks rmem p hqp b
      have b₂ := d.block t.settled.layout t.mem hqe b₁
      have hset := d.settled t.settled t.mem hqe
      obtain ⟨hused, hmax⟩ := copyWords_accounts m₁ (q + 12) (p + 12)
        (min (c.heap.next p - p - 12) (rtAlign newsize.toNat) / 4)
      have hacc := d.accounted t.settled t.mem hqe t.isUsed hused hmax
        (t.accounted h.settled h.accounted)
      have hspares := t.spares.trans (d.spares t.settled.layout t.mem hqe)
      have hlive₂ : AllLive _ items₁ ((c.heap.heapPtr + q + 12) :: c.live) := hspares.allLive h.allLive
        (fun _ _ hs => .tail _ hs) fun _ _ => mem_cons_self
      refine ⟨items', r.settled, r.accounted hset b₂ hacc, ?_⟩
      refine r.spares.allLive hlive₂ (fun s hs hl => ?_) fun hmem hu => absurd hu (r.freed hmem)
      rw [hspares.region.heapPtr] at hl ⊢
      rcases mem_cons.mp hl with he | hl
      · rw [he]
        exact mem_keep_self ha'
      · exact mem_keep (a := c.heap.heapPtr + q + 12) (mem_drop_other b hs hl)

theorem Held.store {rmem k v : Nat} (hlegal : c.Legal (.store rmem k v))
    (hexec : c.exec (.store rmem k v) = some c') : c'.Books := by
  obtain ⟨hlive, hin⟩ := hlegal
  obtain ⟨p, b⟩ := h.blocks rmem hlive
  rw [blockSize, b.itemOf h.settled.region h.settled.layout, sizeofStructMem] at hin
  have d : DataWritten c.heap (c.heap.setWord (p + 12 + 4 * k) v) p :=
    .setWord (by omega) (by omega)
  rw [exec, b.itemOf h.settled.region h.settled.layout] at hexec
  cases hexec
  refine ⟨items, d.settled h.settled b.mem b.ne_end,
    d.accounted h.settled b.mem b.ne_end b.used rfl rfl h.accounted, ?_⟩
  refine (d.spares h.settled.layout b.mem b.ne_end).allLive h.allLive (fun _ _ hs => hs) ?_
  exact fun _ _ => h.allLive p b.mem b.ne_end b.used

theorem Held.step {call : Call} (hlegal : c.Legal call)
    (hexec : c.exec call = some c') : ∃ items', c'.Held items' := by
  obtain ⟨c'', items', hc'', hinv⟩ := h.exec hlegal
  rw [hexec] at hc''
  cases hc''
  have hbooks : c'.Books := by
    cases call with
    | alloc size => exact h.alloc hexec
    | realloc rmem newsize => exact h.realloc hlegal hexec
    | free rmem => exact h.free hlegal hexec
    | store rmem k v => exact h.store hlegal hexec
  obtain ⟨items'', hset, hacc, hlive⟩ := hbooks
  obtain rfl := hinv.settled.layout.unique hset.layout
  exact ⟨items', hinv, hacc, hlive⟩

end

theorem reachable_held (h : Reachable Initial Step c) : ∃ items, c.Held items := by
  refine h.invariant (I := fun c => ∃ items, c.Held items) (fun c h₀ => ⟨_, h₀.held⟩) ?_
  rintro c call c' - ⟨items, hheld⟩ ⟨hlegal, hexec⟩
  exact hheld.step hlegal hexec

/-- In every run `used` is what the used items before `heap_end` extend over, within `max` and
the heap; when nothing is live any more the heap is again as it was built. -/
theorem reachable_used : ∀ c, Reachable Initial Step c →
    (∀ fuel, c.heap.heapEnd < fuel → c.heap.used = usedBytes c.heap fuel 0) ∧
      c.heap.used ≤ c.heap.max ∧ c.heap.used ≤ c.heap.heapEnd ∧
      (c.live = [] → AsBuilt c.heap) := by
  intro c h
  obtain ⟨items, hheld⟩ := reachable_held h
  have L := hheld.settled.layout
  refine ⟨fun fuel hfuel => ?_, hheld.accounted.le_max, ?_, fun hlive => ?_⟩
  · rw [L.usedBytes_eq fuel 0 L.zero_mem hfuel, hheld.accounted.used, total, Finset.range_eq_Ico]
  · rw [hheld.accounted.used]
    exact L.total_le
  · refine hheld.settled.asBuilt hheld.accounted fun s hs hse hu => ?_
    have := hheld.allLive s hs hse hu
    rw [hlive] at this
    cases this

instance (c : Client) (rmem : Nat) : Decidable (c.Owns rmem) :=
  inferInstanceAs (Decidable (_ ∨ _))

instance (c : Client) (call : Call) : Decidable (c.Legal call) :=
  match call with
  | .alloc _ => .isTrue trivial
  | .realloc rmem _ => inferInstanceAs (Decidable (c.Owns rmem))
  | .free rmem => inferInstanceAs (Decidable (c.Owns rmem))
  | .store _ _ _ => inferInstanceAs (Decidable (_ ∧ _))

/-- A run from a new heap, as far as its calls are legal. -/
def runFrom (beginAddr size : UInt32) (calls : List Call) : Option Client :=
  (rtSmemInit (fun _ => 0) beginAddr size).bind fun m =>
    if m.addr = 0 then none else runWithin exec Legal ⟨m, []⟩ calls

theorem reachable_runFrom {beginAddr size : UInt32} {calls : List Call}
    (h : runFrom beginAddr size calls = some c) : Reachable Initial Step c := by
  obtain ⟨m, hm, hrun⟩ := bind_eq_some_iff.mp h
  split_ifs at hrun with haddr
  exact Reachable.runWithin (Reachable.start ⟨rfl, haddr, _, _, _, hm⟩) hrun

/-- Two blocks, the first one shrunk, both given back. -/
theorem reachable_used_emptied :
    ∃ c, runFrom 0x20000000 1024 [.alloc 100, .alloc 30, .realloc 0x20000044 20,
      .free 0x200000b4, .free 0x20000044] = some c ∧ c.heap.max = 156 ∧ AsBuilt c.heap := by
  obtain ⟨c, hc, hlive⟩ : ∃ c ∈ runFrom 0x20000000 1024 [.alloc 100, .alloc 30, .realloc 0x20000044 20,
      .free 0x200000b4, .free 0x20000044],
      c.live = [] ∧ c.heap.max = 156 := by decide +kernel
  exact ⟨c, hc, hlive.2, (reachable_used c (reachable_runFrom hc)).2.2.2 hlive.1⟩

/-- Two heaps of one region with the same live blocks, of the same sizes. -/
structure SameBlocks (c c' : Client) : Prop where
  region : SameRegion c.heap c'.heap
  live : ∀ a, a ∈ c.live ↔ a ∈ c'.live
  size : ∀ a ∈ c.live, c'.blockSize a = c.blockSize a

theorem SameBlocks.symm (h : SameBlocks c c') : SameBlocks c' c :=
  ⟨⟨h.region.addr.symm, h.region.heapPtr.symm, h.region.heapEnd.symm, h.region.memSizeAligned.symm⟩,
    fun a => (h.live a).symm, fun a ha => (h.size a ((h.live a).mpr ha)).symm⟩

section

variable (same : SameBlocks c c')
include same

section

variable (h : c.Held items)
include h

/-- Where one has a used item, the other has one that extends as far. -/
theorem SameBlocks.used
    (h' : c'.Held items') (hp : p ∈ items) (hpe : p ≠ c.heap.heapEnd) (hu : c.heap.memIsUsed p) :
    p ∈ items' ∧ c'.heap.memIsUsed p ∧ c'.heap.next p = c.heap.next p := by
  have hlive := h.allLive p hp hpe hu
  obtain ⟨q, b⟩ := h.blocks _ hlive
  obtain ⟨q', b'⟩ := h'.blocks _ ((same.live _).mp hlive)
  have hq : q = p := by have := b.addr; omega
  have hq' : q' = p := by have := b'.addr; have := same.region.heapPtr; omega
  subst hq hq'
  have hsize := same.size _ hlive
  rw [blockSize, blockSize, b'.itemOf h'.settled.region h'.settled.layout,
    b.itemOf h.settled.region h.settled.layout, sizeofStructMem] at hsize
  have hroom := b.room
  have hroom' := b'.room
  exact ⟨b'.mem, b'.used, by omega⟩

theorem SameBlocks.subset (h' : c'.Held items') : items ⊆ items' := by
  intro p hp
  have hend := same.region.heapEnd
  by_cases hpe : p = c.heap.heapEnd
  · rw [hpe, ← hend]
    exact h'.settled.layout.end_mem
  by_cases h0 : p = 0
  · exact h0 ▸ h'.settled.layout.zero_mem
  -- its predecessor is used, or it is used itself
  obtain ⟨o, ho, hoe, rfl⟩ := h.settled.layout.exists_pred hp h0
  rcases h.settled.coalesced o ho hoe with hu | hu
  · obtain ⟨ho', -, hnext⟩ := same.used h h' ho hoe hu
    exact hnext ▸ (h'.settled.layout.next_mem o ho' (hend ▸ hoe)).1
  · exact (same.used h h' hp hpe hu).1

theorem SameBlocks.next_le
    (h' : c'.Held items) (hp : p ∈ items) (hpe : p ≠ c.heap.heapEnd) : c'.heap.next p ≤ c.heap.next p := by
  obtain ⟨hmem, hlt⟩ := h.settled.layout.next_mem p hp hpe
  rcases h'.settled.layout.gap p hp (same.region.heapEnd ▸ hpe) _ hmem with hle | hle
  · omega
  · exact hle

theorem SameBlocks.lfree_le (h' : c'.Held items) : c'.heap.lfree ≤ c.heap.lfree := by
  rcases h.settled.lfree_free with heq | hfree
  · rw [heq, ← same.region.heapEnd]
    exact h'.settled.layout.le_end _ h'.settled.lfree_mem
  · refine h'.settled.lowest _ h.settled.lfree_mem fun hu => hfree ?_
    by_cases hend : c.heap.lfree = c.heap.heapEnd
    · exact hend ▸ h.settled.layout.end_used
    · exact (same.symm.used h' h h.settled.lfree_mem (same.region.heapEnd ▸ hend) hu).2.1

end

end

/-- What the heap looks like does not depend on how it came about: its items, their links, which of them
are used, where the search for a free one begins and the bytes in use are those of the live blocks and
their sizes. -/
theorem reachable_sameBlocks (h : Reachable Initial Step c) (h' : Reachable Initial Step c')
    (same : SameBlocks c c') : (∀ p, Item c.heap p ↔ Item c'.heap p) ∧
    (∀ p, Item c.heap p → p ≠ c.heap.heapEnd → c'.heap.next p = c.heap.next p ∧
      c'.heap.prev p = c.heap.prev p ∧ (c'.heap.memIsUsed p ↔ c.heap.memIsUsed p)) ∧
    c'.heap.lfree = c.heap.lfree ∧ c'.heap.used = c.heap.used := by
  obtain ⟨items, hheld⟩ := reachable_held h
  obtain ⟨items', hheld'⟩ := reachable_held h'
  have L := hheld.settled.layout
  have L' := hheld'.settled.layout
  obtain rfl : items = items' := (same.subset hheld hheld').antisymm (same.symm.subset hheld' hheld)
  have hend := same.region.heapEnd
  have hitem : ∀ p ∈ items, p ≠ c.heap.heapEnd → c'.heap.next p = c.heap.next p ∧
      (c'.heap.memIsUsed p ↔ c.heap.memIsUsed p) := by
    intro p hp hpe
    refine ⟨(same.next_le hheld hheld' hp hpe).antisymm (same.symm.next_le hheld' hheld hp (hend ▸ hpe)), ?_⟩
    exact ⟨fun hu => (same.symm.used hheld' hheld hp (hend ▸ hpe) hu).2.1,
      fun hu => (same.used hheld hheld' hp hpe hu).2.1⟩
  have hprev : ∀ p ∈ items, p ≠ c.heap.heapEnd → c'.heap.prev p = c.heap.prev p := by
    intro p hp hpe
    obtain rfl | h0 := eq_or_ne p 0
    · rw [L'.first, L.first]
    · obtain ⟨hmem, hne, hnext⟩ := L.prev_mem hp h0 hpe
      have hnext' := (hitem _ hmem hne).1.trans hnext
      simpa only [hnext'] using L'.back _ hmem (hend ▸ hne) (hnext'.symm ▸ hend ▸ hpe)
  refine ⟨fun p => (L.item_iff p).trans (L'.item_iff p).symm, fun p h hpe =>
      have hp := (L.item_iff p).mp h
      ⟨(hitem p hp hpe).1, hprev p hp hpe, (hitem p hp hpe).2⟩,
    (same.lfree_le hheld hheld').antisymm (same.symm.lfree_le hheld' hheld), ?_⟩
  rw [hheld'.accounted.used, hheld.accounted.used, total, hend]
  refine Finset.sum_congr rfl fun p hp => ?_
  by_cases hmem : p ∈ items
  · obtain ⟨hnext, hu⟩ := hitem p hmem (Finset.mem_range.mp hp).ne
    by_cases hused : c.heap.memIsUsed p
    · rw [extent_of_used hmem hused, extent_of_used hmem (hu.mpr hused), hnext]
    · rw [extent_of_free fun _ => hused, extent_of_free fun _ h => hused (hu.mp h)]
  · rw [extent_of_free fun h => absurd h hmem, extent_of_free fun h => absurd h hmem]

/-- A block that was given back before leaves no trace. -/
theorem reachable_sameBlocks_detour : ∃ c c',
    runFrom 0x20000000 1024 [.alloc 100, .alloc 30] = some c ∧
    runFrom 0x20000000 1024 [.alloc 40, .alloc 30, .free 0x20000044, .free 0x20000078, .alloc 100, .alloc 30] =
      some c' ∧ c'.heap.lfree = c.heap.lfree ∧ c'.heap.used = c.heap.used := by
  obtain ⟨c, hc, c', hc', haddr, hptr, hend, hsize, hlive, hsizes⟩ :
      ∃ c ∈ runFrom 0x20000000 1024 [.alloc 100, .alloc 30], ∃ c' ∈ runFrom 0x20000000 1024
        [.alloc 40, .alloc 30, .free 0x20000044, .free 0x20000078, .alloc 100, .alloc 30],
        c'.heap.addr = c.heap.addr ∧ c'.heap.heapPtr = c.heap.heapPtr ∧
          c'.heap.heapEnd = c.heap.heapEnd ∧ c'.heap.memSizeAligned = c.heap.memSizeAligned ∧
          c.live = c'.live ∧ c.live.map c'.blockSize = c.live.map c.blockSize := by
    decide +kernel
  exact ⟨c, c', hc, hc', (reachable_sameBlocks (reachable_runFrom hc) (reachable_runFrom hc')
    ⟨⟨haddr, hptr, hend, hsize⟩, fun a => hlive ▸ Iff.rfl, List.map_inj_left.mp hsizes⟩).2.2⟩

end Client

end RtKernel.Mem

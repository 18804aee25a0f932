import RtKernel.Mem.Allocate

/-!
# Resizing a block

A block is resized in place by cutting off its end, or moved: a new block is
taken, the data copied and the old block given back. The copy, like every store
of a client, stays inside one block and so reaches no header.
-/

namespace RtKernel.Mem

open RtSmallMem

/-- `m'` is `m` but for words of the data of `p`. -/
structure DataWritten (m m' : RtSmallMem) (p : Nat) : Prop where
  region : SameRegion m m'
  lfree : m'.lfree = m.lfree
  outside : ∀ o, o < p + 12 ∨ m.next p ≤ o → m'.word o = m.word o

namespace DataWritten

variable {m m' : RtSmallMem} {items : Set Nat} {p : Nat}

section

variable (d : DataWritten m m' p)
include d

theorem header (L : Layout m items) (hp : p ∈ items)
    (hpe : p ≠ m.heapEnd) {s : Nat} (hs : s ∈ items) :
    m'.poolPtr s = m.poolPtr s ∧ m'.next s = m.next s ∧ m'.prev s = m.prev s := by
  have hg := L.gap p hp hpe s hs
  refine ⟨d.outside s ?_, d.outside (s + 4) ?_, d.outside (s + 8) ?_⟩ <;> omega

theorem settled (h : Settled m items) (hp : p ∈ items) (hpe : p ≠ m.heapEnd) : Settled m' items :=
  h.congr d.region d.lfree fun _ hs => d.header h.layout hp hpe hs

theorem block (L : Layout m items) (hp : p ∈ items)
    (hpe : p ≠ m.heapEnd) {a q : Nat} (b : Block m items a q) : Block m' items a q :=
  have hw := d.header L hp hpe b.mem
  b.congr d.region b.mem hw.1 hw.2.1

theorem spares (L : Layout m items) (hp : p ∈ items)
    (hpe : p ≠ m.heapEnd) : Spares m m' items items p where
  region := d.region
  used_iff s _ := and_congr_right fun hs => by
    rw [memIsUsed, memIsUsed, (d.header L hp hpe hs).1]
  next s _ hs _ _ := (d.header L hp hpe hs).2.1
  data s hne hs hse _ o hlo hhi := by
    refine d.outside o ?_
    rcases L.gap s hs hse p hp with hle | hge
    · rcases L.gap p hp hpe s hs with hle' | hge'
      · exact absurd (Nat.le_antisymm hle' hle) hne
      · exact .inr (by omega)
    · exact .inl (by omega)

end

theorem setWord {o v : Nat} (hlo : p + 12 ≤ o) (hhi : o < m.next p) :
    DataWritten m (m.setWord o v) p where
  region := ⟨rfl, rfl, rfl, rfl⟩
  lfree := rfl
  outside x hx := by
    rw [setWord_word, if_neg]
    omega

end DataWritten

theorem copyWords_sameRegion (m : RtSmallMem) (dst src n : Nat) :
    SameRegion m (copyWords m dst src n) ∧ (copyWords m dst src n).lfree = m.lfree := by
  induction n with
  | zero => exact ⟨.refl m, rfl⟩
  | succ n ih => exact ⟨ih.1.setWord _ _, ih.2⟩

variable {m : RtSmallMem}

theorem copyWords_word {dst src n o : Nat} (h : o < dst ∨ dst + 4 * n ≤ o) :
    (copyWords m dst src n).word o = m.word o := by
  induction n with
  | zero => rfl
  | succ n ih =>
    rw [copyWords, setWord_word, if_neg (by omega)]
    exact ih (by omega)

/-- The copy carries over the words of the source. -/
theorem copyWords_copied {dst src n k : Nat}
    (h : src + 4 * n ≤ dst ∨ dst + 4 * n ≤ src) (hk : k < n) :
    (copyWords m dst src n).word (dst + 4 * k) = m.word (src + 4 * k) := by
  induction n with
  | zero => omega
  | succ n ih =>
    rw [copyWords, setWord_word]
    by_cases hkn : k = n
    · subst hkn
      rw [if_pos rfl]
      exact copyWords_word (by omega)
    · rw [if_neg (by omega)]
      exact ih (by omega) (by omega)

theorem copyWords_accounts (m : RtSmallMem) (dst src n : Nat) :
    (copyWords m dst src n).used = m.used ∧ (copyWords m dst src n).max = m.max := by
  induction n with
  | zero => exact ⟨rfl, rfl⟩
  | succ n ih => exact ih

theorem copyWords_dataWritten {p src n : Nat} (h : p + 12 + 4 * n ≤ m.next p) :
    DataWritten m (copyWords m (p + 12) src n) p where
  region := (copyWords_sameRegion m _ _ n).1
  lfree := (copyWords_sameRegion m _ _ n).2
  outside o ho := copyWords_word (by omega)

/-- The item cut off a used one opens the heap there. -/
theorem Carved.opened {m m' : RtSmallMem} {items items' : Set Nat} {p x size : Nat}
    (c : Carved m m' items items' p size) (h : Settled m items) (hx : x ∈ items') (hxn : x ∉ items)
    (hpx : m'.next p = x) (honly : ∀ s ∈ items', s ∈ items ∨ s = x) :
    Opened { m' with lfree := if x < m'.lfree then x else m'.lfree } items' x := by
  have hR' := h.region.congr c.region
  obtain ⟨hxfree, -, -⟩ := c.fresh x hx hxn
  have hxe : x ≠ m'.heapEnd := fun he => hxn (he ▸ c.region.heapEnd ▸ h.layout.end_mem)
  refine ⟨hR'.congr ⟨rfl, rfl, rfl, rfl⟩,
    c.layout.congr ⟨rfl, rfl, rfl, rfl⟩ fun _ _ => ⟨rfl, rfl, rfl⟩, hx, hxe, hxfree, ?_, ?_, ?_, ?_⟩
  · intro s hs hse hsx hnx
    change m'.memIsUsed s ∨ m'.memIsUsed (m'.next s)
    have hold := (honly s hs).resolve_right hsx
    have hsp : s ≠ p := fun he => hnx (he ▸ hpx)
    rw [c.region.heapEnd] at hse
    rw [c.next s hold hsp, c.isUsed_iff hold, c.isUsed_iff (h.layout.next_mem s hold hse).1]
    exact h.coalesced s hold hse
  · change (if x < m'.lfree then x else m'.lfree) ∈ items'
    split_ifs
    · exact hx
    · exact c.lfree ▸ c.subset h.lfree_mem
  · change (if x < m'.lfree then x else m'.lfree) = m'.heapEnd ∨
      ¬ m'.memIsUsed (if x < m'.lfree then x else m'.lfree)
    split_ifs
    · exact .inr hxfree
    · rw [c.lfree, c.region.heapEnd, c.isUsed_iff h.lfree_mem]
      exact h.lfree_free
  · intro s hs hsf
    change (if x < m'.lfree then x else m'.lfree) ≤ s
    rcases honly s hs with hold | rfl
    · have hlow := h.lowest s hold ((c.isUsed_iff hold).not.mp hsf)
      rw [c.lfree]
      split_ifs <;> omega
    · split_ifs <;> omega

/-- What cutting the block at `p` down to `size` bytes leaves behind. -/
structure Shrunk (m m' : RtSmallMem) (items items' : Set Nat) (p size : Nat) : Prop where
  settled : Settled m' items'
  spares : Spares m m' items items' p
  subset : items' ⊆ insert (p + 12 + size) items
  mem : p ∈ items'
  isUsed : m'.memIsUsed p
  next : m'.next p = p + 12 + size
  data : ∀ o, p + 12 ≤ o → o < p + 12 + size → m'.word o = m.word o
  used : m'.used = sub32 m.used (m.next p - p - 12 - size)
  max : m'.max = m.max

variable {items : Set Nat} {a p size : Nat} {a p : Nat}

/-- Cutting the end off a block and combining it with what follows. -/
theorem Settled.shrink (h : Settled m items)
    (b : Block m items a p) (hroom : p + 12 + size + 12 ≤ m.next p) (hsize : size % 4 = 0) :
    ∃ m' items', plugHoles
        (if p + 12 + size < (splitItem { m with used := sub32 m.used (m.next p - p - 12 - size) }
            p (p + 12 + size)).lfree then
          { splitItem { m with used := sub32 m.used (m.next p - p - 12 - size) } p (p + 12 + size) with
            lfree := p + 12 + size }
        else splitItem { m with used := sub32 m.used (m.next p - p - 12 - size) } p (p + 12 + size))
        (p + 12 + size) = some m' ∧
      Shrunk m m' items items' p size := by
  generalize hu : sub32 m.used (m.next p - p - 12 - size) = u
  have hm₀ : Settled { m with used := u } items :=
    h.congr ⟨rfl, rfl, rfl, rfl⟩ rfl fun _ _ => ⟨rfl, rfl, rfl⟩
  have hpx : p + 12 ≤ p + 12 + size := by omega
  have hroom₀ : p + 12 + size + 12 ≤ ({ m with used := u } : RtSmallMem).next p := hroom
  have c := Carved.split hm₀.layout hm₀.region b.mem b.ne_end hroom₀ hsize
  have hnext := (hm₀.layout.splitItem_links hm₀.region b.mem b.ne_end hpx hroom₀).2.1 b.mem
  rw [if_pos rfl] at hnext
  obtain ⟨hsused, hsmax⟩ := splitItem_accounts hm₀.region hpx
  have hsword : ∀ o, Outside items o → o < p + 12 + size ∨ m.next p ≤ o →
      (splitItem { m with used := u } p (p + 12 + size)).word o = m.word o := by
    intro o hout ho
    exact hm₀.layout.splitItem_outside hm₀.region b.mem b.ne_end hpx hout (by omega)
  generalize splitItem { m with used := u } p (p + 12 + size) = m₁ at c hnext hsused hsmax hsword ⊢
  have hxn : p + 12 + size ∉ items := by
    intro hx
    have := h.layout.gap p b.mem b.ne_end _ hx
    omega
  have hO := c.opened hm₀ (Set.mem_insert _ _) hxn hnext
    (fun s hs => (Set.mem_insert_iff.mp hs).symm)
  have hm₁ : (if p + 12 + size < m₁.lfree then { m₁ with lfree := p + 12 + size } else m₁) =
      { m₁ with lfree := if p + 12 + size < m₁.lfree then p + 12 + size else m₁.lfree } := by
    split_ifs <;> rfl
  rw [hm₁]
  obtain ⟨m', items', hplug, hset, hkeep⟩ := hO.plugHoles
  obtain ⟨hword, hpused, hpmax⟩ := hO.plugHoles_outside hplug
  have hreg : SameRegion m m' :=
    ⟨hkeep.region.addr.trans c.region.addr, hkeep.region.heapPtr.trans c.region.heapPtr,
      hkeep.region.heapEnd.trans c.region.heapEnd,
      hkeep.region.memSizeAligned.trans c.region.memSizeAligned⟩
  have hused : ∀ s ∈ items, m₁.memIsUsed s ↔ m.memIsUsed s := fun s hs => c.isUsed_iff hs
  -- a used item passes the split and the plugging with its status; all but `p` with their extent
  have hpass : ∀ s ∈ items, m.memIsUsed s → s ∈ items' ∧ m'.memIsUsed s ∧ m'.next s = m₁.next s := by
    intro s hs hu
    have hu₁ := (hused s hs).mpr hu
    have hmem := hkeep.used s (c.subset hs) hu₁
    exact ⟨hmem, (hkeep.isUsed_iff hmem).mpr hu₁, hkeep.next s hmem hu₁⟩
  -- a word that is in no header, the new one included, passes too
  have hdata : ∀ o, Outside items o → o < p + 12 + size ∨ m.next p ≤ o → m'.word o = m.word o := by
    intro o hout ho
    refine (hword o ?_).trans (hsword o hout ho)
    intro s hs
    rcases Set.mem_insert_iff.mp hs with rfl | hs
    · omega
    · exact hout s hs
  obtain ⟨hpmem, hpused', hpnext⟩ := hpass p b.mem b.used
  refine ⟨m', items', hplug, hset, ⟨hreg, ?_, ?_, ?_⟩, hkeep.subset, hpmem, hpused',
    hpnext.trans hnext, ?_, ?_, ?_⟩
  · intro s _
    constructor
    · intro ⟨hmem, hu⟩
      have hu₁ := (hkeep.isUsed_iff hmem).mp hu
      rcases Set.mem_insert_iff.mp (hkeep.subset hmem) with rfl | hs
      · exact absurd hu₁ (c.fresh _ (Set.mem_insert _ _) hxn).1
      · exact ⟨hs, (hused s hs).mp hu₁⟩
    · exact fun ⟨hs, hu⟩ => ⟨(hpass s hs hu).1, (hpass s hs hu).2.1⟩
  · intro s hs hmem _ hu
    exact (hpass s hmem hu).2.2.trans (c.next s hmem hs)
  · intro s hs hmem hse _ o hlo hhi
    refine hdata o (h.layout.outside hmem hse hlo hhi) ?_
    rcases h.layout.gap s hmem hse p b.mem with hle | hge
    · rcases h.layout.gap p b.mem b.ne_end s hmem with hle' | hge'
      · exact absurd (Nat.le_antisymm hle' hle) hs
      · exact .inr (by omega)
    · exact .inl (by omega)
  · intro o hlo hhi
    exact hdata o (h.layout.outside b.mem b.ne_end hlo (by omega)) (.inl hhi)
  · exact hu ▸ hpused.trans hsused
  · exact hpmax.trans hsmax

/-- What resizing in place leaves behind. -/
structure Resized (m m' : RtSmallMem) (items items' : Set Nat) (a p size : Nat) : Prop where
  settled : Settled m' items'
  region : SameRegion m m'
  keeps : KeepsBlocks m m' items items' p
  block : Block m' items' a p
  room : p + 12 + size ≤ m'.next p

theorem Shrunk.resized {m m' : RtSmallMem} {items items' : Set Nat}
    (r : Shrunk m m' items items' p size) (b : Block m items a p) (hsize : size % 4 = 0)
    (hpos : 0 < size) : Resized m m' items items' a p size where
  settled := r.settled
  region := r.spares.region
  keeps := r.spares.keepsBlocks
  block := ⟨r.spares.region.heapPtr ▸ b.addr, r.mem, r.spares.region.heapEnd ▸ b.ne_end, r.isUsed, by
    rw [r.next]
    omega⟩
  room := r.next.ge

/-- What moving the block at `p` to `q` leaves behind. -/
structure Moved (m m' : RtSmallMem) (items items' : Set Nat) (size p a q : Nat) : Prop where
  settled : Settled m' items'
  region : SameRegion m m'
  keeps : ∀ a' p', p' ≠ p → Block m items a' p' →
    Block m' items' a' p' ∧ m'.next p' = m.next p'
  block : Block m' items' a q
  room : q + 12 + size ≤ m'.next q
  new : ∀ b, ¬ Block m items b q

/-- Copying into the item that served the request and giving the old block back. -/
theorem Served.move {m m₁ : RtSmallMem} {items items₁ : Set Nat} {size a p q k : Nat}
    (t : Served m m₁ items items₁ q size) (h : Settled m items) (hm : m.addr ≠ 0)
    (b : Block m items a p) (hk : 4 * k ≤ size) (src : Nat) :
    ∃ m' items', Mem.rtSmemFree (copyWords m₁ (q + 12) src k) a = some m' ∧
      DataWritten m₁ (copyWords m₁ (q + 12) src k) q ∧
      Released (copyWords m₁ (q + 12) src k) m' items₁ items' p := by
  have hqp : p ≠ q := fun he => t.serves.2.1 (he ▸ b.used)
  obtain ⟨b₁, -⟩ := t.spares.keepsBlocks a p hqp b
  have hroom := t.room
  have d : DataWritten m₁ (copyWords m₁ (q + 12) src k) q := copyWords_dataWritten (by omega)
  have hqe : q ≠ m₁.heapEnd := t.spares.region.heapEnd ▸ t.serves.ne_end h.layout
  have hm₂ : (copyWords m₁ (q + 12) src k).addr ≠ 0 := by
    rw [d.region.addr, t.spares.region.addr]
    exact hm
  obtain ⟨m', items', hfree, r⟩ := (d.settled t.settled t.mem hqe).rtSmemFree_released hm₂
    (d.block t.settled.layout t.mem hqe b₁)
  exact ⟨m', items', hfree, d, r⟩

theorem Served.moved {m m₁ m₂ m' : RtSmallMem} {items items₁ items' : Set Nat} {n size a p q : Nat}
    (t : Served m m₁ items items₁ q n) (h : Settled m items) (b : Block m items a p)
    (d : DataWritten m₁ m₂ q) (r : Released m₂ m' items₁ items' p) (hmin : minSizeAligned ≤ n)
    (hle : size ≤ n) : Moved m m' items items' size p (m.heapPtr + q + 12) q := by
  have hqp : p ≠ q := fun he => t.serves.2.1 (he ▸ b.used)
  have hnew : ∀ b, ¬ Block m items b q := fun _ hb => t.serves.2.1 hb.used
  have L₁ := t.settled.layout
  have hqe : q ≠ m₁.heapEnd := t.spares.region.heapEnd ▸ t.serves.ne_end h.layout
  have hblock := d.block L₁ t.mem hqe (t.block h hmin)
  have hnextq := (d.header L₁ t.mem hqe t.mem).2.1
  have hroom := t.room
  refine ⟨r.settled, (t.spares.region.trans d.region).trans r.spares.region, ?_,
    (r.spares.keepsBlocks _ q hqp.symm hblock).1, ?_, hnew⟩
  · intro a' s hs b'
    have hsq : s ≠ q := fun he => hnew a' (he ▸ b')
    obtain ⟨b'₁, hnext₁⟩ := t.spares.keepsBlocks a' s hsq b'
    obtain ⟨b'₂, hnext₂⟩ := r.spares.keepsBlocks a' s hs (d.block L₁ t.mem hqe b'₁)
    have hnext := (d.header L₁ t.mem hqe b'₁.mem).2.1
    exact ⟨b'₂, by rw [hnext₂, hnext, hnext₁]⟩
  · rw [(r.spares.keepsBlocks _ q hqp.symm hblock).2, hnextq]
    omega

/-- The possible outcomes of resizing the live block `a` at `p`. -/
inductive Reallocated (m : RtSmallMem) (items : Set Nat) (a p size : Nat) :
    RtSmallMem × Nat → Prop
  /-- Refused: the heap is as it was. -/
  | refused : Reallocated m items a p size (m, 0)
  /-- A request for no bytes gives the block back. -/
  | freed {m' items'} (hzero : size = 0) (settled : Settled m' items') (region : SameRegion m m')
      (keeps : KeepsBlocks m m' items items' p) : Reallocated m items a p size (m', 0)
  | resized {m' items'} (hpos : 0 < size) (r : Resized m m' items items' a p size) :
      Reallocated m items a p size (m', a)
  | moved {m' items' a' q} (hpos : 0 < size) (r : Moved m m' items items' size p a' q) :
      Reallocated m items a p size (m', a')

/-- The outcomes with what tells them apart and all that they change. -/
inductive ReallocCase (m : RtSmallMem) (items : Set Nat) (a p size : Nat) :
    RtSmallMem × Nat → Prop
  /-- Too large for any heap of this size. -/
  | tooLarge (hbig : m.memSizeAligned < size) : ReallocCase m items a p size (m, 0)
  | freed {m' items'} (hzero : size = 0) (r : Released m m' items items' p) :
      ReallocCase m items a p size (m', 0)
  | same (hpos : 0 < size) (hsame : m.next p = p + 12 + size) : ReallocCase m items a p size (m, a)
  | shrunk {m' items'} (hpos : 0 < size) (hcut : p + 12 + size + 24 < m.next p)
      (r : Shrunk m m' items items' p size) : ReallocCase m items a p size (m', a)
  /-- Neither in place nor served elsewhere. -/
  | refused (hpos : 0 < size) (hother : m.next p ≠ p + 12 + size)
      (hcut : m.next p ≤ p + 12 + size + 24) (hnone : ∀ x, ¬ Serves m items (request size) x) :
      ReallocCase m items a p size (m, 0)
  | moved {m₁ m' items₁ items' q} (hpos : 0 < size) (hother : m.next p ≠ p + 12 + size)
      (hcut : m.next p ≤ p + 12 + size + 24) (t : Served m m₁ items items₁ q (request size))
      (d : DataWritten m₁ (copyWords m₁ (q + 12) (p + 12) (min (m.next p - p - 12) size / 4)) q)
      (r : Released (copyWords m₁ (q + 12) (p + 12) (min (m.next p - p - 12) size / 4)) m'
        items₁ items' p) :
      ReallocCase m items a p size (m', m.heapPtr + q + 12)

/-- `rt_smem_realloc` of a live block returns, in one of the cases. -/
theorem Settled.rtSmemRealloc_cases
    (h : Settled m items) (hm : m.addr ≠ 0) (b : Block m items a p) (newsize : UInt32) :
    ∃ r, rtSmemRealloc m a newsize = some r ∧
      ReallocCase m items a p (rtAlign newsize.toNat) r := by
  have h1 := h.region.heapEnd
  have h2 := h.region.fits
  have hn := h.layout.next_mem p b.mem b.ne_end
  have hle := h.layout.le_end _ hn.1
  have haddr := b.addr
  unfold Mem.rtSmemRealloc
  have hal := rtAlign_eq newsize.toNat
  generalize rtAlign newsize.toNat = size at hal ⊢
  simp only []
  by_cases hbig : size > m.memSizeAligned
  · rw [if_pos hbig]
    exact ⟨_, rfl, .tooLarge hbig⟩
  rw [if_neg hbig]
  by_cases hzero : size = 0
  · rw [if_pos hzero]
    obtain ⟨m', items', hfree, r⟩ := h.rtSmemFree_released hm b
    rw [hfree]
    exact ⟨_, rfl, .freed hzero r⟩
  have ha0 : a ≠ 0 := by omega
  have hpos : 0 < size := by omega
  rw [if_neg hzero, if_neg ha0, if_pos (b.inHeap h.region h.layout), b.itemOf h.region h.layout]
  have hext : sub32 (m.next p) p = m.next p - p := sub32_eq (by omega) (by omega)
  have hold : sub32 (m.next p - p) sizeofStructMem = m.next p - p - 12 := by
    rw [sizeofStructMem, sub32_eq (by omega) (by omega)]
  rw [hext, hold]
  by_cases hsame : m.next p - p - 12 = size
  · rw [if_pos hsame]
    exact ⟨_, rfl, .same hpos (by omega)⟩
  rw [if_neg hsame]
  have hs12 : add32 size sizeofStructMem = size + 12 := add32_eq (by rw [sizeofStructMem]; omega)
  have hs24 : add32 (size + 12) minSize = size + 12 + 12 := add32_eq (by rw [minSize]; omega)
  have hp12 : add32 p sizeofStructMem = p + 12 := add32_eq (by rw [sizeofStructMem]; omega)
  rw [hs12, hs24, hp12]
  by_cases hcut : size + 12 + 12 < m.next p - p - 12
  · have hx : add32 (p + 12) size = p + 12 + size := add32_eq (by omega)
    have hrest : sub32 (m.next p - p - 12) size = m.next p - p - 12 - size :=
      sub32_eq (by omega) (by omega)
    rw [if_pos hcut, hx, hrest]
    have hroom : p + 12 + size + 12 ≤ m.next p := by omega
    obtain ⟨m', items', hplug, r⟩ := h.shrink b hroom (by omega)
    rw [hplug]
    exact ⟨_, rfl, .shrunk hpos (by omega) r⟩
  rw [if_neg hcut]
  have hnat : (UInt32.ofNat size).toNat = size :=
    UInt32.toNat_ofNat_of_lt' (by rw [UInt32.size]; omega)
  rcases h.rtSmemAlloc_served (UInt32.ofNat size) (by omega) with
    ⟨hnull, hnone⟩ | ⟨m₁, items₁, q, halloc, t, -⟩
  · rw [hnull]
    rw [hnat] at hnone
    exact ⟨_, rfl, .refused hpos (by omega) (by omega) hnone⟩
  · rw [halloc]
    rw [hnat] at t
    obtain ⟨-, hreq, -⟩ := request_spec size
    rw [rtAlign_eq] at hreq
    have hptr := t.spares.region.heapPtr
    have hq := t.settled.layout.le_end q t.mem
    have hf := t.settled.region.fits
    have hdst : sub32 (m.heapPtr + q + 12) m₁.heapPtr = q + 12 := by
      rw [sub32_eq (by omega) (by omega)]
      omega
    have hsrc : sub32 a m₁.heapPtr = p + 12 := by
      rw [sub32_eq (by omega) (by omega)]
      omega
    have hbytes : (if m.next p - p - 12 < size then m.next p - p - 12 else size) =
        min (m.next p - p - 12) size := by
      split_ifs <;> omega
    have ha'0 : m.heapPtr + q + 12 ≠ 0 := by omega
    simp only [if_pos ha'0, hdst, hsrc, hbytes]
    obtain ⟨m', items', hfree, d, r⟩ := t.move
      (k := min (m.next p - p - 12) size / 4) h hm b (by omega) (p + 12)
    rw [hfree]
    exact ⟨_, rfl, .moved hpos (by omega) (by omega) t d r⟩

/-- `rt_smem_realloc` of a live block returns, with one of the four outcomes. -/
theorem Settled.rtSmemRealloc (h : Settled m items)
    (hm : m.addr ≠ 0) (b : Block m items a p) (newsize : UInt32) :
    ∃ r, rtSmemRealloc m a newsize = some r ∧
      Reallocated m items a p (rtAlign newsize.toNat) r := by
  obtain ⟨r, hr, hcase⟩ := h.rtSmemRealloc_cases hm b newsize
  refine ⟨r, hr, ?_⟩
  have hal := rtAlign_eq newsize.toNat
  generalize rtAlign newsize.toNat = size at hal hcase ⊢
  cases hcase with
  | tooLarge _ | refused _ _ _ _ => exact .refused
  | freed hzero r => exact .freed hzero r.settled r.spares.region r.spares.keepsBlocks
  | same hpos hsame => exact .resized hpos ⟨h, .refl m, fun _ _ _ b' => ⟨b', rfl⟩, b, hsame.ge⟩
  | shrunk hpos _ r => exact .resized hpos (r.resized b (by omega) hpos)
  | moved hpos _ _ t d r =>
    obtain ⟨-, hreq, hmin⟩ := request_spec size
    rw [rtAlign_eq] at hreq
    exact .moved hpos (t.moved h b d r hmin (by omega))

end RtKernel.Mem

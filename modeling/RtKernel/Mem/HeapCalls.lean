import RtKernel.Mem.HeapBytes

/-!
# The calls on a memory heap

Each call on a heap that is laid out gives one that is: the counter is the size of all
free items, and no two neighbours are free. A call takes or gives back one item, and
all other items that are in use stay.
-/

open List

namespace RtKernel.Memheap.RtMemheap

variable {h h' : RtMemheap} {a b n p s tail : Nat} {items free marked l l₁ l₂ : List Nat}

/-- The size of the data of some items. -/
def total (h : RtMemheap) (l : List Nat) : Nat := (l.map h.size).sum

theorem total_nil (h : RtMemheap) : h.total [] = 0 := rfl

theorem total_cons (h : RtMemheap) (a : Nat) (l : List Nat) :
    h.total (a :: l) = h.size a + h.total l := by
  rw [total, map_cons, sum_cons, total]

theorem total_erase (ha : a ∈ l) : h.total l = h.size a + h.total (l.erase a) := by
  have hperm := (perm_cons_erase ha).map h.size
  rw [total, hperm.sum_eq, map_cons, sum_cons, total]

theorem total_congr (hsize : ∀ a ∈ l, h'.size a = h.size a) : h'.total l = h.total l := by
  rw [total, total, map_congr_left hsize]

theorem size_congr (hnext : h'.get a .next = h.get a .next) : h'.size a = h.size a := by
  rw [size, size, hnext]

/-- Some items and their headers, and the tail, fit into the region. -/
theorem Linked.total_le (L : Linked h tail items free marked) (hnodup : l.Nodup)
    (hsub : ∀ a ∈ l, a ∈ items) : h.total l + 24 * l.length + 24 ≤ h.poolSize := by
  have hle := L.rings.sum_le L.first hnodup hsub
  have hsum : ∀ l : List Nat, (l.map fun a => h.size a + 24).sum = h.total l + 24 * l.length := by
    intro l
    induction l with
    | nil => rfl
    | cons a rest ih =>
      rw [map_cons, sum_cons, ih, total_cons, length_cons]
      omega
  have htail := L.tail_eq
  rw [hsum] at hle
  omega

/-- A heap between two calls. -/
structure Laid (h : RtMemheap) (tail : Nat) (items free : List Nat) : Prop where
  linked : Linked h tail items free free
  separate : ∀ a ∈ free, h.get a .next ∉ free
  counted : h.availableSize = h.total free
  maxUsed : h.poolSize ≤ h.maxUsedSize + h.availableSize

theorem Laid.available_le (L : Laid h tail items free) :
    h.availableSize + 24 * free.length + 24 ≤ h.poolSize :=
  L.counted ▸ L.linked.total_le L.linked.nodup L.linked.sub

theorem updateMax_mem : h.updateMax.mem = h.mem := by
  unfold updateMax
  split <;> rfl

theorem updateMax_get : h.updateMax.get a = h.get a := by
  ext f
  rw [get, get, updateMax_mem]

theorem updateMax_availableSize : h.updateMax.availableSize = h.availableSize := by
  unfold updateMax
  split <;> rfl

theorem updateMax_same (h : RtMemheap) : SameObject h h.updateMax := by
  unfold updateMax
  split
  · exact ⟨rfl, rfl, rfl, rfl⟩
  · exact .refl h

theorem setAvailable_same (h : RtMemheap) (s : Nat) : SameObject h (h.setAvailable s) :=
  ⟨rfl, rfl, rfl, rfl⟩

theorem updateMax_spec (hpool : h.poolSize < 2 ^ 32) (havail : h.availableSize ≤ h.poolSize) :
    h.poolSize ≤ h.updateMax.maxUsedSize + h.availableSize := by
  have hused : sub32 h.poolSize h.availableSize = h.poolSize - h.availableSize :=
    sub32_eq havail hpool
  unfold updateMax
  rw [hused]
  split
  · change h.poolSize ≤ h.poolSize - h.availableSize + h.availableSize
    omega
  · omega

/-- The search ends at an item that is large enough, or with a size that is too small where all
items are. -/
theorem Rings.search_spec {size turns freeSize : Nat} {k : List Nat}
    (R : Rings h tail items (l₁ ++ l₂)) (hk : l₂ ++ [h.freeList] = b :: k)
    (hsize : freeSize < size) (hturns : l₂.length < turns) :
    ∃ p s, h.search size turns b freeSize = some (p, s) ∧
      ((s < size ∧ ∀ a ∈ l₂, h.size a < size) ∨ p ∈ l₁ ++ l₂ ∧ s = h.size p ∧ size ≤ s) := by
  induction l₂ generalizing l₁ b k turns freeSize with
  | nil =>
    obtain ⟨rest, rfl⟩ : ∃ rest, turns = rest + 1 := ⟨turns - 1, by
      omega⟩
    cases hk
    refine ⟨h.freeList, freeSize, ?_, .inl ⟨hsize, by simp⟩⟩
    simp [search]
  | cons a rest ih =>
    obtain ⟨t, rfl⟩ : ∃ t, turns = t + 1 + 1 := ⟨turns - 2, by
      rw [length_cons] at hturns
      omega⟩
    have hb : a = b := (List.cons.inj hk).1
    subst hb
    have ha : a ∈ l₁ ++ a :: rest := by simp
    have hne : a ≠ h.freeList := fun heq => (nodup_cons.mp R.frees_nodup).1 (heq ▸ ha)
    unfold search
    rw [if_pos ⟨hne, hsize⟩, R.memitemSize_eq (R.sub a ha)]
    dsimp only
    by_cases hlt : h.size a < size
    · obtain ⟨c, g, hc⟩ := exists_next rest h.freeList
      have hnext : h.get a .nextFree = c := (R.freeRing.link (f := h.freeList :: l₁) rfl hc).1
      have hfree : l₁ ++ a :: rest = (l₁ ++ [a]) ++ rest := by simp
      have hlen : rest.length < t + 1 := by
        rw [length_cons] at hturns
        omega
      rw [if_pos hlt, hnext]
      rw [hfree] at R ⊢
      obtain ⟨p, s, hsearch, hend⟩ := ih R hc hlt hlen
      refine ⟨p, s, hsearch, hend.imp_left fun hsmall => ⟨hsmall.1, ?_⟩⟩
      exact forall_mem_cons.mpr ⟨hlt, hsmall.2⟩
    · refine ⟨a, h.size a, ?_, .inr ⟨ha, rfl, Nat.le_of_not_lt hlt⟩⟩
      rw [if_neg hlt, search, if_neg fun hand => hlt hand.2]

/-- `rt_memheap_alloc` finds a free item, or there is none that is large enough. -/
theorem Laid.search (L : Laid h tail items free) (size : Nat) (hsize : 0 < size) :
    ∃ p s, h.search size h.poolSize (h.get h.freeList .nextFree) 0 = some (p, s) ∧
      ((s < size ∧ ∀ a ∈ free, h.size a < size) ∨ p ∈ free ∧ s = h.size p ∧ size ≤ s) := by
  obtain ⟨b, k, hk⟩ := Rings.exists_next free h.freeList
  have hnext : h.get h.freeList .nextFree = b :=
    (L.linked.rings.freeRing.link (f := []) rfl hk).1
  have hle := L.available_le
  rw [hnext]
  have R : Rings h tail items ([] ++ free) := L.linked.rings
  exact R.search_spec hk hsize (by omega)

theorem request_spec (size : Nat) : 12 ≤ request size ∧ request size + 4 ≤ 2 ^ 32 := by
  have halign := rtAlign_eq size
  unfold request rtMemheapMinialloc
  split <;> omega

theorem request_le (size : Nat) : request size ≤ request (request size) := by
  obtain ⟨hmin, hmax⟩ := request_spec size
  have halign := rtAlign_eq (request size)
  have hmult : request size % 4 = 0 := by
    have halign := rtAlign_eq size
    unfold request rtMemheapMinialloc
    split <;> omega
  have hle : request size ≤ rtAlign (request size) := by omega
  apply hle.trans
  generalize request size = n
  unfold request
  split <;> omega

/-- What an allocation takes away from the counter, and the new maximum. -/
theorem counters_keeps (size : Nat) : Keeps h (h.setAvailable size).updateMax tail items :=
  ⟨(setAvailable_same h size).trans (updateMax_same _), fun p _ => congrFun updateMax_mem p⟩

theorem Linked.counters (L : Linked h tail items free marked) (size : Nat) (hsize : size ≤ h.poolSize) :
    Linked (h.setAvailable size).updateMax tail items free marked ∧
      h.poolSize ≤ (h.setAvailable size).updateMax.maxUsedSize + size := by
  have L' : Linked (h.setAvailable size) tail items free marked := L.congr rfl (setAvailable_same h size)
  constructor
  · exact L'.congr updateMax_mem (updateMax_same _)
  · exact updateMax_spec L'.pool_lt hsize

theorem Laid.split (L : Laid h tail (l₁ ++ a :: l₂) free) (ha : a ∈ free)
    (hsize : s + 36 ≤ h.size a) (hn : n = a + (s + 24)) :
    let h' := (((((((h.insertItem a n).removeFree a).set a .nextFree 0).set a .prevFree
      0).insertFree n).setAvailable (h.availableSize - s - 24)).updateMax).set a .magic rtMemheapUsed
    Laid h' tail (l₁ ++ a :: n :: l₂) (n :: free.erase a) ∧
      Keeps h h' tail (l₁ ++ a :: n :: l₂) ∧ h'.size a = s := by
  intro h'
  have hitem := L.linked.rings.sub a ha
  have hnext := L.linked.rings.next_size hitem
  have havail := L.available_le
  have htotal := total_erase (h := h) ha
  have hcounted := L.counted
  obtain ⟨L₁, hnot, hnew, hback, hother⟩ :=
    L.linked.insertItem (n := n) (by omega) (by omega)
  have hfree : n ∉ free := fun hm => hnot (mem_cons_of_mem tail (L.linked.sub n hm))
  have hne : a ≠ n := by omega
  have hmem : a ∈ l₁ ++ a :: n :: l₂ := by simp
  obtain ⟨L₂, hkeep₂⟩ := L₁.removeFree ha
  obtain ⟨L₃, hkeep₃⟩ := L₂.clear hmem fun hm => (L.linked.nodup.mem_erase_iff.mp hm).1 rfl
  obtain ⟨L₄, hkeep₄⟩ := L₃.insertFree (n := n) (by simp) fun hm => hfree (mem_of_mem_erase hm)
  obtain ⟨L₅, hmax⟩ := L₄.counters (h.availableSize - s - 24) (by
    change _ ≤ h.poolSize
    omega)
  obtain ⟨L₆, hkeep₆⟩ := L₅.unmark hmem
  have hsame : Keeps h h' tail (l₁ ++ a :: n :: l₂) := by
    apply Keeps.trans _ (.set hmem)
    apply Keeps.trans _ (counters_keeps _)
    apply Keeps.trans _ (L₃.rings.insertFree_keeps (by simp))
    apply Keeps.trans _ (.set hmem)
    apply Keeps.trans _ (.set hmem)
    exact (L.linked.rings.insertItem_keeps (by omega)).trans (L₁.rings.removeFree_keeps ha)
  have hmarked : (n :: free).erase a = n :: free.erase a := erase_cons_tail (by simpa using hne.symm)
  have hkeep : ∀ x ∈ l₁ ++ a :: n :: l₂, h'.get x .next = (h.insertItem a n).get x .next := by
    intro x hx
    rw [hkeep₆ x hx, updateMax_get, setAvailable_get, hkeep₄ x hx, hkeep₃ x hx, hkeep₂ x hx]
  have hold : ∀ x ∈ free.erase a, h'.get x .next = h.get x .next := by
    intro x hx
    have hx := L.linked.nodup.mem_erase_iff.mp hx
    have hxmem := L.linked.sub x hx.2
    rw [hkeep x (Rings.mem_behind.mpr (.inr hxmem)), hother x hxmem hx.1]
  refine ⟨?_, hsame, ?_⟩
  · constructor
    · exact hmarked ▸ L₆
    · intro x hx hm
      rcases mem_cons.mp hx with rfl | hx
      · rw [hkeep x (by simp), hnew] at hm
        rcases mem_cons.mp hm with heq | hm
        · omega
        · exact L.separate a ha (mem_of_mem_erase hm)
      · have hxfree := mem_of_mem_erase hx
        rw [hold x hx] at hm
        rcases mem_cons.mp hm with heq | hm
        · have hxmem := mem_cons_of_mem tail (L.linked.sub x hxfree)
          exact hnot (heq ▸ (L.linked.rings.ring.next_spec hxmem).1)
        · exact L.separate x hxfree (mem_of_mem_erase hm)
    · have hlast : h'.size n = h.size a - s - 24 := by
        rw [size, hkeep n (by simp), hnew]
        omega
      have hsum : h'.total (free.erase a) = h.total (free.erase a) :=
        total_congr fun x hx => size_congr (hold x hx)
      have hcount : h'.availableSize = h.availableSize - s - 24 := updateMax_availableSize
      rw [hcount, total_cons, hlast, hsum]
      omega
    · have hcount : h'.availableSize = h.availableSize - s - 24 := updateMax_availableSize
      rw [hsame.poolSize, hcount]
      exact hmax
  · rw [size, hkeep a hmem, hback]
    omega

theorem Laid.take (L : Laid h tail items free) (ha : a ∈ free) :
    let h' := (((((h.setAvailable (h.availableSize - h.size a)).updateMax).removeFree a).set a
      .nextFree 0).set a .prevFree 0).set a .magic rtMemheapUsed
    Laid h' tail items (free.erase a) ∧ Keeps h h' tail items ∧ h'.size a = h.size a := by
  intro h'
  have hitem := L.linked.rings.sub a ha
  have havail := L.available_le
  have htotal := total_erase (h := h) ha
  have hcounted := L.counted
  obtain ⟨L₁, hmax⟩ := L.linked.counters (h.availableSize - h.size a) (by omega)
  obtain ⟨L₂, hkeep₂⟩ := L₁.removeFree ha
  obtain ⟨L₃, hkeep₃⟩ := L₂.clear hitem fun hm => (L.linked.nodup.mem_erase_iff.mp hm).1 rfl
  obtain ⟨L₄, hkeep₄⟩ := L₃.unmark hitem
  have hsame : Keeps h h' tail items := by
    apply ((counters_keeps _).trans (L₁.rings.removeFree_keeps ha)).trans
    exact ((Keeps.set hitem).trans (.set hitem)).trans (.set hitem)
  have hkeep : ∀ x ∈ items, h'.get x .next = h.get x .next := by
    intro x hx
    rw [hkeep₄ x hx, hkeep₃ x hx, hkeep₂ x hx, updateMax_get, setAvailable_get]
  have hcount : h'.availableSize = h.availableSize - h.size a := updateMax_availableSize
  refine ⟨?_, hsame, ?_⟩
  · constructor
    · exact L₄
    · intro x hx hm
      have hxfree := mem_of_mem_erase hx
      rw [hkeep x (L.linked.sub x hxfree)] at hm
      exact L.separate x hxfree (mem_of_mem_erase hm)
    · have hsum : h'.total (free.erase a) = h.total (free.erase a) := total_congr fun x hx =>
        size_congr (hkeep x (L.linked.sub x (mem_of_mem_erase hx)))
      rw [hcount, hsum]
      omega
    · have hused : h'.maxUsedSize = (h.setAvailable (h.availableSize - h.size a)).updateMax.maxUsedSize := by
        simp only [h', set_maxUsedSize, removeFree_maxUsedSize]
      rw [hsame.poolSize, hcount, hused]
      exact hmax
  · exact size_congr (hkeep a hitem)

/-- The items that are in use. -/
def Held (items free : List Nat) (a : Nat) : Prop := a ∈ items ∧ a ∉ free

theorem held_cons : Held items (n :: free) a ↔ Held items free a ∧ a ≠ n := by
  unfold Held
  rw [mem_cons]
  tauto

/-- The call of an allocation with nothing, or with an item that was free. -/
theorem Laid.alloc (L : Laid h tail items free) (size : Nat) :
    ∃ h' p, h.rtMemheapAlloc size = some (h', p) ∧ SameObject h h' ∧
      (∀ c, Held items free c → SameData h h' c (h.size c)) ∧
      (p = 0 ∧ h' = h ∨ ∃ a items' free', p = a + 24 ∧ ¬ Held items free a ∧
        Laid h' tail items' free' ∧ request size ≤ h'.size a ∧
        ∀ b, Held items' free' b ↔ b = a ∨ Held items free b) := by
  obtain ⟨hmin, hmax⟩ := request_spec size
  have havail := L.available_le
  have hpool := L.linked.pool_lt
  have hheader : rtMemheapSize = 24 := rfl
  unfold rtMemheapAlloc
  dsimp only
  by_cases hlt : request size < h.availableSize
  · obtain ⟨a, s, hsearch, hfound⟩ := L.search (request size) (by omega)
    rw [if_pos hlt, hsearch, Option.map_some]
    rcases hfound with ⟨hsmall, -⟩ | ⟨ha, rfl, hfits⟩
    · refine ⟨h, 0, ?_, .refl h, fun _ _ _ _ _ => rfl, .inl ⟨rfl, rfl⟩⟩
      rw [if_neg (Nat.not_le.mpr hsmall)]
    · have hitem := L.linked.rings.sub a ha
      have hitemlt := L.linked.rings.item_lt hitem
      have htail := L.linked.rings.tail_lt
      have htotal := total_erase (h := h) ha
      have hcounted := L.counted
      have hlen := length_pos_of_mem ha
      have hptr : add32 a rtMemheapSize = a + 24 := add32_eq (by omega)
      have hfull : add32 (request size) (rtMemheapSize + rtMemheapMinialloc) = request size + 36 :=
        add32_eq (by
          unfold rtMemheapSize rtMemheapMinialloc
          omega)
      rw [if_pos hfits, hptr, hfull]
      by_cases hsplit : request size + 36 ≤ h.size a
      · have hnext := L.linked.rings.next_size hitem
        have hnextle := (L.linked.rings.next_le hitem).2
        have hsize : add32 (request size) rtMemheapSize = request size + 24 := add32_eq (by omega)
        have hnew : add32 a (request size + 24) = a + (request size + 24) := add32_eq (by omega)
        have hsub : sub32 h.availableSize (request size) = h.availableSize - request size :=
          sub32_eq (by omega) (by omega)
        have hsub' : sub32 (h.availableSize - request size) rtMemheapSize =
            h.availableSize - request size - 24 := sub32_eq (by omega) (by omega)
        rw [if_pos hsplit, hsize, hnew]
        dsimp only [insertFree_availableSize, set_availableSize, removeFree_availableSize,
          insertItem_availableSize]
        rw [hsub, hsub']
        obtain ⟨l₁, l₂, rfl⟩ := append_of_mem hitem
        obtain ⟨L', hsame, hsize'⟩ := L.split ha hsplit rfl
        refine ⟨_, _, rfl, hsame.toSameObject, ?_,
          .inr ⟨a, _, _, rfl, fun hheld => hheld.2 ha, L', ?_, ?_⟩⟩
        · intro c hc
          have hne : c ≠ a := fun heq => hc.2 (heq ▸ ha)
          have hcnext := L.linked.rings.next_size hc.1
          have hac := L.linked.rings.data_apart hc.1 (Rings.item_node hitem)
          have hca := L.linked.rings.data_apart hitem (Rings.item_node hc.1)
          refine hsame.sameData L.linked.rings hc.1 hcnext.ge fun x hx => ?_
          exact (Rings.mem_behind.mp hx).symm.imp_right fun heq => by omega
        · exact hsize'.ge
        · intro b
          unfold Held
          rw [mem_cons, L.linked.nodup.mem_erase_iff]
          by_cases hb : b = a
          · simp [hb]
          · by_cases hbn : b = a + (request size + 24)
            · have hnot := L'.linked.rings.not_mem_behind
              rw [← hbn, mem_cons, not_or] at hnot
              simp [hb, hbn.symm, hnot.2]
            · simp [hb, hbn]
      · have hsub : sub32 h.availableSize (h.size a) = h.availableSize - h.size a :=
          sub32_eq (by omega) (by omega)
        rw [if_neg hsplit, hsub]
        obtain ⟨L', hsame, hsize'⟩ := L.take ha
        refine ⟨_, _, rfl, hsame.toSameObject, ?_,
          .inr ⟨a, _, _, rfl, fun hheld => hheld.2 ha, L', ?_, ?_⟩⟩
        · exact fun c hc => hsame.sameData L.linked.rings hc.1 (L.linked.rings.next_size hc.1).ge
            fun x hx => .inl hx
        · exact hsize'.ge.trans' hfits
        · intro b
          unfold Held
          rw [L.linked.nodup.mem_erase_iff]
          by_cases hb : b = a
          · simp [hb, hitem]
          · simp [hb]
  · refine ⟨h, 0, ?_, .refl h, fun _ _ _ _ _ => rfl, .inl ⟨rfl, rfl⟩⟩
    rw [if_neg hlt]

/-- An item may be merged with the next one, and there is no free neighbour after it. -/
theorem Linked.mergeRight (L : Linked h tail (l₁ ++ a :: l₂) free marked)
    (hfree : free = marked ∨ a :: free = marked) (ha : a ∈ marked)
    (hseparate : ∀ x ∈ marked, x ≠ a → h.get x .next ∉ marked)
    (hcounted : h.availableSize = h.total marked) :
    ∃ l₂' free' marked', Linked (h.mergeRight a) tail (l₁ ++ a :: l₂') free' marked' ∧
      (free = marked → free' = marked') ∧ (a :: free = marked → a :: free' = marked') ∧
      (∀ x ∈ marked', (h.mergeRight a).get x .next ∉ marked') ∧
      (h.mergeRight a).availableSize = (h.mergeRight a).total marked' ∧
      Keeps h (h.mergeRight a) tail (l₁ ++ a :: l₂) ∧ l₁ ++ a :: l₂' ⊆ l₁ ++ a :: l₂ ∧
      (h.mergeRight a).maxUsedSize = h.maxUsedSize ∧
      h.availableSize ≤ (h.mergeRight a).availableSize ∧
      ∀ x, Held (l₁ ++ a :: l₂') marked' x ↔ Held (l₁ ++ a :: l₂) marked x := by
  obtain ⟨b, k, hk⟩ := Rings.exists_next l₂ tail
  have hnext : h.get a .next = b := (L.rings.next_eq hk).1
  unfold RtMemheap.mergeRight
  rw [hnext]
  by_cases hused : h.IsUsed b
  · rw [if_neg (not_not.mpr hused)]
    refine ⟨l₂, free, marked, L, id, id, ?_, hcounted, .refl h _ _, Subset.refl _, rfl, le_rfl,
      fun _ => Iff.rfl⟩
    intro x hx
    by_cases hxa : x = a
    · rw [hxa, hnext]
      exact fun hm => (L.marks.isUsed_iff (L.sub b hm)).mp hused hm
    · exact hseparate x hx hxa
  · rw [if_pos hused]
    -- the next item is not the tail
    obtain ⟨l₃, rfl⟩ : ∃ l₃, l₂ = b :: l₃ := by
      cases l₂ with
      | nil =>
        cases hk
        exact absurd L.marks.isUsed_tail hused
      | cons c l₃ => exact ⟨l₃, by rw [(List.cons.inj hk).1]⟩
    have hbitem : b ∈ l₁ ++ a :: b :: l₃ := by simp
    have hbmarked : b ∈ marked := by
      by_contra hm
      exact hused ((L.marks.isUsed_iff hbitem).mpr hm)
    have hne : b ≠ a := by
      have hle := (L.rings.next_le (a := a) (by simp)).1
      omega
    have hbfree : b ∈ free := by
      rcases hfree with rfl | rfl
      · exact hbmarked
      · exact (mem_cons.mp hbmarked).resolve_left hne
    have hfits := L.total_le L.nodup L.sub
    have hpool := L.pool_lt
    have havail : add32 h.availableSize rtMemheapSize = h.availableSize + 24 := add32_eq (by
      unfold rtMemheapSize
      omega)
    dsimp only
    rw [setAvailable_get, hnext, havail]
    have L₁ : Linked (h.setAvailable (h.availableSize + 24)) tail (l₁ ++ a :: b :: l₃) free marked :=
      L.congr rfl (setAvailable_same h _)
    obtain ⟨L', hback, hother⟩ := L₁.mergeNext hbfree
    simp only [setAvailable_get] at hback hother
    refine ⟨l₃, free.erase b, marked.erase b, L', ?_, ?_, ?_, ?_, ?_, ?_, ?_, ?_, ?_⟩
    · exact fun heq => heq ▸ rfl
    · intro heq
      rw [← heq, erase_cons_tail (by simpa using hne.symm)]
    · intro x hx hm
      have hx := L.nodup.mem_erase_iff.mp hx
      by_cases hxa : x = a
      · rw [hxa, hback] at hm
        exact hseparate b hbmarked hne (mem_of_mem_erase hm)
      · rw [hother x (L.sub x hx.2) hxa] at hm
        exact hseparate x hx.2 hxa (mem_of_mem_erase hm)
    · have ha' : a ∈ marked.erase b := (mem_erase_of_ne hne.symm).mpr ha
      have htotal := total_erase (h := h) hbmarked
      have htotal₁ := total_erase (h := h) ha'
      have htotal₂ := total_erase (h := (h.setAvailable (h.availableSize + 24)).mergeNext a b) ha'
      have hrest : ((h.setAvailable (h.availableSize + 24)).mergeNext a b).total
          ((marked.erase b).erase a) = h.total ((marked.erase b).erase a) := by
        apply total_congr
        intro x hx
        have hx := (L.nodup.erase b).mem_erase_iff.mp hx
        exact size_congr (hother x (L.sub x (mem_of_mem_erase hx.2)) hx.1)
      have hsize : ((h.setAvailable (h.availableSize + 24)).mergeNext a b).size a =
          h.size a + 24 + h.size b := by
        have hbnext := L.rings.next_size hbitem
        have hanext := L.rings.next_size (a := a) (by simp)
        rw [size, hback]
        omega
      rw [mergeNext_availableSize, setAvailable_availableSize]
      omega
    · exact (L₁.rings.mergeNext_keeps (by simp) hbfree).setAvailable
    · exact fun x hx => Rings.mem_behind.mpr (.inr hx)
    · rw [mergeNext_maxUsedSize, setAvailable_maxUsedSize]
    · rw [mergeNext_availableSize, setAvailable_availableSize]
      exact Nat.le_add_right _ 24
    · intro x
      unfold Held
      by_cases hx : x = b
      · have hnot := L.rings.not_mem_behind
        rw [mem_cons, not_or] at hnot
        simp [hx, hbmarked, hnot.2]
      · simp [hx]

/-- The item in front of one that is not the first. -/
theorem Linked.exists_prev (L : Linked h tail items free marked) (hn : n ∈ items)
    (hprev : ¬ h.IsUsed (h.get n .prev)) :
    ∃ l₁ l₂, items = l₁ ++ h.get n .prev :: n :: l₂ ∧ h.get n .prev ∈ marked := by
  obtain ⟨hmem, hlink⟩ := L.rings.ring.prev_spec (mem_cons_of_mem tail hn)
  have hitem : h.get n .prev ∈ items := by
    rcases mem_cons.mp hmem with heq | hmem
    · exact absurd (heq ▸ L.marks.isUsed_tail) hprev
    · exact hmem
  obtain ⟨l₁, l₂, hl⟩ := append_of_mem hitem
  obtain ⟨b, k, hk⟩ := Rings.exists_next l₂ tail
  have hb : n = b := by
    rw [hl] at L
    exact hlink.symm.trans (L.rings.next_eq hk).1
  have hne : n ≠ tail := fun heq => (nodup_cons.mp L.rings.items_nodup).1 (heq ▸ hn)
  cases l₂ with
  | nil => exact absurd (hb.trans (List.cons.inj hk).1.symm) hne
  | cons c l₂ =>
    have hc : c = n := (List.cons.inj hk).1.trans hb.symm
    refine ⟨l₁, l₂, hc ▸ hl, ?_⟩
    by_contra hm
    exact hprev ((L.marks.isUsed_iff hitem).mpr hm)

/-- A free block goes into the free item in front of it, and both into the one behind. -/
theorem Linked.release_left (L : Linked h tail (l₁ ++ a :: n :: l₂) free (n :: free))
    (ha : a ∈ free) (hseparate : ∀ x ∈ free, h.get x .next ∉ free)
    (hcounted : h.availableSize = h.total (n :: free))
    (hmax : h.poolSize ≤ h.maxUsedSize + h.availableSize) :
    ∃ items' free', Laid ((h.mergeLeft n).1.mergeRight (h.mergeLeft n).2) tail items' free' ∧
      Keeps h ((h.mergeLeft n).1.mergeRight (h.mergeLeft n).2) tail (l₁ ++ a :: n :: l₂) ∧
      ∀ x, Held items' free' x ↔ Held (l₁ ++ a :: n :: l₂) (n :: free) x := by
  have hused : n ∉ free := (nodup_cons.mp L.nodup).1
  have hitem : n ∈ l₁ ++ a :: n :: l₂ := by simp
  have hfits := L.total_le L.nodup L.sub
  have hpool := L.pool_lt
  have havail : add32 h.availableSize rtMemheapSize = h.availableSize + 24 := add32_eq (by
    unfold rtMemheapSize
    omega)
  obtain ⟨hgoes, L₁, hback, hother⟩ := L.mergeLeft hused
  rw [erase_cons_head, erase_of_not_mem hused] at L₁
  rw [hgoes]
  have hnext₁ : ∀ x ∈ free, x ≠ a → (h.mergeLeft n).1.get x .next = h.get x .next :=
    fun x hx hxa => hother x (L.sub x (mem_cons_of_mem n hx)) hxa
  have hcounted₁ : (h.mergeLeft n).1.availableSize = (h.mergeLeft n).1.total free := by
    have htotal := total_erase (h := h) ha
    have htotal₁ := total_erase (h := (h.mergeLeft n).1) ha
    have hrest : (h.mergeLeft n).1.total (free.erase a) = h.total (free.erase a) := by
      apply total_congr
      intro x hx
      have hx := (nodup_cons.mp L.nodup).2.mem_erase_iff.mp hx
      exact size_congr (hnext₁ x hx.2 hx.1)
    have hsize : (h.mergeLeft n).1.size a = h.size a + 24 + h.size n := by
      have hnnext := L.rings.next_size hitem
      have hanext := L.rings.next_size (a := a) (by simp)
      have hlink := (L.rings.next_eq (a := a) (b := n) (k := l₂ ++ [tail]) rfl).1
      rw [size, hback]
      omega
    rw [total_cons] at hcounted
    rw [mergeLeft_availableSize, havail]
    omega
  have hseparate₁ : ∀ x ∈ free, x ≠ a → (h.mergeLeft n).1.get x .next ∉ free := by
    intro x hx hxa
    rw [hnext₁ x hx hxa]
    exact hseparate x hx
  obtain ⟨l₂', free', marked', L₂, heq, -, hsep, hcount, hsame, -, hmaxeq, hle, hheld⟩ :=
    L₁.mergeRight (.inl rfl) ha hseparate₁ hcounted₁
  rw [← heq rfl] at L₂ hsep hcount hheld
  have hsame' := (L.rings.mergeLeft_keeps hitem).trans
    (hsame.mono fun x hx => Rings.mem_behind.mpr (.inr hx))
  refine ⟨_, _, ⟨L₂, hsep, hcount, ?_⟩, hsame', ?_⟩
  · rw [mergeLeft_availableSize, havail] at hle
    rw [hsame'.poolSize, hmaxeq, mergeLeft_maxUsedSize]
    omega
  · intro x
    rw [hheld]
    unfold Held
    by_cases hx : x = n
    · have hnot := L.rings.not_mem_behind
      rw [mem_cons, not_or] at hnot
      simp [hx, hnot.2]
    · simp [hx]

/-- A free block goes into the free item behind it, and is inserted into the free list. -/
theorem Linked.release_right (L : Linked h tail items free (n :: free)) (hn : n ∈ items)
    (hprev : h.IsUsed (h.get n .prev)) (hseparate : ∀ x ∈ free, h.get x .next ∉ free)
    (hcounted : h.availableSize = h.total (n :: free))
    (hmax : h.poolSize ≤ h.maxUsedSize + h.availableSize) :
    ∃ items' free', Laid ((h.mergeRight n).insertHeader n) tail items' free' ∧
      Keeps h ((h.mergeRight n).insertHeader n) tail items ∧
      ∀ x, Held items' free' x ↔ Held items (n :: free) x := by
  have hseparate₁ : ∀ x ∈ n :: free, x ≠ n → h.get x .next ∉ n :: free := by
    intro x hx hxn hm
    have hx' := (mem_cons.mp hx).resolve_left hxn
    rcases mem_cons.mp hm with heq | hm
    · have hlink := (L.rings.ring.next_spec (mem_cons_of_mem tail (L.sub x hx))).2
      rw [heq] at hlink
      exact (L.marks.isUsed_iff (L.sub x hx)).mp (hlink ▸ hprev) hx
    · exact hseparate x hx' hm
  obtain ⟨l₁, l₂, rfl⟩ := append_of_mem hn
  obtain ⟨l₂', free', marked', L₁, -, heq, hsep, hcount, hsame, hsub, hmaxeq, hle, hheld⟩ :=
    L.mergeRight (.inr rfl) mem_cons_self hseparate₁ hcounted
  rw [← heq rfl] at L₁ hsep hcount hheld
  obtain ⟨L₂, hkeep⟩ := L₁.insertHeader (n := n) (by simp) (nodup_cons.mp L₁.nodup).1
  have hsame' := hsame.trans ((L₁.rings.insertHeader_keeps (n := n) (by simp)).mono hsub)
  refine ⟨_, _, ⟨L₂, ?_, ?_, ?_⟩, hsame', hheld⟩
  · intro x hx
    rw [hkeep x (L₁.sub x hx)]
    exact hsep x hx
  · rw [insertHeader_availableSize, hcount]
    exact (total_congr fun x hx => size_congr (hkeep x (L₁.sub x hx))).symm
  · rw [hsame'.poolSize, insertHeader_maxUsedSize, insertHeader_availableSize, hmaxeq]
    omega

theorem Laid.free_spec (L : Laid h tail items free) (hn : n ∈ items) (hused : n ∉ free) :
    ∃ h' items' free', h.rtMemheapFree (n + 24) = some h' ∧ Keeps h h' tail items ∧
      Laid h' tail items' free' ∧ ∀ x, Held items' free' x ↔ Held items free x ∧ x ≠ n := by
  have hnext := L.linked.rings.ring.next_spec (mem_cons_of_mem tail hn)
  have hmagic : ¬ h.get (h.get n .next) .magic &&& 0xfffffffe ≠ rtMemheapFreed := by
    rcases mem_cons.mp hnext.1 with heq | hmem
    · rw [heq, L.linked.marks.tail]
      decide
    · by_cases hm : h.get n .next ∈ free
      · rw [L.linked.marks.freed _ hmem hm]
        decide
      · rw [L.linked.marks.used _ hmem hm]
        decide
  obtain ⟨L₁, hkeep₁⟩ := L.linked.mark hn hused
  have hsize : (h.set n .magic rtMemheapFreed).memitemSize n = h.size n :=
    (L₁.rings.memitemSize_eq hn).trans (size_congr (hkeep₁ n hn))
  have hfits := L.linked.total_le (nodup_cons.mpr ⟨hused, L.linked.nodup⟩) L₁.sub
  have hpool := L.linked.pool_lt
  have hcounted := L.counted
  have hmax := L.maxUsed
  rw [total_cons, length_cons] at hfits
  have havail : add32 h.availableSize (h.size n) = h.availableSize + h.size n := add32_eq (by omega)
  obtain ⟨h₂, heq⟩ : ∃ h₂, h₂ = (h.set n .magic rtMemheapFreed).setAvailable
    (h.availableSize + h.size n) := ⟨_, rfl⟩
  have L₂ : Linked h₂ tail items free (n :: free) := heq ▸ L₁.congr rfl (setAvailable_same _ _)
  have hkeep₂ : ∀ x ∈ items, h₂.get x .next = h.get x .next := heq ▸ hkeep₁
  have hsame₂ : Keeps h h₂ tail items :=
    heq ▸ ⟨(set_same h n _ _).trans (setAvailable_same _ _), (Keeps.set hn).bytes⟩
  have hcount₂ : h₂.availableSize = h.availableSize + h.size n := heq ▸ rfl
  have hused₂ : h₂.maxUsedSize = h.maxUsedSize := heq ▸ rfl
  have hcounted₂ : h₂.availableSize = h₂.total (n :: free) := by
    rw [total_congr fun x hx => size_congr (hkeep₂ x (L₁.sub x hx)), total_cons, hcount₂]
    omega
  have hmax₂ : h₂.poolSize ≤ h₂.maxUsedSize + h₂.availableSize := by
    rw [hsame₂.poolSize, hused₂, hcount₂]
    omega
  unfold rtMemheapFree
  rw [if_neg (by omega), L.linked.rings.header_eq hn]
  dsimp only
  rw [if_neg (not_not.mpr (L.linked.marks.used n hn hused)), if_neg hmagic,
    if_neg (not_not.mpr (L.linked.marks.poolPtr n hn)), set_availableSize, hsize, havail, ← heq]
  have hseparate₂ : ∀ x ∈ free, h₂.get x .next ∉ free := by
    intro x hx
    rw [hkeep₂ x (L.linked.sub x hx)]
    exact L.separate x hx
  by_cases hprev : h₂.IsUsed (h₂.get n .prev)
  · rw [if_neg (not_not.mpr hprev)]
    obtain ⟨items', free', L', hsame, hheld'⟩ :=
      L₂.release_right hn hprev hseparate₂ hcounted₂ hmax₂
    exact ⟨_, items', free', rfl, hsame₂.trans hsame, L', fun x => (hheld' x).trans held_cons⟩
  · rw [if_pos hprev]
    obtain ⟨l₁, l₂, rfl, hmem⟩ := L₂.exists_prev hn hprev
    have hlink := (L₂.rings.next_eq (b := n) (k := l₂ ++ [tail]) rfl).1
    have ha : h₂.get n .prev ∈ free := by
      refine (mem_cons.mp hmem).resolve_left fun heq => ?_
      have hle := (L₂.rings.next_le (a := h₂.get n .prev) (by simp)).1
      omega
    obtain ⟨items', free', L', hsame, hheld'⟩ := L₂.release_left ha hseparate₂ hcounted₂ hmax₂
    exact ⟨_, items', free', rfl, hsame₂.trans hsame, L', fun x => (hheld' x).trans held_cons⟩

end RtKernel.Memheap.RtMemheap

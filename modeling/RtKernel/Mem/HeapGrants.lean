import RtKernel.Mem.HeapRuns

/-!
# Which requests a memory heap grants

`rt_memheap_alloc` compares the request with the counter before it searches the free
list. The comparison is strict, so the last free item is never given away as a whole.
-/

namespace RtKernel.Memheap

open RtMemheap Option

namespace RtMemheap

variable {h : RtMemheap} {a tail : Nat} {items free l : List Nat}

theorem request_eq {size : Nat} (hsize : size ≤ 2 ^ 32 - 4) :
    request size = max ((size + 3) / 4 * 4) 12 := by
  have halign := rtAlign_eq size
  unfold request rtMemheapMinialloc
  split <;> omega

theorem le_total (ha : a ∈ l) : h.size a ≤ h.total l := by
  rw [total_erase ha]
  exact Nat.le_add_right _ _

/-- An allocation fails when the counter is not above the request, or no free item is large
enough. -/
theorem Laid.alloc_null_iff (L : Laid h tail items free) (size : Nat) :
    (h.rtMemheapAlloc size).map (·.2) = some 0 ↔
      h.availableSize ≤ request size ∨ ∀ a ∈ free, h.size a < request size := by
  obtain ⟨hmin, -⟩ := request_spec size
  unfold rtMemheapAlloc
  dsimp only
  by_cases hlt : request size < h.availableSize
  · obtain ⟨p, s, hsearch, hfound⟩ := L.search (request size) (by omega)
    rw [if_pos hlt, hsearch, map_some, map_some, some.injEq]
    rcases hfound with ⟨hsmall, hall⟩ | ⟨hp, rfl, hfits⟩
    · rw [if_neg (Nat.not_le.mpr hsmall)]
      exact iff_of_true rfl (.inr hall)
    · have hitem := L.linked.rings.item_lt (L.linked.rings.sub p hp)
      have htail := L.linked.rings.tail_lt
      have hptr : add32 p rtMemheapSize = p + 24 := add32_eq (by
        unfold rtMemheapSize
        omega)
      rw [if_pos hfits, hptr]
      refine iff_of_false (Nat.succ_ne_zero _) ?_
      rintro (hle | hall)
      · omega
      · exact absurd (hall p hp) (Nat.not_lt.mpr hfits)
  · rw [if_neg hlt, map_some]
    exact iff_of_true rfl (.inl (Nat.not_lt.mp hlt))

/-- An allocation that fails has no free item that is large enough exactly when the request is not
the size of a free item and all that is available. -/
theorem Laid.complete_iff (L : Laid h tail items free) (size : Nat) :
    ((h.rtMemheapAlloc size).map (·.2) = some 0 → ∀ a ∈ free, h.memitemSize a < request size) ↔
      ¬ (h.availableSize = request size ∧ ∃ a ∈ free, h.memitemSize a = request size) := by
  have hdata : ∀ a ∈ free, h.memitemSize a = h.size a := fun a ha =>
    L.linked.rings.memitemSize_eq (L.linked.sub a ha)
  rw [L.alloc_null_iff]
  constructor
  · rintro hsmall ⟨havail, a, ha, hsize⟩
    exact (hsmall (.inl havail.le) a ha).ne hsize
  · rintro hnot (hle | hall) a ha
    · have hsum := le_total (h := h) ha
      have hcounted := L.counted
      have hsize := hdata a ha
      exact lt_of_le_of_ne (by omega) fun heq => hnot ⟨by omega, a, ha, heq⟩
    · exact hdata a ha ▸ hall a ha

end RtMemheap

variable {mem : Nat → UInt8} {obj freeHeader startAddr size : Nat}

/-- In all states of careful runs a request of a word is refused only when no free item is large
enough, exactly where it is not the size of a free item and all that is available. -/
theorem reachable_complete (r : Region obj freeHeader startAddr size) {s : Sys}
    (h : Reachable (· = ⟨rtMemheapInit mem obj freeHeader startAddr size, []⟩)
      (Within (fun s a t => s.exec a = some t) Careful) s) :
    ∃ tail items free, Orderly s startAddr tail items free ∧
      ∀ n, 1 ≤ n → n ≤ 2 ^ 32 - 4 →
        (((s.heap.rtMemheapAlloc n).map (·.2) = some 0 →
            ∀ a ∈ free, s.heap.memitemSize a < max ((n + 3) / 4 * 4) 12) ↔
          ¬ (s.heap.availableSize = max ((n + 3) / 4 * 4) 12 ∧
            ∃ a ∈ free, s.heap.memitemSize a = max ((n + 3) / 4 * 4) 12)) := by
  obtain ⟨tail, items, free, -, hsame, H⟩ := reachable_holds r h
  have hstart : s.heap.startAddr = startAddr := hsame.startAddr
  refine ⟨tail, items, free, hstart ▸ H.orderly, fun n _ hn => ?_⟩
  rw [← request_eq hn]
  exact H.laid.complete_iff n

/-- Two blocks are taken, and the first is given back. -/
theorem reachable_complete_two : ∃ s : Sys, s.live = [4156] ∧
    ∃ tail items free, Orderly s 4096 tail items free ∧
      ∀ n, 1 ≤ n → n ≤ 2 ^ 32 - 4 →
        (((s.heap.rtMemheapAlloc n).map (·.2) = some 0 →
            ∀ a ∈ free, s.heap.memitemSize a < max ((n + 3) / 4 * 4) 12) ↔
          ¬ (s.heap.availableSize = max ((n + 3) / 4 * 4) 12 ∧
            ∃ a ∈ free, s.heap.memitemSize a = max ((n + 3) / 4 * 4) 12)) := by
  obtain ⟨s, hs, hlive⟩ : ∃ s ∈ runWithin Sys.exec Careful ⟨rtMemheapInit (fun _ => 0) 64 80 4096 160,
      []⟩ [.alloc 12, .alloc 12, .free 4120],
      s.live = [4156] := by decide +kernel
  have hstart : Reachable (fun s : Sys => s = ⟨rtMemheapInit (fun _ => 0) 64 80 4096 160, []⟩)
      (Within (fun s a t => s.exec a = some t) Careful)
      ⟨rtMemheapInit (fun _ => 0) 64 80 4096 160, []⟩ := .start rfl
  exact ⟨s, hlive, reachable_complete region_small (hstart.runWithin hs)⟩

/-- A new heap has one free item of 112 bytes, and 112 bytes are refused. -/
theorem whole_refused : ∃ s : Sys,
    Reachable (· = ⟨rtMemheapInit (fun _ => 0) 64 80 4096 160, []⟩)
      (fun s a t => s.exec a = some t) s ∧
      (s.heap.rtMemheapAlloc 112).map (·.2) = some 0 ∧
      s.heap.get s.heap.freeList .nextFree = 4096 ∧ s.heap.get 4096 .magic = rtMemheapFreed ∧
      s.heap.memitemSize 4096 = 112 :=
  ⟨_, .start rfl, by decide +kernel, by decide +kernel, by decide +kernel, by decide +kernel⟩

end RtKernel.Memheap

import RtKernel.Dfs.Ramfs
import RtKernel.Mem.HeapGrants

/-!
# The blocks of files

The data of a file is a block of a memory heap. What a write takes `rt_memheap_realloc`
to do is what the heap does.
-/

open List

namespace RtKernel.Dfs

open Memheap Memheap.RtMemheap

/-- The bytes of a block. -/
def block (h : RtMemheap) (ptr n : Nat) : List UInt8 := (range n).map fun i => h.mem (ptr + i)

variable {h h' : RtMemheap} {ptr p k n : Nat}

theorem block_eq_resize (hkeeps : ∀ j < min k n, h'.mem (p + j) = h.mem (ptr + j)) :
    ∃ fill, block h' p n = resize (block h ptr k) fill n := by
  refine ⟨(block h' p n).drop k, ?_⟩
  have hlen : ∀ h ptr n, (block h ptr n).length = n := fun _ _ _ => by simp [block]
  have htake : (block h' p n).take k = (block h ptr k).take n := by
    unfold block
    rw [← map_take, ← map_take, take_range, take_range, Nat.min_comm n k]
    exact map_congr_left fun j hj => hkeeps j (mem_range.mp hj)
  unfold resize
  rcases Nat.le_total k n with hle | hle
  · rw [take_of_length_le ((hlen h ptr k).trans_le hle)] at htake
    rw [← htake, take_append_drop, take_append_of_le_length (hlen h' p n).ge, take_of_length_le
      (hlen h' p n).le]
  · rw [append_assoc, take_append_of_le_length ((hlen h ptr k).ge.trans' hle), ← htake,
      take_of_length_le ((hlen h' p n).le.trans hle)]

/-- Where each call is careful, `rt_memheap_realloc` of the block of a file leaves the heap as it
was, or makes of the block what `write` takes it to make. -/
theorem reachable_resizes {mem : Nat → UInt8} {obj freeHeader startAddr size : Nat}
    (r : Region obj freeHeader startAddr size) {s : Sys}
    (h : Reachable (· = ⟨rtMemheapInit mem obj freeHeader startAddr size, []⟩)
      (Within (fun s a t => s.exec a = some t) Careful) s) (hptr : s.Passes ptr)
    (hcareful : Careful s (.realloc ptr n)) (hpos : 0 < n) (hn : n ≤ 2 ^ 32 - 4)
    (hk : k ≤ if ptr = 0 then 0 else s.heap.memitemSize (sub32 ptr rtMemheapSize)) :
    ∃ h' p, s.heap.rtMemheapRealloc ptr n = some (h', p) ∧ (p = 0 → h' = s.heap) ∧
      (p ≠ 0 → ∃ fill, block h' p n = resize (block s.heap ptr k) fill n) := by
  obtain ⟨tail, items, free, -, -, H⟩ := reachable_holds r h
  obtain ⟨h', p, hcall, -, hresizes, -⟩ := H.realloc hptr hcareful
  obtain ⟨hnull, hdata⟩ := hresizes hpos.ne'
  refine ⟨h', p, hcall, hnull, fun hne => block_eq_resize fun j hj => ?_⟩
  have hrequest := request_eq hn
  split_ifs at hk with hzero
  · omega
  · exact hdata hne hzero j (by omega) (by omega)

end RtKernel.Dfs

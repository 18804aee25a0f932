import Mathlib.Data.List.GetD
import Mathlib.Data.UInt
import RtKernel.Core.Bytes

/-!
# Strings in memory

A list of bytes is written from an address on, and is read there. A string ends with a zero that it
does not have before. Bytes are exchanged from both ends to turn a string round.
-/

open List

namespace RtKernel

/-- The bytes from `dst` on are those of a list. -/
def overwritten (mem : Nat → UInt8) (dst : Nat) (l : List UInt8) : Nat → UInt8 := fun a =>
  if dst ≤ a ∧ a < dst + l.length then l.getD (a - dst) 0 else mem a

/-- The bytes of a list lie at an address. -/
def ReadsAs (mem : Nat → UInt8) (a : Nat) (l : List UInt8) : Prop :=
  ∀ i (hi : i < l.length), mem (a + i) = l[i]

section

variable {mem mem' : Nat → UInt8} {dst a : Nat} {l m : List UInt8} {c : UInt8}

theorem overwritten_nil : overwritten mem dst [] = mem :=
  funext fun a => if_neg fun h => by
    have hlt : a < dst + 0 := h.2
    omega

theorem overwritten_frame (ha : a < dst ∨ dst + l.length ≤ a) : overwritten mem dst l a = mem a :=
  if_neg (by omega)

/-- What is written does not depend on what was there. -/
theorem overwritten_congr (h : dst ≤ a ∧ a < dst + l.length ∨ mem a = mem' a) :
    overwritten mem dst l a = overwritten mem' dst l a := by
  unfold overwritten
  split_ifs with hin
  · rfl
  · exact h.resolve_left hin

theorem overwritten_reads (mem : Nat → UInt8) (dst : Nat) (l : List UInt8) :
    ReadsAs (overwritten mem dst l) dst l := by
  intro i hi
  have hin : dst ≤ dst + i ∧ dst + i < dst + l.length := by omega
  have hsub : dst + i - dst = i := by omega
  unfold overwritten
  rw [if_pos hin, hsub, getD_eq_getElem l 0 hi]

theorem store8_eq_overwritten : store8 mem dst c = overwritten mem dst [c] := by
  funext a
  unfold store8 overwritten
  rw [length_singleton]
  split_ifs with hat hin hin
  · rw [hat, Nat.sub_self]
    rfl
  · omega
  · omega
  · rfl

theorem overwritten_append :
    overwritten (overwritten mem dst l) (dst + l.length) m = overwritten mem dst (l ++ m) := by
  funext a
  unfold overwritten
  rw [length_append]
  by_cases hm : dst + l.length ≤ a ∧ a < dst + l.length + m.length
  · have hsub : a - dst - l.length = a - (dst + l.length) := by omega
    rw [if_pos hm, if_pos (by omega), getD_append_right _ _ _ _ (by omega), hsub]
  · rw [if_neg hm]
    by_cases hl : dst ≤ a ∧ a < dst + l.length
    · rw [if_pos hl, if_pos (by omega), getD_append _ _ _ _ (by omega)]
    · rw [if_neg hl, if_neg (by omega)]

theorem overwritten_cons :
    overwritten (store8 mem dst c) (dst + 1) l = overwritten mem dst (c :: l) := by
  rw [store8_eq_overwritten]
  exact overwritten_append (l := [c])

/-- Lists that do not meet are written in any order. -/
theorem overwritten_comm {p q : Nat} (h : p + l.length ≤ q ∨ q + m.length ≤ p) :
    overwritten (overwritten mem p l) q m = overwritten (overwritten mem q m) p l := by
  funext a
  unfold overwritten
  split_ifs <;> first | rfl | omega

namespace ReadsAs

/-- A string is not touched by what is written behind it. -/
theorem overwritten_behind (h : ReadsAs mem a l) (hle : a + l.length ≤ dst) :
    ReadsAs (overwritten mem dst m) a l := by
  intro i hi
  rw [overwritten_frame (.inl (by omega)), h i hi]

theorem append (hl : ReadsAs mem a l) (hm : ReadsAs mem (a + l.length) m) :
    ReadsAs mem a (l ++ m) := by
  intro i hi
  rw [getElem_append]
  split_ifs with hlt
  · exact hl i hlt
  · rw [length_append] at hi
    have hadd : a + i = a + l.length + (i - l.length) := by omega
    rw [hadd, hm (i - l.length) (by omega)]

theorem take (h : ReadsAs mem a l) (n : Nat) : ReadsAs mem a (l.take n) := by
  intro i hi
  rw [length_take] at hi
  rw [h i (by omega), getElem_take]

/-- What is written behind a string is read behind it. -/
theorem overwritten_append (h : ReadsAs mem a l) :
    ReadsAs (overwritten mem (a + l.length) m) a (l ++ m) :=
  (h.overwritten_behind le_rfl).append (overwritten_reads _ _ _)

end ReadsAs

/-- The bytes before the first zero, of which at most `n` are counted. -/
def zeroTerminated (mem : Nat → UInt8) (a : Nat) : Nat → Nat
  | 0 => 0
  | n + 1 => if mem a = 0 then 0 else zeroTerminated mem (a + 1) n + 1

/-- A string of some length lies at an address, and ends there. -/
structure StringAt (mem : Nat → UInt8) (a n : Nat) : Prop where
  chars : ∀ i < n, mem (a + i) ≠ 0
  terminator : mem (a + n) = 0

theorem StringAt.zeroTerminated {n bound : Nat} (h : StringAt mem a n) (hn : n < bound) :
    zeroTerminated mem a bound = n := by
  induction bound generalizing a n with
  | zero => omega
  | succ bound ih =>
    rw [RtKernel.zeroTerminated]
    cases n with
    | zero => exact if_pos h.terminator
    | succ n =>
      have hrest : StringAt mem (a + 1) n := by
        constructor
        · intro i hi
          rw [Nat.add_assoc, Nat.add_comm 1 i]
          exact h.chars (i + 1) (by omega)
        · rw [Nat.add_assoc, Nat.add_comm 1 n]
          exact h.terminator
      have hfirst : mem a ≠ 0 := h.chars 0 (by omega)
      rw [if_neg hfirst, ih hrest (by omega)]

theorem ReadsAs.stringAt (h : ReadsAs mem a l) (hl : 0 ∉ l) (hend : mem (a + l.length) = 0) :
    StringAt mem a l.length := by
  refine ⟨fun i hi hzero => hl ?_, hend⟩
  rw [h i hi] at hzero
  exact hzero ▸ getElem_mem hi

theorem overwritten_stringAt (mem : Nat → UInt8) (a : Nat) (hl : 0 ∉ l) :
    StringAt (overwritten mem a (l ++ [0])) a l.length := by
  have hreads := overwritten_reads mem a (l ++ [0])
  have hline := hreads.take l.length
  have hend := hreads l.length (by simp)
  rw [take_left] at hline
  exact hline.stringAt hl (hend.trans (by simp))

/-- A string has no zero among the bytes that are read before its end. -/
theorem StringAt.not_mem {n : Nat} (h : StringAt mem a n) (hreads : ReadsAs mem a l)
    (hle : l.length ≤ n) : 0 ∉ l := by
  intro hmem
  obtain ⟨i, hi, hzero⟩ := getElem_of_mem hmem
  exact h.chars i (by omega) ((hreads i hi).trans hzero)

/-- The bytes at `i` and `j` are exchanged, and those between them from both ends. -/
def swapEnds (mem : Nat → UInt8) (i j : Nat) : Nat → UInt8 :=
  if i < j then swapEnds (store8 (store8 mem i (mem j)) j (mem i)) (i + 1) (j - 1) else mem
termination_by j - i

theorem swapEnds_overwritten (mem : Nat → UInt8) (i : Nat) (l : List UInt8) :
    swapEnds (overwritten mem i l) i (i + l.length - 1) = overwritten mem i l.reverse := by
  induction l using List.bidirectionalRec generalizing mem i with
  | nil | singleton c => exact (swapEnds.eq_def ..).trans (if_neg (by simp))
  | cons_append x m y ih =>
    obtain ⟨k, hk⟩ : ∃ k, k = i + m.length + 1 := ⟨_, rfl⟩
    have hlast : i + (x :: (m ++ [y])).length - 1 = k := by
      rw [length_cons, length_append, length_singleton]
      omega
    have hinner : i + 1 + m.length - 1 = k - 1 := by omega
    have hx : overwritten mem i (x :: (m ++ [y])) i = x := by
      have h := overwritten_reads mem i (x :: (m ++ [y])) 0 (by simp)
      simpa using h
    have hy : overwritten mem i (x :: (m ++ [y])) k = y := by
      have h := overwritten_reads mem i (x :: (m ++ [y])) (m.length + 1) (by simp)
      have hat : i + (m.length + 1) = k := by omega
      rw [hat] at h
      simpa using h
    -- the ends are exchanged, and the middle is as it was
    have hsplit : ∀ (u v : UInt8) (r : List UInt8), r.length = m.length →
        overwritten mem i (u :: (r ++ [v])) =
          overwritten (store8 (store8 mem i u) k v) (i + 1) r := by
      intro u v r hr
      rw [← overwritten_cons, ← overwritten_append, ← store8_eq_overwritten]
      funext a
      unfold store8 overwritten
      dsimp only
      split_ifs <;> first | rfl | omega
    have hmiddle : store8 (store8 (overwritten mem i (x :: (m ++ [y]))) i y) k x =
        overwritten (store8 (store8 mem i y) k x) (i + 1) m := by
      rw [hsplit x y m rfl]
      funext a
      unfold store8 overwritten
      dsimp only
      split_ifs <;> first | rfl | omega
    have hreverse : (x :: (m ++ [y])).reverse = y :: (m.reverse ++ [x]) := by simp
    rw [swapEnds, hlast, if_pos (by omega), hx, hy, hmiddle, ← hinner, ih, hreverse,
      hsplit y x m.reverse length_reverse]

end

end RtKernel

import Mathlib.Data.List.Basic
import RtKernel.Core.Bytes

/-!
# Strings

The string functions of `kservice.c` over a memory, with the addresses that are loaded of the first
string, and over the bytes of arrays, for the callers that are modelled with lists.
-/

open List

namespace RtKernel.Kservice

/-- `rt_strnlen`: the length, and what is loaded. -/
def rtStrnlen (mem : Nat → UInt8) (sc : Nat) : Nat → Nat × List Nat
  | 0 => (0, [sc])
  | left + 1 =>
    if mem sc ≠ 0 then ((rtStrnlen mem (sc + 1) left).1 + 1, sc :: (rtStrnlen mem (sc + 1) left).2)
    else (0, [sc])

/-- `rt_strncmp`: the result, and what is loaded of the first string. -/
def rtStrncmp (mem : Nat → UInt8) (res : Int8) (cs ct : Nat) : Nat → Int8 × List Nat
  | 0 => (res, [])
  | count + 1 =>
    let res := (mem cs - mem ct).toInt8
    if res ≠ 0 then (res, [cs])
    else if mem cs = 0 then (res, [cs, cs])
    else
      ((rtStrncmp mem res (cs + 1) (ct + 1) count).1,
        cs :: cs :: (rtStrncmp mem res (cs + 1) (ct + 1) count).2)

/-- The rest of what `rt_strncpy` writes behind the end of a string. -/
def nulPad (mem : Nat → UInt8) (d : Nat) : Nat → Nat → UInt8
  | 0 => mem
  | n + 1 => nulPad (store8 mem d 0) (d + 1) n

/-- `rt_strncpy`: the memory, and what is loaded. -/
def rtStrncpy (mem : Nat → UInt8) (d s : Nat) : Nat → (Nat → UInt8) × List Nat
  | 0 => (mem, [])
  | n + 1 =>
    let after := store8 mem d (mem s)
    if mem s = 0 then (nulPad after (d + 1) n, [s])
    else ((rtStrncpy after (d + 1) (s + 1) n).1, s :: (rtStrncpy after (d + 1) (s + 1) n).2)

namespace Chars

/-- `rt_strncmp` of two arrays; there is no result where one is read behind its end. -/
def rtStrncmp : List UInt8 → List UInt8 → Nat → Option UInt8
  | _, _, 0 => some 0
  | c :: cs, d :: ct, count + 1 => if c - d ≠ 0 ∨ c = 0 then some (c - d) else rtStrncmp cs ct count
  | _, _, _ + 1 => none

/-- The `n` bytes that `rt_strncpy` writes for a string without its end. -/
def rtStrncpy : List UInt8 → Nat → List UInt8
  | _, 0 => []
  | [], n + 1 => 0 :: rtStrncpy [] n
  | c :: src, n + 1 => c :: rtStrncpy src n

/-- `rt_strstr` finds the word. -/
def rtStrstr (text word : List UInt8) : Bool := text.tails.any word.isPrefixOf

/-- `rt_strlen` of an array; there is none without an end. -/
def rtStrlen (buf : List UInt8) : Option Nat :=
  if 0 ∈ buf then some (buf.idxOf 0) else none

theorem rtStrncpy_eq (text : List UInt8) (n : Nat) :
    rtStrncpy text n = text.take n ++ replicate (n - text.length) 0 := by
  induction n generalizing text with
  | zero => cases text <;> simp [rtStrncpy]
  | succ n ih => cases text <;> simp [rtStrncpy, ih, replicate_succ]

/-- Strings are compared up to the end of the shorter one. -/
theorem rtStrncmp_strings {a b : List UInt8} (ha : 0 ∉ a) (hb : 0 ∉ b) (x y : List UInt8) (n : Nat) :
    ∃ res, rtStrncmp (a ++ 0 :: x) (b ++ 0 :: y) n = some res ∧ (res = 0 ↔ a.take n = b.take n) := by
  induction n generalizing a b with
  | zero => exact ⟨0, by cases a <;> cases b <;> rfl, by simp⟩
  | succ n ih =>
    cases a with
    | nil =>
      cases b with
      | nil => exact ⟨0, rfl, by simp⟩
      | cons d b =>
        have hd : d ≠ 0 := fun hno => hb (hno ▸ .head _)
        exact ⟨0 - d, by simp [rtStrncmp], by simpa using hd⟩
    | cons c a =>
      have hc : c ≠ 0 := fun hno => ha (hno ▸ .head _)
      cases b with
      | nil => exact ⟨c - 0, by simp [rtStrncmp, hc], by simpa using hc⟩
      | cons d b =>
        by_cases hcd : c = d
        · obtain ⟨res, hres, hiff⟩ := ih (fun hno => ha (.tail _ hno)) (fun hno => hb (.tail _ hno))
          refine ⟨res, ?_, ?_⟩
          · rw [cons_append, cons_append, rtStrncmp, if_neg (by simp [hcd, hcd ▸ hc])]
            exact hres
          · rw [hiff, hcd, take_succ_cons, take_succ_cons, cons_inj_right]
        · have hdiff : c - d ≠ 0 := fun hno =>
            hcd ((UInt8.sub_eq_iff_eq_add.mp hno).trans (UInt8.zero_add d))
          exact ⟨c - d, by simp [rtStrncmp, hdiff], by simp [hdiff, hcd]⟩

end Chars

/-- The `n` bytes at an address. -/
def bytesAt (mem : Nat → UInt8) (a n : Nat) : List UInt8 := (range' a n).map mem

variable {mem mem' : Nat → UInt8} {a x : Nat}

theorem bytesAt_succ (n : Nat) : bytesAt mem a (n + 1) = mem a :: bytesAt mem (a + 1) n := rfl

theorem bytesAt_congr {n : Nat} (h : ∀ x, a ≤ x → x < a + n → mem' x = mem x) :
    bytesAt mem' a n = bytesAt mem a n := by
  refine map_congr_left fun x hx => ?_
  obtain ⟨hle, hlt⟩ := mem_range'_1.mp hx
  exact h x hle hlt

theorem nulPad_of_lt (d n : Nat) (hx : x < d) : nulPad mem d n x = mem x := by
  induction n generalizing mem d with
  | zero => rfl
  | succ n ih =>
    rw [nulPad, ih (d + 1) (by omega), store8, if_neg (Nat.ne_of_lt hx)]

theorem bytesAt_nulPad (d n : Nat) : bytesAt (nulPad mem d n) d n = replicate n 0 := by
  induction n generalizing mem d with
  | zero => rfl
  | succ n ih =>
    rw [bytesAt_succ, nulPad, ih, nulPad_of_lt _ _ (Nat.lt_succ_self d), store8, if_pos rfl]
    rfl

theorem rtStrncpy_of_lt (d s n : Nat) (hx : x < d) : (rtStrncpy mem d s n).1 x = mem x := by
  induction n generalizing mem d s with
  | zero => rfl
  | succ n ih =>
    have hstore : store8 mem d (mem s) x = mem x := if_neg (Nat.ne_of_lt hx)
    rw [rtStrncpy]
    split_ifs
    · exact (nulPad_of_lt _ _ (by omega)).trans hstore
    · exact (ih _ _ (by omega)).trans hstore

/-- The result of a comparison is that of the bytes. -/
theorem rtStrncmp_eq (cs ct n : Nat) :
    Chars.rtStrncmp (bytesAt mem cs n) (bytesAt mem ct n) n =
      some (rtStrncmp mem 0 cs ct n).1.toUInt8 := by
  induction n generalizing cs ct with
  | zero => rfl
  | succ n ih =>
    rw [bytesAt_succ, bytesAt_succ, Chars.rtStrncmp, rtStrncmp, ih]
    by_cases hsame : mem cs - mem ct = 0
    · rw [hsame]
      by_cases hend : mem cs = 0
      · simp [hend]
        rfl
      · simp [hend]
    · have hres : (mem cs - mem ct).toInt8 ≠ 0 := fun hno =>
        hsame (congrArg Int8.toUInt8 hno)
      rw [if_pos (.inl hsame), if_pos hres]
      rfl

/-- What is copied to another place is the string, filled up with zeros. -/
theorem bytesAt_rtStrncpy (d s n : Nat) (hapart : d + n ≤ s ∨ s + n ≤ d) :
    bytesAt (rtStrncpy mem d s n).1 d n =
      Chars.rtStrncpy ((bytesAt mem s n).takeWhile (· ≠ 0)) n := by
  induction n generalizing mem d s with
  | zero => cases s <;> rfl
  | succ n ih =>
    have hself : store8 mem d (mem s) d = mem s := if_pos rfl
    rw [rtStrncpy, bytesAt_succ, bytesAt_succ]
    by_cases hend : mem s = 0
    · rw [if_pos hend, takeWhile_cons_of_neg (by simp [hend]), Chars.rtStrncpy_eq,
        bytesAt_nulPad]
      exact congrArg (· :: _) ((nulPad_of_lt _ _ (Nat.lt_succ_self d)).trans (hself.trans hend))
    · have hrest : bytesAt (store8 mem d (mem s)) (s + 1) n = bytesAt mem (s + 1) n :=
        bytesAt_congr fun x _ _ => if_neg (by omega)
      rw [if_neg hend, takeWhile_cons_of_pos (by simp [hend]), Chars.rtStrncpy, ih _ _ (by omega),
        hrest, rtStrncpy_of_lt _ _ _ (Nat.lt_succ_self d), hself]

/-- The length is that of the string, or the bound. -/
theorem rtStrnlen_eq (sc n : Nat) :
    (rtStrnlen mem sc n).1 = ((bytesAt mem sc n).takeWhile (· ≠ 0)).length := by
  induction n generalizing sc with
  | zero => rfl
  | succ n ih =>
    rw [rtStrnlen, bytesAt_succ, takeWhile_cons, ih]
    by_cases hend : mem sc = 0 <;> simp [hend]

end RtKernel.Kservice

import Mathlib.Algebra.Group.Nat.Defs
import Mathlib.Data.List.Basic
import Mathlib.Data.List.Induction
import Mathlib.Data.Nat.Basic

/-!
# Decimal numbers

Numbers as the characters of their decimal digits.
-/

open List

namespace RtKernel.Decimal

def isDigit (c : UInt8) : Bool := 48 ≤ c && c ≤ 57

/-- The characters of a decimal number. -/
def Digits (l : List UInt8) : Prop := ∀ c ∈ l, isDigit c = true

instance (l : List UInt8) : Decidable (Digits l) :=
  List.decidableBAll (fun c => isDigit c = true) l

/-- The number that digits stand for. -/
def decimal (digits : List UInt8) : Nat :=
  digits.foldl (fun n c => 10 * n + (c.toNat - 48)) 0

variable {l : List UInt8} {c : UInt8}

theorem isDigit_iff : isDigit c = true ↔ 48 ≤ c.toNat ∧ c.toNat ≤ 57 := by
  simp only [isDigit, Bool.and_eq_true, decide_eq_true_eq, UInt8.le_iff_toNat_le]
  exact Iff.rfl

theorem Digits.notMem (h : Digits l) (hc : isDigit c = false) : c ∉ l := fun hmem =>
  Bool.false_ne_true (hc.symm.trans (h c hmem))

theorem decimal_append (l : List UInt8) (c : UInt8) :
    decimal (l ++ [c]) = 10 * decimal l + (c.toNat - 48) := by
  rw [decimal, foldl_append]
  rfl

theorem decimal_lt (h : Digits l) : decimal l < 10 ^ l.length := by
  induction l using List.reverseRecOn with
  | nil => exact Nat.zero_lt_one
  | append_singleton l c ih =>
    have hnine := (isDigit_iff.mp (h c (by simp))).2
    have hl := ih fun d hd => h d (mem_append_left _ hd)
    rw [decimal_append, length_append, length_singleton]
    omega

end RtKernel.Decimal

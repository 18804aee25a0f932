import Mathlib.Data.Nat.Bitwise
import Mathlib.Algebra.Order.Ring.Nat

/-!
# Unsigned 32-bit arithmetic

Sizes and addresses of the target are 32 bits wide and wrap. They are kept as
naturals below `2 ^ 32`; the operations of the C text that may wrap are the
functions below, and the lemmas say when they do not.
-/

namespace RtKernel

/-- Unsigned addition. -/
def add32 (a b : Nat) : Nat := (a + b) % 2 ^ 32

/-- Unsigned subtraction. -/
def sub32 (a b : Nat) : Nat := (a + (2 ^ 32 - b % 2 ^ 32)) % 2 ^ 32

theorem add32_eq {a b : Nat} (h : a + b < 2 ^ 32) : add32 a b = a + b := Nat.mod_eq_of_lt h

/-- A difference of in-range operands is the difference. -/
theorem sub32_eq {a b : Nat} (hb : b ≤ a) (ha : a < 2 ^ 32) : sub32 a b = a - b := by
  unfold sub32
  omega

theorem add32_lt (a b : Nat) : add32 a b < 2 ^ 32 := Nat.mod_lt _ (by decide)

/-- `RT_ALIGN_SIZE`. -/
def rtAlignSize : Nat := 4

/-- `RT_ALIGN(size, RT_ALIGN_SIZE)`. -/
def rtAlign (size : Nat) : Nat := add32 size (rtAlignSize - 1) &&& 0xfffffffc

/-- `RT_ALIGN_DOWN(size, RT_ALIGN_SIZE)`. -/
def rtAlignDown (size : Nat) : Nat := size &&& 0xfffffffc

private theorem and_high_mask {x k : Nat} (hk : k ≤ 32) (hx : x < 2 ^ 32) :
    x &&& (2 ^ 32 - 2 ^ k) = x / 2 ^ k * 2 ^ k := by
  have hmask : 2 ^ 32 - 2 ^ k = (2 ^ (32 - k) - 1) <<< k := by
    rw [Nat.shiftLeft_eq, Nat.sub_mul, one_mul, ← pow_add, Nat.sub_add_cancel hk]
  have hdiv : x / 2 ^ k < 2 ^ (32 - k) := by
    rw [Nat.div_lt_iff_lt_mul (Nat.two_pow_pos k), ← pow_add, Nat.sub_add_cancel hk]
    exact hx
  rw [hmask, ← Nat.shiftLeft_eq]
  apply Nat.eq_of_testBit_eq
  intro i
  simp only [Nat.testBit_and, Nat.testBit_shiftLeft, Nat.testBit_two_pow_sub_one,
    Nat.testBit_div_two_pow]
  by_cases hi : k ≤ i
  · simp only [hi, decide_true, Bool.true_and, Nat.sub_add_cancel hi]
    by_cases hlt : i - k < 32 - k
    · simp [hlt]
    · have hbig : x < 2 ^ i := lt_of_lt_of_le hx (Nat.pow_le_pow_right (by decide) (by omega))
      simp [hlt, Nat.testBit_eq_false_of_lt hbig]
  · simp [hi]

theorem rtAlignDown_eq {x : Nat} (hx : x < 2 ^ 32) : rtAlignDown x = x / 4 * 4 :=
  and_high_mask (k := 2) (by decide) hx

/-- Rounding up is rounding down after the wrapping addition. -/
theorem rtAlign_eq (x : Nat) : rtAlign x = (x + 3) % 2 ^ 32 / 4 * 4 :=
  rtAlignDown_eq (add32_lt _ _)

theorem and_fffffffe {x : Nat} (hx : x < 2 ^ 32) : x &&& 0xfffffffe = x / 2 * 2 :=
  and_high_mask (k := 1) (by decide) hx

end RtKernel

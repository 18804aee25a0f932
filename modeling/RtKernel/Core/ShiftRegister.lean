import Mathlib.Algebra.Group.Nat.Defs
import Mathlib.Logic.Function.Iterate

/-!
# Shift registers with feedback

A register moves up by one place at a time, and where a one falls out a fixed word is added bit by
bit. The steps are linear in such sums. So the steps of a register are the sum of those of its
low places, which only move up, and of those of its high places, which a table can hold.
-/

namespace RtKernel.ShiftRegister

variable {w : Nat} (p : BitVec w) {n : Nat}

def step (c : BitVec w) : BitVec w := if c.msb then c <<< 1 ^^^ p else c <<< 1

theorem step_xor (a b : BitVec w) : step p (a ^^^ b) = step p a ^^^ step p b := by
  have hself : (a <<< 1 ^^^ p) ^^^ (b <<< 1 ^^^ p) = a <<< 1 ^^^ b <<< 1 := by
    rw [BitVec.xor_comm (b <<< 1) p, BitVec.xor_assoc, ← BitVec.xor_assoc p p, BitVec.xor_self,
      BitVec.zero_xor]
  have hleft : (a <<< 1 ^^^ p) ^^^ b <<< 1 = (a <<< 1 ^^^ b <<< 1) ^^^ p := by
    rw [BitVec.xor_assoc, BitVec.xor_comm p, ← BitVec.xor_assoc]
  unfold step
  rw [BitVec.msb_xor, BitVec.shiftLeft_xor_distrib]
  cases a.msb <;> cases b.msb
  · rfl
  · exact BitVec.xor_assoc ..
  · exact hleft.symm
  · exact hself.symm

theorem iterate_step_xor (n : Nat) (a b : BitVec w) :
    (step p)^[n] (a ^^^ b) = (step p)^[n] a ^^^ (step p)^[n] b := by
  induction n generalizing a b with
  | zero => rfl
  | succ n ih => rw [Function.iterate_succ_apply, step_xor, ih]; rfl

/-- Places above which there are `n` zeros move up `n` times. -/
theorem iterate_step_low {c : BitVec w} (hc : c.toNat < 2 ^ (w - n)) (hn : n ≤ w) :
    (step p)^[n] c = c <<< n := by
  induction n with
  | zero => exact (BitVec.shiftLeft_zero c).symm
  | succ n ih =>
    have hbit : c.getLsbD (w - 1 - n) = false := by
      rw [Nat.sub_sub, Nat.add_comm 1 n]
      exact Nat.testBit_lt_two_pow hc
    have hmsb : (c <<< n).msb = false := by
      rw [BitVec.msb_shiftLeft, BitVec.getMsbD_eq_getLsbD, hbit, Bool.and_false]
    have hmono : 2 ^ (w - (n + 1)) ≤ 2 ^ (w - n) := Nat.pow_le_pow_right (by decide) (by omega)
    rw [Function.iterate_succ_apply', ih (Nat.lt_of_lt_of_le hc hmono) (by omega), step, hmsb,
      BitVec.shiftLeft_add]
    rfl

/-- The places below the `n` highest ones. -/
def low (n : Nat) (c : BitVec w) : BitVec w := (c.setWidth (w - n)).setWidth w

theorem toNat_low_lt (n : Nat) (c : BitVec w) : (low n c).toNat < 2 ^ (w - n) := by
  unfold low
  rw [BitVec.toNat_setWidth]
  exact Nat.lt_of_le_of_lt (Nat.mod_le ..) (BitVec.isLt _)

theorem low_xor_high (c : BitVec w) : low n c ^^^ c >>> (w - n) <<< (w - n) = c := by
  apply BitVec.eq_of_getLsbD_eq
  intro i hi
  simp only [low, BitVec.getLsbD_xor, BitVec.getLsbD_setWidth, BitVec.getLsbD_shiftLeft,
    BitVec.getLsbD_ushiftRight]
  by_cases hlow : i < w - n
  · simp [hi, hlow]
  · simp [hi, hlow, Nat.add_sub_cancel' (Nat.le_of_not_lt hlow)]

theorem low_shiftLeft (hn : n ≤ w) (c : BitVec w) : low n c <<< n = c <<< n := by
  apply BitVec.eq_of_getLsbD_eq
  intro i hi
  simp only [low, BitVec.getLsbD_setWidth, BitVec.getLsbD_shiftLeft]
  by_cases hlow : i < n
  · simp [hlow]
  · have hin : i - n < w - n := by omega
    have hbelow : i - n < w := by omega
    simp [hin, hbelow]

/-- The steps of the `n` highest places, and those of the rest. -/
theorem iterate_step_split (hn : n ≤ w) (c : BitVec w) :
    (step p)^[n] c = c <<< n ^^^ (step p)^[n] (c >>> (w - n) <<< (w - n)) := by
  have hsum := congrArg (step p)^[n] (low_xor_high (n := n) c)
  rw [iterate_step_xor, iterate_step_low p (toNat_low_lt n c) hn, low_shiftLeft hn] at hsum
  exact hsum.symm

end RtKernel.ShiftRegister

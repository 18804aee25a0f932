import Mathlib.Algebra.Order.Ring.Nat

/-!
# Bytes and words

Memory is the byte at each address. A word of 32 bits lies in four bytes, the
lowest first, at any address.
-/

namespace RtKernel

/-- The word at an address. -/
def load32 (mem : Nat → UInt8) (a : Nat) : Nat :=
  (mem a).toNat + 256 * (mem (a + 1)).toNat + 65536 * (mem (a + 2)).toNat +
    16777216 * (mem (a + 3)).toNat

/-- Store one byte. -/
def store8 (mem : Nat → UInt8) (a : Nat) (v : UInt8) : Nat → UInt8 :=
  fun x => if x = a then v else mem x

/-- Store a word. -/
def store32 (mem : Nat → UInt8) (a v : Nat) : Nat → UInt8 := fun x =>
  if x = a then .ofNat v
  else if x = a + 1 then .ofNat (v / 256)
  else if x = a + 2 then .ofNat (v / 65536)
  else if x = a + 3 then .ofNat (v / 16777216)
  else mem x

variable {mem mem' : Nat → UInt8} {a b v : Nat}

theorem load32_congr (h : ∀ x, a ≤ x → x < a + 4 → mem' x = mem x) : load32 mem' a = load32 mem a := by
  unfold load32
  rw [h a, h (a + 1), h (a + 2), h (a + 3)]
  all_goals omega

theorem load32_store32 (hv : v < 2 ^ 32) : load32 (store32 mem a v) a = v := by
  have h₀ : store32 mem a v a = .ofNat v := if_pos rfl
  have h₁ : store32 mem a v (a + 1) = .ofNat (v / 256) := by simp [store32]
  have h₂ : store32 mem a v (a + 2) = .ofNat (v / 65536) := by simp [store32]
  have h₃ : store32 mem a v (a + 3) = .ofNat (v / 16777216) := by simp [store32]
  unfold load32
  rw [h₀, h₁, h₂, h₃]
  simp only [UInt8.toNat_ofNat']
  omega

/-- A store leaves the words alone that it does not meet. -/
theorem load32_store32_of_disjoint (h : a + 4 ≤ b ∨ b + 4 ≤ a) :
    load32 (store32 mem a v) b = load32 mem b := by
  apply load32_congr
  intro x hb hx
  unfold store32
  rw [if_neg, if_neg, if_neg, if_neg]
  all_goals omega

theorem load32_store8_of_disjoint {v : UInt8} (h : a < b ∨ b + 4 ≤ a) :
    load32 (store8 mem a v) b = load32 mem b := by
  apply load32_congr
  intro x hb hx
  apply if_neg
  omega

end RtKernel

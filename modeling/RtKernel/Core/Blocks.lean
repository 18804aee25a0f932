import RtKernel.Core.Bytes

/-!
# Blocks of memory

A block is filled with one byte, or takes the bytes that another one had. Both are done part by
part, and word by word as well as byte by byte. A copy goes up unless the destination begins inside
the source, and goes down if it begins behind the source.
-/

namespace RtKernel

/-- The `n` bytes from `dst` on are `d`. -/
def filled (mem : Nat → UInt8) (dst n : Nat) (d : UInt8) : Nat → UInt8 := fun a =>
  if dst ≤ a ∧ a < dst + n then d else mem a

/-- The `n` bytes from `dst` on are those from `src` on. -/
def copied (mem : Nat → UInt8) (dst src n : Nat) : Nat → UInt8 := fun a =>
  if dst ≤ a ∧ a < dst + n then mem (src + (a - dst)) else mem a

section

variable (mem : Nat → UInt8) (dst src m n : Nat) (d : UInt8)

theorem filled_zero : filled mem dst 0 d = mem := funext fun _ => if_neg (by omega)

theorem copied_zero : copied mem dst src 0 = mem := funext fun _ => if_neg (by omega)

theorem filled_append : filled (filled mem dst m d) (dst + m) n d = filled mem dst (m + n) d := by
  funext a
  unfold filled
  split_ifs <;> first | rfl | omega

/-- The second part comes after the first, which does not meet what the second is to take. -/
theorem copied_append (h : dst ≤ src ∨ src + (m + n) ≤ dst) :
    copied (copied mem dst src m) (dst + m) (src + m) n = copied mem dst src (m + n) := by
  funext a
  unfold copied
  by_cases hfirst : dst ≤ a ∧ a < dst + m
  · rw [if_neg (by omega), if_pos hfirst, if_pos (by omega)]
  · by_cases hsecond : dst + m ≤ a ∧ a < dst + m + n
    · have hsame : src + m + (a - (dst + m)) = src + (a - dst) := by omega
      rw [if_pos hsecond, hsame, if_neg (by omega), if_pos (by omega)]
    · rw [if_neg hsecond, if_neg hfirst, if_neg (by omega)]

theorem copied_append_last (h : src ≤ dst ∨ dst + (n + 1) ≤ src) :
    copied (copied mem (dst + n) (src + n) 1) dst src n = copied mem dst src (n + 1) := by
  funext a
  unfold copied
  by_cases hin : dst ≤ a ∧ a < dst + n
  · rw [if_pos hin, if_neg (by omega), if_pos (by omega)]
  · by_cases hlast : dst + n ≤ a ∧ a < dst + n + 1
    · have hsame : src + n + (a - (dst + n)) = src + (a - dst) := by omega
      rw [if_neg hin, if_pos hlast, hsame, if_pos (by omega)]
    · rw [if_neg hin, if_neg hlast, if_neg (by omega)]

theorem store8_filled : store8 mem dst d = filled mem dst 1 d := by
  funext a
  unfold store8 filled
  split_ifs <;> first | rfl | omega

theorem store8_copied : store8 mem dst (mem src) = copied mem dst src 1 := by
  funext a
  unfold store8 copied
  split_ifs with hat hin hin
  · rw [hat, Nat.sub_self, Nat.add_zero]
  · omega
  · omega
  · rfl

/-- A word stores the byte of its place at each of its addresses. -/
theorem store32_eq {v : Nat} {f : Nat → UInt8} (h₀ : v % 256 = (f 0).toNat)
    (h₁ : v / 256 % 256 = (f 1).toNat) (h₂ : v / 65536 % 256 = (f 2).toNat)
    (h₃ : v / 16777216 % 256 = (f 3).toNat) :
    store32 mem dst v = fun a => if dst ≤ a ∧ a < dst + 4 then f (a - dst) else mem a := by
  have hbyte : ∀ {x : Nat} {b : UInt8}, x % 256 = b.toNat → UInt8.ofNat x = b := fun h =>
    UInt8.toNat_inj.mp (UInt8.toNat_ofNat'.trans h)
  funext a
  unfold store32
  split_ifs with ha₀ hin ha₁ hin ha₂ hin ha₃ hin hin
  · rw [ha₀, Nat.sub_self]
    exact hbyte h₀
  · omega
  · rw [ha₁, Nat.add_sub_cancel_left]
    exact hbyte h₁
  · omega
  · rw [ha₂, Nat.add_sub_cancel_left]
    exact hbyte h₂
  · omega
  · rw [ha₃, Nat.add_sub_cancel_left]
    exact hbyte h₃
  · omega
  · omega
  · rfl

theorem store32_filled : store32 mem dst (d.toNat * 0x01010101) = filled mem dst 4 d := by
  have hbytes : ∀ n < 256, n * 0x01010101 % 256 = n ∧ n * 0x01010101 / 256 % 256 = n ∧
      n * 0x01010101 / 65536 % 256 = n ∧ n * 0x01010101 / 16777216 % 256 = n := by decide +kernel
  obtain ⟨h₀, h₁, h₂, h₃⟩ := hbytes d.toNat d.toNat_lt
  exact store32_eq mem dst h₀ h₁ h₂ h₃ (f := fun _ => d)

theorem store32_copied : store32 mem dst (load32 mem src) = copied mem dst src 4 := by
  have h₀ := (mem src).toNat_lt
  have h₁ := (mem (src + 1)).toNat_lt
  have h₂ := (mem (src + 2)).toNat_lt
  have h₃ := (mem (src + 3)).toNat_lt
  unfold copied load32
  apply store32_eq mem dst (f := fun k => mem (src + k))
  · change _ = (mem src).toNat
    omega
  · omega
  · omega
  · omega

end

end RtKernel

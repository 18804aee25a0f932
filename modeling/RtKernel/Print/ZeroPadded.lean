import RtKernel.Print.Numbers

/-!
# Numbers with leading zeros

What a conversion prints whose field is filled with zeros: the sign, the zeros and the digits. None
of these is a terminator, and the length is that of the field unless the number needs more.
-/

open List

namespace RtKernel.Print

theorem divisor_bounds (base : Nat) : 10 ≤ divisor base ∧ divisor base ≤ 16 := by
  unfold divisor
  split_ifs
  all_goals exact ⟨by decide, by decide⟩

/-- More than `d` digits are needed from `divisor base ^ d` on. -/
theorem length_tmp_le_iff (large : Bool) (base : Nat) (num : BitVec 32) {d : Nat} (hd : 0 < d) :
    (tmp large base num).length ≤ d ↔ num.toNat < divisor base ^ d := by
  have hdivisor := divisor_bounds base
  unfold tmp
  split_ifs with hzero
  · rw [hzero]
    exact iff_of_true hd (Nat.pow_pos (by omega))
  · rw [convertDigits_eq, length_map, Nat.digits_length_le_iff (by omega)]

theorem length_tmp_le (large : Bool) (base : Nat) (num : BitVec 32) :
    (tmp large base num).length ≤ 10 := by
  rw [length_tmp_le_iff large base num (by decide)]
  calc num.toNat < 10 ^ 10 := by omega
    _ ≤ divisor base ^ 10 := Nat.pow_le_pow_left (divisor_bounds base).1 10

theorem digits_ne_zero (large : Bool) {i : Nat} (hi : i < 16) : digits large i ≠ 0 := by
  have hall : ∀ large, ∀ i < 16, digits large i ≠ 0 := by decide
  exact hall large i hi

theorem tmp_ne_zero (large : Bool) (base : Nat) (num : BitVec 32) : 0 ∉ tmp large base num := by
  unfold tmp
  split_ifs
  · decide
  · rw [convertDigits_eq, mem_map]
    rintro ⟨i, hi, hzero⟩
    have hdivisor := divisor_bounds base
    exact digits_ne_zero large ((Nat.digits_lt_base (by omega) hi).trans_le hdivisor.2) hzero

/-- The sign, where one is printed. -/
def signText (type : Flags) (num : BitVec 32) : List UInt8 :=
  if signOf type num ≠ 0 then [signOf type num] else []

theorem signText_ne_zero (type : Flags) (num : BitVec 32) : 0 ∉ signText type num := by
  unfold signText
  split_ifs with hsign
  · rw [mem_singleton]
    exact hsign.symm
  · exact not_mem_nil

theorem length_signText_le (type : Flags) (num : BitVec 32) : (signText type num).length ≤ 1 := by
  unfold signText
  split_ifs
  · exact le_rfl
  · exact Nat.zero_le _

/-- A number in a field of zeros. -/
def padded (num : BitVec 32) (base width : Nat) (type : Flags) : List UInt8 :=
  let digits := (tmp type.large base (magnitude type num)).reverse
  signText type num ++
    List.replicate (width - (signText type num).length - digits.length) (ch '0') ++ digits

theorem int32_of_small {x : Int} (hlow : -1000 < x) (hhigh : x < 1000) : int32 x = x := by
  unfold int32
  simp only [Int.bmod_def]
  omega

section

variable (num : BitVec 32) {width : Nat}
include num

theorem printNumber_padded (base : Nat) (hwidth : width ≤ 8)
    {type : Flags} (hzeropad : type.zeropad = true) (hleft : type.left = false) :
    printNumber append [] num base width (-1) type = padded num base width type := by
  obtain ⟨t, ht⟩ : ∃ t, t = tmp type.large base (magnitude type num) := ⟨_, rfl⟩
  have hlen : t.length ≤ 10 := ht ▸ length_tmp_le ..
  have hmax : max (-1) (t.length : Int) = t.length := by omega
  have hsize : int32 ((width : Int) - t.length) = width - t.length :=
    int32_of_small (by omega) (by omega)
  have hsigned : int32 ((width : Int) - t.length - 1) = width - t.length - 1 :=
    int32_of_small (by omega) (by omega)
  have hdone : ∀ x : Int, -12 ≤ x → x ≤ 8 → (countDown x).toNat = 0 := by
    intro x hlow hhigh
    unfold countDown
    split_ifs
    · rfl
    · rw [int32_of_small (by omega) (by omega)]
      omega
  unfold printNumber padded signText
  simp only [hzeropad, hleft, Bool.true_or, Bool.not_true, Bool.false_eq_true, if_false, if_true,
    false_and, ← ht, hmax, hsize, hsigned, pad_append, puts_append, Int.sub_self, Int.toNat_zero,
    replicate_zero, append_nil, length_reverse, ne_eq, Int.reduceNeg,
    Int.reduceEq, not_false_eq_true]
  split_ifs with hsign
  · have hzeros : ((width : Int) - t.length).toNat = width - t.length := by omega
    rw [hdone _ (by omega) (by omega), hzeros, replicate_zero, append_nil,
      length_nil, Nat.sub_zero]
  · have hzeros : ((width : Int) - t.length - 1).toNat = width - 1 - t.length := by omega
    rw [hdone _ (by omega) (by omega), hzeros, replicate_zero, append_nil,
      length_singleton]
    rfl

theorem padded_ne_zero (base width : Nat) (type : Flags) : 0 ∉ padded num base width type := by
  unfold padded
  simp only [mem_append, mem_reverse, mem_replicate, not_or, not_and]
  exact ⟨⟨signText_ne_zero type num, fun _ => by decide⟩, tmp_ne_zero _ _ _⟩

theorem length_padded (base width : Nat) (type : Flags) :
    (padded num base width type).length = max width
      ((signText type num).length + (tmp type.large base (magnitude type num)).length) := by
  unfold padded
  simp only [length_append, length_replicate, length_reverse]
  omega

theorem length_padded_le (base : Nat) (hwidth : width ≤ 8)
    (type : Flags) : (padded num base width type).length ≤ 11 := by
  have hsign := length_signText_le type num
  have htmp := length_tmp_le type.large base (magnitude type num)
  rw [length_padded]
  omega

end

/-- A conversion of an integer in a field of zeros, and what follows it in the format. -/
theorem text_padded {fmt rest : List UInt8} {args : Args} {flags type : Flags} {c : UInt8}
    {base : Nat} (width : Nat) (hspec : getSpec fmt args =
      ({ flags, fieldWidth := width, precision := -1, qualifier := 0 }, c :: rest, args))
    (hc : integer c flags = some (base, type)) (hwidth : width ≤ 8)
    (hzeropad : type.zeropad = true) (hleft : type.left = false) :
    text (ch '%' :: fmt) args = padded (args 0).word base width type ++ text rest args.rest := by
  have hnumber : ∀ sign arg, getNumber 0 sign arg = arg := fun _ _ => rfl
  rw [text_percent, hspec]
  dsimp only
  rw [convert_integer hc]
  rw [hnumber, printNumber_padded _ _ hwidth hzeropad hleft]

theorem getSpec_zeropad (c : UInt8) (fmt : List UInt8) (args : Args) {w : Nat}
    (hw : w = 2 ∨ w = 3 ∨ w = 4) (hc : c = ch 'd' ∨ c = ch 'X') :
    getSpec (ch '0' :: (ch '0' + .ofNat w) :: c :: fmt) args =
      ({ flags := { Flags.none with zeropad := true }, fieldWidth := w, precision := -1,
         qualifier := 0 }, c :: fmt, args) := by
  have hdigit : isDigit (ch '0' + .ofNat w) = true ∧
      int32 (0 * 10 + (ch '0' + UInt8.ofNat w - ch '0').toNat) = w := by
    rcases hw with rfl | rfl | rfl
    · decide
    · decide
    · decide
  have hstop : isDigit c = false := by
    rcases hc with rfl | rfl
    · rfl
    · rfl
  have hflags : processFlags .none (ch '0' :: (ch '0' + .ofNat w) :: c :: fmt) =
      ({ Flags.none with zeropad := true }, (ch '0' + .ofNat w) :: c :: fmt) := by
    rcases hw with rfl | rfl | rfl
    · rfl
    · rfl
    · rfl
  have hwidth : ∀ flags, getFieldWidth flags ((ch '0' + .ofNat w) :: c :: fmt) args =
      ((w : Int), flags, c :: fmt, args) := by
    intro flags
    unfold getFieldWidth
    dsimp only
    rw [if_pos hdigit.1, skipAtoi, if_pos hdigit.1, hdigit.2, skipAtoi, hstop]
    rfl
  unfold getSpec
  rw [hflags]
  dsimp only
  rw [hwidth]
  rcases hc with rfl | rfl
  · rfl
  · rfl

/-- The flags of `%0d`. -/
def zeroSigned : Flags := { Flags.none with zeropad := true, sign := true }

/-- The flags of `%0X`. -/
def zeroLarge : Flags := { Flags.none with zeropad := true, large := true }

section

variable (fmt : List UInt8)
include fmt

theorem text_zeropad (args : Args) {w : Nat} (hw : w = 2 ∨ w = 3) :
    text (ch '%' :: ch '0' :: (ch '0' + .ofNat w) :: ch 'd' :: fmt) args =
      padded (args 0).word 10 w zeroSigned ++ text fmt args.rest :=
  text_padded w (getSpec_zeropad _ fmt args (hw.imp_right .inl) (.inl rfl)) rfl (by omega) rfl rfl

theorem text_04X (args : Args) : text (ch '%' :: ch '0' :: ch '4' :: ch 'X' :: fmt) args =
      padded (args 0).word 16 4 zeroLarge ++ text fmt args.rest := by
  have hdigit : ch '4' = ch '0' + .ofNat 4 := by decide
  have hc : integer (ch 'X') { Flags.none with zeropad := true } = some (16, zeroLarge) := rfl
  rw [hdigit]
  exact text_padded 4 (getSpec_zeropad _ fmt args (.inr (.inr rfl)) (.inr rfl)) hc (by decide)
    rfl rfl

end

end RtKernel.Print

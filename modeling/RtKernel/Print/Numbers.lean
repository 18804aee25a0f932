import Mathlib.Data.List.TakeWhile
import Mathlib.Data.Nat.Digits.Lemmas
import RtKernel.Print.Text

/-!
# What a number is printed as

An integer conversion prints blanks, a sign, zeros, the digits of the number and blanks
again. Without the padding and the sign the digits are left.
-/

open List

namespace RtKernel.Print

/-- The digits in a base that do not lead with a zero, of which `0` has none. -/
def figures (large : Bool) (base v : Nat) : List UInt8 :=
  (Nat.digits base v).reverse.map (digits large)

/-- The numeral in a base. -/
def numeral (large : Bool) (base v : Nat) : List UInt8 :=
  if v = 0 then [ch '0'] else figures large base v

/-- The value of a digit. -/
def digitValue (c : UInt8) : Nat :=
  if c < ch 'A' then (c - ch '0').toNat
  else if c < ch 'a' then (c - ch 'A').toNat + 10 else (c - ch 'a').toNat + 10

/-- What is left without blanks and signs. -/
def strip (t : List UInt8) : List UInt8 := t.filter fun c => c ≠ ch ' ' ∧ c ≠ ch '+' ∧ c ≠ ch '-'

/-- Behind zeros the text has the numeral of the value, and read in the base it is the value;
only `0` with the precision `0` needs no character at all. -/
structure Shows (large : Bool) (base v : Nat) (precision : Int) (t : List UInt8) : Prop where
  numeral : (∃ zeros, strip t = replicate zeros (ch '0') ++ numeral large base v) ∨
    v = 0 ∧ precision = 0 ∧ strip t = []
  value : Nat.ofDigits base ((strip t).reverse.map digitValue) = v

section

variable (large : Bool) {base v : Nat}
include large

section

variable {i : Nat} (hi : i < 16)
include hi

theorem digitValue_digits : digitValue (digits large i) = i := by
  have hall : ∀ large, ∀ i < 16, digitValue (digits large i) = i := by decide
  exact hall large i hi

theorem digits_eq_zero (h : digits large i = ch '0') : i = 0 := by
  rw [← digitValue_digits large hi, h]
  decide

theorem strip_digits :
    digits large i ≠ ch ' ' ∧ digits large i ≠ ch '+' ∧ digits large i ≠ ch '-' := by
  have hall : ∀ large, ∀ i < 16,
      digits large i ≠ ch ' ' ∧ digits large i ≠ ch '+' ∧ digits large i ≠ ch '-' := by decide
  exact hall large i hi

end

theorem map_digitValue_digits (hbase : 1 < base) (hle : base ≤ 16) :
    (Nat.digits base v).map (fun i => digitValue (digits large i)) = Nat.digits base v := by
  rw [map_congr_left (g := id), map_id]
  intro i hi
  exact digitValue_digits large ((Nat.digits_lt_base hbase hi).trans_le hle)

/-- The numerals in two bases, of which one is at least twice the other, are equal for a number of
one digit only. -/
theorem figures_eq_iff {b c v : Nat} (hb : 1 < b) (hbc : 2 * b ≤ c) (hc : c ≤ 16) :
    figures large b v = figures large c v ↔ v < b := by
  constructor
  · intro h
    have hmap := congrArg (fun l => (l.map digitValue).reverse) h
    simp only [figures, map_reverse, map_map, reverse_reverse] at hmap
    have heq : Nat.digits b v = Nat.digits c v := by
      rw [← map_digitValue_digits large hb (by omega),
        ← @map_digitValue_digits large c v (by omega) hc]
      exact hmap
    rcases Nat.eq_zero_or_pos v with rfl | hv
    · omega
    · -- the rests of the two numerals are one list of digits, too
      rw [Nat.digits_def' hb hv, Nat.digits_def' (by omega) hv, List.cons.injEq] at heq
      have hle : v / b ≤ v / c := by
        calc v / b = Nat.ofDigits b (Nat.digits c (v / c)) := by
              rw [← heq.2, Nat.ofDigits_digits]
          _ ≤ Nat.ofDigits c (Nat.digits c (v / c)) := Nat.ofDigits_monotone _ (by omega)
          _ = v / c := Nat.ofDigits_digits c _
      have hhalf : v / c ≤ v / b / 2 := by
        rw [Nat.div_div_eq_div_mul]
        exact Nat.div_le_div_left (by omega) (by omega)
      have hzero : v / b = 0 := by
        obtain ⟨x, hx⟩ : ∃ x, x = v / b := ⟨_, rfl⟩
        omega
      exact Nat.lt_of_div_eq_zero (by omega) hzero
  · intro hv
    unfold figures
    rcases Nat.eq_zero_or_pos v with rfl | hpos
    · rw [Nat.digits_zero, Nat.digits_zero]
    · rw [Nat.digits_of_lt b v hpos.ne' hv, Nat.digits_of_lt c v hpos.ne' (by omega)]

theorem figures_eq_nil_iff : figures large base v = [] ↔ v = 0 := by
  rw [figures, map_eq_nil_iff, reverse_eq_nil_iff, Nat.digits_eq_nil_iff_eq_zero]

theorem dropWhile_figures (hbase : 1 < base) (hle : base ≤ 16) :
    (figures large base v).dropWhile (· = ch '0') = figures large base v := by
  unfold figures
  cases hl : (Nat.digits base v).reverse with
  | nil => rfl
  | cons d l =>
    have hlast : (Nat.digits base v).getLast? = some d := by
      rw [← List.head?_reverse, hl]
      rfl
    have hmem := mem_of_getLast? hlast
    have hv : v ≠ 0 := by
      rintro rfl
      rw [Nat.digits_zero] at hmem
      cases hmem
    have hd : d ≠ 0 := by
      have hne := Nat.getLast_digit_ne_zero base hv
      rw [List.getLast?_eq_some_getLast (Nat.digits_ne_nil_iff_ne_zero.mpr hv)] at hlast
      rwa [Option.some.inj hlast] at hne
    have hlt : d < 16 := (Nat.digits_lt_base hbase hmem).trans_le hle
    simpa using fun h => hd (digits_eq_zero large hlt h)

end

section

variable {large : Bool} {base v : Nat} {t : List UInt8} (hbase : 1 < base)
include hbase

/-- Behind zeros the text has the figures of a number, which do not begin with a zero. -/
theorem dropWhile_eq_figures_iff
    (hle : base ≤ 16) : t.dropWhile (· = ch '0') = figures large base v ↔
      ∃ zeros, t = replicate zeros (ch '0') ++ figures large base v := by
  constructor
  · intro h
    refine ⟨(t.takeWhile (· = ch '0')).length, ?_⟩
    have hzeros : t.takeWhile (· = ch '0') =
        replicate (t.takeWhile (· = ch '0')).length (ch '0') := by
      rw [eq_replicate_iff]
      exact ⟨rfl, fun c hc => by simpa using mem_takeWhile_imp hc⟩
    rw [← hzeros, ← h, takeWhile_append_dropWhile]
  · rintro ⟨zeros, rfl⟩
    rw [dropWhile_append_of_pos, dropWhile_figures large hbase hle]
    intro c hc
    exact decide_eq_true (eq_of_mem_replicate hc)

theorem value_of_figures
    (hle : base ≤ 16) (h : ∃ zeros, t = replicate zeros (ch '0') ++ figures large base v) :
    Nat.ofDigits base (t.reverse.map digitValue) = v := by
  obtain ⟨zeros, rfl⟩ := h
  have hvalue : (figures large base v).reverse.map digitValue = Nat.digits base v := by
    rw [figures, ← map_reverse, reverse_reverse, map_map]
    exact map_digitValue_digits large hbase hle
  have hzero : digitValue (ch '0') = 0 := by decide
  rw [reverse_append, map_append, hvalue, reverse_replicate, map_replicate, hzero,
    Nat.ofDigits_append, Nat.ofDigits_replicate_zero, Nat.mul_zero, Nat.add_zero,
    Nat.ofDigits_digits]

end

/-- The figures of the value behind zeros are enough, and for `0` one of the zeros. -/
theorem shows_iff {large : Bool} {base v : Nat} {precision : Int} {t : List UInt8}
    (hbase : 1 < base) (hle : base ≤ 16) : Shows large base v precision t ↔
      (∃ zeros, strip t = replicate zeros (ch '0') ++ figures large base v) ∧
        (v = 0 → precision ≠ 0 → strip t ≠ []) := by
  have hzero : figures large base 0 = [] := (figures_eq_nil_iff large).mpr rfl
  have hlast : ∀ zeros, replicate zeros (ch '0') ++ numeral large base 0 =
      replicate (zeros + 1) (ch '0') := fun zeros => replicate_succ'.symm
  constructor
  · rintro ⟨⟨zeros, hzeros⟩ | ⟨rfl, hprecision, hnil⟩, -⟩
    · rcases eq_or_ne v 0 with rfl | hv
      · rw [hlast] at hzeros
        rw [hzeros, hzero]
        exact ⟨⟨zeros + 1, (append_nil _).symm⟩, fun _ _ => cons_ne_nil _ _⟩
      · rw [numeral, if_neg hv] at hzeros
        exact ⟨⟨zeros, hzeros⟩, fun h => absurd h hv⟩
    · rw [hnil, hzero]
      exact ⟨⟨0, rfl⟩, fun _ h => absurd hprecision h⟩
  · rintro ⟨⟨zeros, hzeros⟩, hne⟩
    refine ⟨?_, value_of_figures hbase hle ⟨zeros, hzeros⟩⟩
    rcases eq_or_ne v 0 with rfl | hv
    · rw [hzero, append_nil] at hzeros
      cases zeros with
      | zero => exact .inr ⟨rfl, not_not.mp fun h => hne rfl h hzeros, hzeros⟩
      | succ zeros => exact .inl ⟨zeros, by rw [hzeros, hlast]⟩
    · rw [numeral, if_neg hv]
      exact .inl ⟨zeros, hzeros⟩

/-- The base in which `divide` works. -/
def divisor (base : Nat) : Nat := if base = 10 then 10 else 16

theorem divide_eq (n : BitVec 32) (base : Nat) : (divide n base).1 = n.toNat % divisor base ∧
      (divide n base).2.toNat = n.toNat / divisor base := by
  unfold divide divisor
  split_ifs
  · exact ⟨rfl, rfl⟩
  · exact ⟨rfl, rfl⟩

/-- The digits that are filled in, in the base of `divide`. -/
theorem convertDigits_eq (large : Bool) (base : Nat) (num : BitVec 32) :
    convertDigits large base num = (Nat.digits (divisor base) num.toNat).map (digits large) := by
  have hdivisor : 1 < divisor base := by
    unfold divisor
    split_ifs <;> decide
  fun_induction convertDigits large base num with
  | case1 => exact (congrArg (List.map (digits large)) (Nat.digits_zero _)).symm
  | case2 num hnum ih =>
    have hpos : 0 < num.toNat := by
      rcases Nat.eq_zero_or_pos num.toNat with hzero | hpos
      · exact absurd (BitVec.eq_of_toNat_eq hzero) hnum
      · exact hpos
    rw [ih, Nat.digits_def' hdivisor hpos, map_cons, (divide_eq num base).1,
      (divide_eq num base).2]

theorem dropWhile_tmp (large : Bool) (base : Nat) (num : BitVec 32) :
    (tmp large base num).reverse.dropWhile (· = ch '0') =
      figures large (divisor base) num.toNat := by
  unfold tmp
  split_ifs with hzero
  · have hnil : figures large (divisor base) num.toNat = [] :=
      (figures_eq_nil_iff large).mpr (congrArg BitVec.toNat hzero)
    rw [hnil]
    decide
  · rw [convertDigits_eq, ← map_reverse]
    apply dropWhile_figures
    all_goals
      unfold divisor
      split_ifs <;> decide

theorem strip_tmp (large : Bool) (base : Nat) (num : BitVec 32) :
    strip (tmp large base num).reverse = (tmp large base num).reverse := by
  unfold strip
  rw [filter_eq_self]
  intro c hc
  rw [mem_reverse] at hc
  unfold tmp at hc
  split_ifs at hc
  · rw [mem_singleton.mp hc]
    decide
  · rw [convertDigits_eq] at hc
    obtain ⟨i, hi, rfl⟩ := mem_map.mp hc
    have hlt : i < 16 := by
      unfold divisor at hi
      split_ifs at hi
      · exact (Nat.digits_lt_base (by decide) hi).trans (by decide)
      · exact Nat.digits_lt_base (by decide) hi
    exact decide_eq_true (strip_digits large hlt)

/-- A sink that keeps the characters behind the padding and the sign. -/
def significant (s : List UInt8) (c : UInt8) : List UInt8 :=
  if c = ch ' ' ∨ c = ch '+' ∨ c = ch '-' ∨ (c = ch '0' ∧ s = []) then s else s ++ [c]

theorem significant_map (s : List UInt8) (c : UInt8) : (strip (append s c)).dropWhile (· = ch '0') =
      significant ((strip s).dropWhile (· = ch '0')) c := by
  have hsplit : strip (append s c) = strip s ++ strip [c] := filter_append ..
  unfold significant
  rw [hsplit]
  by_cases hpad : c = ch ' ' ∨ c = ch '+' ∨ c = ch '-'
  · have hnil : strip [c] = [] := by
      rcases hpad with rfl | rfl | rfl <;> rfl
    rw [hnil, append_nil, if_pos]
    rcases hpad with h | h | h
    · exact .inl h
    · exact .inr (.inl h)
    · exact .inr (.inr (.inl h))
  · simp only [not_or] at hpad
    have hself : strip [c] = [c] := by
      unfold strip
      rw [filter_eq_self]
      intro d hd
      rw [mem_singleton.mp hd]
      exact decide_eq_true hpad
    rw [hself, dropWhile_append]
    simp only [hpad.1, hpad.2.1, hpad.2.2, false_or, List.isEmpty_iff]
    by_cases hnil : (strip s).dropWhile (· = ch '0') = []
    · by_cases hzero : c = ch '0'
      · rw [if_pos hnil, if_pos ⟨hzero, hnil⟩, hnil, hzero]
        rfl
      · rw [if_pos hnil, if_neg (fun h => hzero h.1), hnil, dropWhile_cons_of_neg (by simpa)]
        rfl
    · rw [if_neg hnil, if_neg (fun h => hnil h.2)]

variable {c : UInt8} {base : Nat} {type : Flags}

theorem pad_significant (hc : c = ch ' ' ∨ c = ch '0') (n : Nat) :
    pad significant c n [] = [] := by
  have hput : significant [] c = [] := by
    apply if_pos
    rcases hc with rfl | rfl
    · exact .inl rfl
    · exact .inr (.inr (.inr ⟨rfl, rfl⟩))
  induction n with
  | zero => rfl
  | succ n ih => rw [pad, hput, ih]

theorem pad_blank (n : Nat) (s : List UInt8) : pad significant (ch ' ') n s = s := by
  induction n generalizing s with
  | zero => rfl
  | succ n ih =>
    have hput : significant s (ch ' ') = s := if_pos (.inl rfl)
    rw [pad, hput, ih]

theorem significant_sign (type : Flags) (num : BitVec 32) (h : signOf type num ≠ 0) :
    significant [] (signOf type num) = [] := by
  unfold signOf at h ⊢
  apply if_pos
  split_ifs at h ⊢
  · exact .inr (.inr (.inl rfl))
  · exact .inr (.inl rfl)
  · exact .inl rfl
  · exact absurd rfl h
  · exact absurd rfl h

theorem puts_significant (large : Bool) (base : Nat) (num : BitVec 32) :
    puts significant (tmp large base num).reverse [] = figures large (divisor base) num.toNat := by
  have hmap := puts_map (h := fun s => (strip s).dropWhile (· = ch '0')) significant_map
    (tmp large base num).reverse []
  rw [puts_append, nil_append, strip_tmp, dropWhile_tmp] at hmap
  exact hmap.symm

/-- Without padding and sign the digits are left, unless the precision is `0`. -/
theorem printNumber_significant (num : BitVec 32) (base : Nat) (s precision : Int) (type : Flags) :
    printNumber significant [] num base s precision type =
      if precision ≠ 0 then figures type.large (divisor base) (magnitude type num).toNat
      else [] := by
  have hblank : ∀ n, pad significant (ch ' ') n [] = [] := pad_significant (.inl rfl)
  have hzero : ∀ n, pad significant (ch '0') n [] = [] := pad_significant (.inr rfl)
  have hsign : ∀ t : Flags,
      (if signOf t num ≠ 0 then significant [] (signOf t num) else []) = [] := by
    intro t
    split_ifs with h
    · exact significant_sign t num h
    · rfl
  have hc : ∀ (b : Bool) n, pad significant (if b then ch '0' else ch ' ') n [] = [] := by
    intro b n
    cases b
    · exact hblank n
    · exact hzero n
  unfold printNumber
  cases hleft : type.left with
  | true =>
    simp only [hblank, hzero, hsign, hc, pad_blank, ite_self, if_true, puts_significant]
    rfl
  | false =>
    simp only [hblank, hzero, hsign, hc, pad_blank, ite_self, puts_significant]
    rfl

/-- What a number is printed as shows it in the base of `divide`, unless the precision is `0`. -/
theorem printNumber_shows (num : BitVec 32) (base : Nat) (s precision : Int) (type : Flags) :
    (strip (printNumber append [] num base s precision type)).dropWhile (· = ch '0') =
      if precision ≠ 0 then figures type.large (divisor base) (magnitude type num).toNat
      else [] := by
  rw [← printNumber_significant num base s]
  exact printNumber_map (h := fun s => (strip s).dropWhile (· = ch '0')) significant_map [] num
    base s precision type

/-- The value that a conversion prints, without its sign. -/
def shownValue (sign : Bool) (num : BitVec 32) : Nat := if sign then num.toInt.natAbs else num.toNat

/-- The negation of the least number is that number again, which is taken for its absolute value. -/
theorem magnitude_toNat (type : Flags) (num : BitVec 32) :
    (magnitude type num).toNat = shownValue type.sign num := by
  unfold magnitude shownValue
  cases type.sign with
  | false => simp
  | true =>
    have hint := BitVec.toInt_eq_toNat_cond num
    rcases Nat.lt_or_ge (2 * num.toNat) (2 ^ 32) with hpos | hneg
    · rw [if_pos hpos] at hint
      rw [if_neg (by omega), if_pos rfl, hint, Int.natAbs_natCast]
    · rw [if_neg (by omega)] at hint
      rw [if_pos ⟨rfl, by omega⟩, if_pos rfl, BitVec.toNat_neg]
      omega

theorem integer_base {flags type : Flags}
    (h : integer c flags = some (base, type)) : base = 8 ∨ base = 10 ∨ base = 16 := by
  unfold integer at h
  split_ifs at h
  all_goals
    cases h
    simp

theorem convert_integer {spec : Spec}
    (h : integer c spec.flags = some (base, type)) (fmt : List UInt8) (args : Args) :
    convert append [] spec (c :: fmt) args =
      (printNumber append [] (getNumber spec.qualifier type.sign (args 0).word) base
        spec.fieldWidth spec.precision type, fmt, args.rest) := by
  have hother : ∀ d, integer d spec.flags = none → c ≠ d := by
    rintro d hd rfl
    cases h.symm.trans hd
  unfold convert
  dsimp only
  rw [if_neg (hother (ch 'c') rfl), if_neg (hother (ch 's') rfl), if_neg (hother (ch 'p') rfl),
    if_neg (hother (ch '%') rfl), h]

/-- A sink that looks for a zero. -/
def hasZero (found : Bool) (c : UInt8) : Bool := found || c = ch '0'

theorem pad_hasZero (c : UInt8) (n : Nat) : pad hasZero c n true = true := by
  induction n with
  | zero => rfl
  | succ n ih => exact ih

/-- Where the precision is not `0`, the number `0` is printed with a zero at least. -/
theorem printNumber_zero {num : BitVec 32} (hzero : magnitude type num = 0)
    {precision : Int} (hprecision : precision ≠ 0) (base : Nat) (s : Int) :
    strip (printNumber append [] num base s precision type) ≠ [] := by
  have hmap : ∀ (l : List UInt8) (c : UInt8),
      (append l c).contains (ch '0') = hasZero (l.contains (ch '0')) c := by
    intro l c
    simp [append, hasZero, eq_comm]
  have hputs : ∀ (t : Flags) (found : Bool), magnitude t num = 0 →
      puts hasZero (tmp t.large base (magnitude t num)).reverse found = true := by
    intro t found ht
    simp [ht, tmp, puts, hasZero]
  have hfound : printNumber hasZero false num base s precision type = true := by
    unfold printNumber
    dsimp only
    rw [if_pos hprecision, hputs, pad_hasZero]
    cases type.left
    · exact hzero
    · exact hzero
  have hcontains := printNumber_map (h := fun l : List UInt8 => l.contains (ch '0')) hmap [] num
    base s precision type
  rw [contains_nil, hfound, contains_iff_mem] at hcontains
  exact ne_nil_of_mem (mem_filter.mpr ⟨hcontains, by decide⟩)

/-- A conversion of an integer, whatever its flags, width and precision: without padding and sign
the numeral of the value is left exactly when the precision is not `0`, or there is nothing to
print, and for a base of eight when there is one digit to print. -/
theorem integer_shows (fmt rest : List UInt8) (args args' : Args) (spec : Spec) (c : UInt8)
    (base : Nat) (type : Flags) (hspec : getSpec fmt args = (spec, c :: rest, args'))
    (hc : integer c spec.flags = some (base, type)) :
    let value := shownValue type.sign (getNumber spec.qualifier type.sign (args' 0).word)
    let printed := (convert append [] spec (c :: rest) args').1
    text (ch '%' :: fmt) args = printed ++ text rest args'.rest ∧
      (Shows type.large base value spec.precision printed ↔
        (spec.precision ≠ 0 ∨ value = 0) ∧ (base = 8 → value < 8)) := by
  dsimp only
  have hconvert := convert_integer hc rest args'
  have hprinted := printNumber_shows (getNumber spec.qualifier type.sign (args' 0).word) base
    spec.fieldWidth spec.precision type
  rw [magnitude_toNat] at hprinted
  have hzero : shownValue type.sign (getNumber spec.qualifier type.sign (args' 0).word) = 0 →
      spec.precision ≠ 0 → strip (printNumber append []
        (getNumber spec.qualifier type.sign (args' 0).word) base spec.fieldWidth spec.precision
        type) ≠ [] := by
    intro hvalue hprecision
    refine printNumber_zero (BitVec.eq_of_toNat_eq ?_) hprecision base _
    rw [magnitude_toNat, hvalue]
    rfl
  obtain ⟨v, hv⟩ : ∃ v, v = shownValue type.sign
    (getNumber spec.qualifier type.sign (args' 0).word) := ⟨_, rfl⟩
  refine ⟨?_, ?_⟩
  · rw [text_percent, hspec]
    dsimp only
    rw [hconvert]
  · have hbase := integer_base hc
    rw [hconvert, shows_iff (by omega) (by omega), and_iff_left hzero,
      ← dropWhile_eq_figures_iff (by omega) (by omega)]
    dsimp only
    rw [hprinted, ← hv]
    by_cases hprecision : spec.precision = 0
    · rw [if_neg (not_not_intro hprecision), eq_comm, figures_eq_nil_iff]
      constructor
      · rintro rfl
        exact ⟨.inr rfl, fun _ => by decide⟩
      · rintro ⟨hor, -⟩
        exact hor.resolve_left (not_not_intro hprecision)
    · rw [if_pos hprecision]
      rcases hbase with rfl | rfl | rfl
      · have hdivisor : divisor 8 = 16 := rfl
        rw [hdivisor, eq_comm, figures_eq_iff type.large (by decide) (by decide) (by decide)]
        exact ⟨fun h => ⟨.inl hprecision, fun _ => h⟩, fun h => h.2 rfl⟩
      all_goals exact iff_of_true rfl ⟨.inl hprecision, fun h => absurd h (by decide)⟩

/-- `"%-d"` of the least number. -/
theorem integer_shows_least :
    let args : Args := fun _ => ⟨0x80000000, []⟩
    let spec := (getSpec [ch '-', ch 'd'] args).1
    let value := shownValue true (getNumber spec.qualifier true 0x80000000)
    let printed := (convert append [] spec [ch 'd'] args).1
    text [ch '%', ch '-', ch 'd'] args = printed ++ text [] args.rest ∧
      (Shows false 10 value spec.precision printed ↔
        (spec.precision ≠ 0 ∨ value = 0) ∧ (10 = 8 → value < 8)) := by
  have hspec : ∀ args, getSpec [ch '-', ch 'd'] args =
      ((getSpec [ch '-', ch 'd'] args).1, [ch 'd'], args) := fun _ => rfl
  have hc : ∀ args, integer (ch 'd') (getSpec [ch '-', ch 'd'] args).1.flags =
      some (10, { Flags.none with left := true, sign := true }) := fun _ => rfl
  exact integer_shows [ch '-', ch 'd'] [] _ _ _ (ch 'd') 10 _ (hspec _) (hc _)

/-- `"%o"` of eight prints `8`, and `"%.0d"` of five prints nothing. -/
theorem octal_not_shown :
    (text [ch '%', ch 'o'] (fun _ => ⟨8, []⟩) = [ch '8'] ∧ ¬ Shows false 8 8 (-1) [ch '8']) ∧
      text [ch '%', ch '.', ch '0', ch 'd'] (fun _ => ⟨5, []⟩) = [] ∧ ¬ Shows false 10 5 0 [] := by
  refine ⟨⟨by decide +kernel, fun h => ?_⟩, by decide +kernel, fun h => ?_⟩
  · rcases h.numeral with ⟨zeros, hzeros⟩ | ⟨height, -⟩
    · have hlength := congrArg List.length hzeros
      rw [length_append, length_replicate, numeral, if_neg (by decide), figures, length_map,
        length_reverse] at hlength
      have hone : (strip [ch '8']).length = 1 := by decide
      have hshort : (Nat.digits 8 8).length ≤ 1 := by omega
      rw [Nat.digits_length_le_iff (by decide)] at hshort
      exact absurd hshort (by decide)
    · exact absurd height (by decide)
  · exact absurd h.value (by decide)

end RtKernel.Print

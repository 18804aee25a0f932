import RtKernel.Core.Decimal
import RtKernel.Drivers.PinIrq

/-!
# Names of pins

`hc32_pin_get` makes a pin of a name such as `PA.10`. It reads the port and the number at
their places and cuts both down to four bits.
-/

namespace RtKernel.PinName

open Decimal PinIrq List

/-- `RT_EINVAL`. -/
def rtEinval : Int := 10

def letterP : UInt8 := 80

def dot : UInt8 := 46

/-- `PIN_NUM`. -/
def pinNum (port pin : Int) : Int := 16 * (port % 16) + pin % 16

/-- `hc32_pin_get`. -/
def hc32PinGet (name : List UInt8) : Int :=
  if name.length < 4 ∨ 6 ≤ name.length then -rtEinval
  else if name.getD 0 0 ≠ letterP ∨ name.getD 2 0 ≠ dot then -rtEinval
  else if 65 ≤ (name.getD 1 0).toNat ∧ (name.getD 1 0).toNat ≤ 90 then
    pinNum ((name.getD 1 0).toNat - 65)
      ((name.drop 3).foldl (fun n c => 10 * n + ((c.toNat : Int) - 48)) 0)
  else -rtEinval

/-- `GPIO_PORT_*`. -/
def gpioPort (letter : UInt8) : Option Nat :=
  if letter = 65 then some 0
  else if letter = 66 then some 1
  else if letter = 67 then some 2
  else if letter = 68 then some 3
  else if letter = 69 then some 4
  else if letter = 72 then some 5
  else none

/-- `GET_PIN`. -/
def getPin (port pin : Nat) : Nat := port * 16 + pin

/-- `GPIO_PORT`, the port that the driver takes for a pin. -/
def gpioPortOf (pin : Nat) : Nat := pin / 16 % 16

/-- The parts of a name that is accepted by its places. -/
structure Placed (name : List UInt8) (letter : UInt8) (digits : List UInt8) : Prop where
  split : name = letterP :: letter :: dot :: digits
  letter : 65 ≤ letter.toNat ∧ letter.toNat ≤ 90
  length : digits.length = 1 ∨ digits.length = 2

/-- The name of a pin that the device has. -/
structure Names (name : List UInt8) (port pin : Nat) : Prop where
  parts : ∃ letter digits, name = letterP :: letter :: dot :: digits ∧
    gpioPort letter = some port ∧ (digits.length = 1 ∨ digits.length = 2) ∧ Digits digits ∧
    decimal digits = pin
  pin : pin ≤ 15

/-- Names of pins are taken as `GET_PIN` has them, of which the driver gets port and number back,
and other names are refused. -/
structure Exact (name : List UInt8) : Prop where
  pin : ∀ port pin, Names name port pin → hc32PinGet name = getPin port pin ∧
    gpioPortOf (getPin port pin) = port ∧ gpioPinIndex (getPin port pin) = pin
  refused : (∀ port pin, ¬ Names name port pin) → hc32PinGet name = -rtEinval

variable {name : List UInt8} {letter : UInt8} {digits : List UInt8} {port pin : Nat}

/-- Ports A to E are numbered by their letters, but H comes after E. -/
theorem gpioPort_cases {letter : UInt8} (h : gpioPort letter = some port) :
    letter.toNat = 65 + port ∧ port ≤ 4 ∨ letter.toNat = 72 ∧ port = 5 := by
  unfold gpioPort at h
  split_ifs at h with hA hB hC hD hE hH
  all_goals cases h
  all_goals subst_vars
  all_goals decide

/-- The driver gets port and number back from a pin. -/
theorem getPin_parts (hport : port ≤ 5) (hpin : pin ≤ 15) :
    gpioPortOf (getPin port pin) = port ∧ gpioPinIndex (getPin port pin) = pin := by
  unfold gpioPortOf gpioPinIndex getPin
  omega

theorem foldl_digits (h : Digits digits) :
    digits.foldl (fun n c => 10 * n + ((c.toNat : Int) - 48)) 0 = (decimal digits : Int) := by
  induction digits using List.reverseRecOn with
  | nil => rfl
  | append_singleton l c ih =>
    have hlow := (isDigit_iff.mp (h c (by simp))).1
    have hl := ih fun d hd => h d (mem_append_left _ hd)
    rw [decimal_append, foldl_append]
    simp only [foldl_cons, foldl_nil]
    omega

/-- A name with the right places is always accepted. -/
theorem Placed.hc32PinGet (h : Placed name letter digits) :
    PinName.hc32PinGet name = pinNum (letter.toNat - 65)
      (digits.foldl (fun n c => 10 * n + ((c.toNat : Int) - 48)) 0) := by
  obtain ⟨rfl, hletter, hlength⟩ := h
  have hshort : ¬ ((letterP :: letter :: dot :: digits).length < 4 ∨
      6 ≤ (letterP :: letter :: dot :: digits).length) := by
    simp only [length_cons]
    omega
  rw [PinName.hc32PinGet, if_neg hshort]
  exact if_pos hletter

theorem pinNum_nonneg (port pin : Int) : 0 ≤ pinNum port pin := by
  unfold pinNum
  omega

theorem hc32PinGet_refused (h : ∀ letter digits, ¬ Placed name letter digits) :
    hc32PinGet name = -rtEinval := by
  unfold hc32PinGet
  split
  · rfl
  · next hlength =>
    split
    · rfl
    · next hfixed =>
      split
      · next hletter =>
        rcases name with _ | ⟨a, _ | ⟨b, _ | ⟨c, digits⟩⟩⟩
        · simp at hlength
        · simp at hlength
        · simp at hlength
        · simp only [length_cons] at hlength
          simp only [getD_cons_zero, getD_cons_succ, not_or, not_not] at hfixed hletter
          obtain ⟨rfl, rfl⟩ := hfixed
          exact absurd ⟨rfl, hletter, by omega⟩ (h b digits)
      · rfl

section

variable (h : Names name port pin)
include h

theorem Names.placed : ∃ letter digits, Placed name letter digits ∧
    gpioPort letter = some port ∧ Digits digits ∧ decimal digits = pin := by
  obtain ⟨⟨letter, digits, hsplit, hport, hlength, hdigits, hpin⟩, -⟩ := h
  have hletter := gpioPort_cases hport
  exact ⟨letter, digits, ⟨hsplit, by omega, hlength⟩, hport, hdigits, hpin⟩

theorem Names.eq {port' pin' : Nat} (h' : Names name port' pin') : port = port' ∧ pin = pin' := by
  obtain ⟨⟨letter, digits, hsplit, hport, -, -, hpin⟩, -⟩ := h
  obtain ⟨⟨letter', digits', hsplit', hport', -, -, hpin'⟩, -⟩ := h'
  rw [hsplit] at hsplit'
  cases hsplit'
  rw [hport] at hport'
  exact ⟨Option.some.inj hport', hpin.symm.trans hpin'⟩

theorem Names.hc32PinGet_eq_iff : hc32PinGet name = getPin port pin ↔ port ≤ 4 := by
  obtain ⟨letter, digits, hplaced, hport, hdigits, hdecimal⟩ := h.placed
  have hletter := gpioPort_cases hport
  have hpin := h.pin
  rw [hplaced.hc32PinGet, foldl_digits hdigits, pinNum, getPin]
  omega

end

/-- A name is taken exactly just when it does not have the right places, or names a pin of the ports
A to E. -/
theorem exact_pinName_iff (name : List UInt8) :
    Exact name ↔ (∀ letter digits, ¬ Placed name letter digits) ∨
      ∃ port pin, Names name port pin ∧ port ≤ 4 := by
  constructor
  · intro hexact
    by_cases hnames : ∃ port pin, Names name port pin
    · obtain ⟨port, pin, hnames⟩ := hnames
      exact .inr ⟨port, pin, hnames, hnames.hc32PinGet_eq_iff.mp (hexact.pin port pin hnames).1⟩
    · left
      intro letter digits hplaced
      have hrefused := hexact.refused fun port pin hno => hnames ⟨port, pin, hno⟩
      have hnonneg := pinNum_nonneg (letter.toNat - 65)
        (digits.foldl (fun n c => 10 * n + ((c.toNat : Int) - 48)) 0)
      rw [← hplaced.hc32PinGet, hrefused] at hnonneg
      exact absurd hnonneg (by decide)
  · rintro (hnone | ⟨port, pin, hnames, hport⟩)
    · refine ⟨fun port pin hno => ?_, fun _ => hc32PinGet_refused hnone⟩
      obtain ⟨letter, digits, hplaced, -⟩ := hno.placed
      exact absurd hplaced (hnone letter digits)
    · refine ⟨fun port' pin' hnames' => ?_, fun hno => absurd hnames (hno port pin)⟩
      obtain ⟨rfl, rfl⟩ := hnames.eq hnames'
      have hfive : port ≤ 5 := by omega
      exact ⟨hnames.hc32PinGet_eq_iff.mpr hport, getPin_parts hfive hnames.pin⟩

/-- `PH.0` is taken for a pin behind the last port. -/
theorem portH_not_exact : ¬ ∀ name, Exact name := by
  intro hall
  have hnames : Names [letterP, 72, dot, 48] 5 0 :=
    ⟨⟨72, [48], rfl, rfl, .inl rfl, by decide, rfl⟩, Nat.zero_le 15⟩
  have hpin := ((hall _).pin 5 0 hnames).1
  exact absurd hpin (by decide)

end RtKernel.PinName

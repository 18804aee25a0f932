import RtKernel.Core.Run
import Mathlib.Logic.Function.Basic
import Mathlib.Tactic.SplitIfs

/-!
# Pin interrupts

The pins with one number on all ports share an external interrupt line, and the slot
of the line in a table. `hc32_pin_attach_irq` looks at the pin in the slot;
`hc32_pin_detach_irq` and `hc32_pin_irq_enable` take whatever is attached there. What is
written to the interrupt controller and to the pin registers is kept too, so that it can
be said which handler an edge of a pin runs.

`η` are handlers and `α` their arguments. Pins are numbers from zero, so that no pin is
the `-1` of a free slot.
-/

open Option

namespace RtKernel.PinIrq

open Function (update update_eq_self update_of_ne update_self)

/-- `RT_ENOSYS`. -/
def rtEnosys : Int := 6

/-- `RT_EBUSY`. -/
def rtEbusy : Int := 7

/-- `RT_EOK`. -/
def rtEok : Int := 0

/-- `PIN_MAX_NUM`: the pins of ports A to H, where the last port has three. -/
def pinMaxNum : Nat := 5 * 16 + 2 + 1

/-- `GPIO_PIN_INDEX`, also the line of a pin. -/
def gpioPinIndex (pin : Nat) : Nat := pin % 16

/-- `EXTINT_TRIG_*`. -/
inductive Edge
  | falling
  | rising
  | both
  | low
  deriving DecidableEq

/-- The switch over `mode` in `hc32_pin_irq_enable`; falling edges are the default. -/
def edgeOf (mode : UInt16) : Edge :=
  if mode = 0 then .rising -- PIN_IRQ_MODE_RISING
  else if mode = 1 then .falling -- PIN_IRQ_MODE_FALLING
  else if mode = 2 then .both -- PIN_IRQ_MODE_RISING_FALLING
  else if mode = 4 then .low -- PIN_IRQ_MODE_LOW_LEVEL
  else .falling

/-- `struct rt_pin_irq_hdr`, where a pin of `-1` is none. -/
structure RtPinIrqHdr (η α : Type*) where
  pin : Option Nat
  mode : UInt16
  hdr : Option η
  args : Option α
  deriving DecidableEq

/-- `pin_irq_hdr_tab`, with the registers of the lines and of the pins. -/
structure Gpio (η α : Type*) where
  pinIrqHdrTab : Nat → RtPinIrqHdr η α
  /-- What `EXTINT_Init` has written for a line. -/
  extint : Nat → Edge
  /-- Whether the interrupt of a line is enabled in the controller. -/
  nvic : Nat → Bool
  /-- `GPIO_PCR_INTE` of a pin. -/
  inte : Nat → Bool

/-- A call of the pin driver; `enabled` is one for `PIN_IRQ_ENABLE`, zero for `PIN_IRQ_DISABLE`. -/
inductive Act (η α : Type*)
  | attach (pin : Nat) (mode : UInt32) (hdr : Option η) (args : Option α)
  | detach (pin : Nat)
  | irqEnable (pin enabled : Nat)

/-- The pin that a call is for. -/
def Act.pin {η α : Type*} : Act η α → Nat
  | .attach pin _ _ _ => pin
  | .detach pin => pin
  | .irqEnable pin _ => pin

namespace Gpio

variable {η α : Type*} [DecidableEq η] [DecidableEq α]

def setEntry (s : Gpio η α) (irqindex : Nat) (entry : RtPinIrqHdr η α) : Gpio η α :=
  { s with pinIrqHdrTab := update s.pinIrqHdrTab irqindex entry }

/-- `hc32_pin_attach_irq`; the slot has 16 bits for the mode. -/
def hc32PinAttachIrq (s : Gpio η α) (pin : Nat) (mode : UInt32) (hdr : Option η) (args : Option α) :
    Int × Gpio η α :=
  let irqindex := gpioPinIndex pin
  let entry := s.pinIrqHdrTab irqindex
  if pinMaxNum ≤ pin then (-rtEnosys, s)
  else if entry.pin = some pin ∧ entry.hdr = hdr ∧ entry.mode.toUInt32 = mode ∧ entry.args = args then
    (rtEok, s)
  else if entry.pin ≠ none then (rtEbusy, s)
  else
    (rtEok, s.setEntry irqindex { pin := some pin, mode := mode.toUInt16, hdr := hdr, args := args })

/-- `hc32_pin_detach_irq`. -/
def hc32PinDetachIrq (s : Gpio η α) (pin : Nat) : Int × Gpio η α :=
  let irqindex := gpioPinIndex pin
  if pinMaxNum ≤ pin then (-rtEnosys, s)
  else if (s.pinIrqHdrTab irqindex).pin = none then (rtEok, s)
  else (rtEok, s.setEntry irqindex { pin := none, mode := 0, hdr := none, args := none })

/-- `gpio_irq_config`. -/
def gpioIrqConfig (s : Gpio η α) (pin : Nat) (on : Bool) : Gpio η α :=
  { s with inte := update s.inte pin on }

/-- `hc32_pin_irq_enable`. -/
def hc32PinIrqEnable (s : Gpio η α) (pin enabled : Nat) : Int × Gpio η α :=
  let irqindex := gpioPinIndex pin
  if pinMaxNum ≤ pin ∨ 1 < enabled then (-rtEnosys, s)
  else if enabled = 1 then
    if (s.pinIrqHdrTab irqindex).pin = none then (rtEnosys, s)
    else
      let s :=
        { s with
          extint := update s.extint irqindex (edgeOf (s.pinIrqHdrTab irqindex).mode)
          nvic := update s.nvic irqindex true }
      (rtEok, s.gpioIrqConfig pin true)
  else
    let s := s.gpioIrqConfig pin false
    (rtEok, { s with nvic := update s.nvic irqindex false })

/-- `pin_irq_handler` of a line: what is called with which arguments. -/
def pinIrqHandler (s : Gpio η α) (irqindex : Nat) : Option (η × Option α) :=
  (s.pinIrqHdrTab irqindex).hdr.map fun hdr => (hdr, (s.pinIrqHdrTab irqindex).args)

/-- What an edge of a pin makes run. -/
def interrupt (s : Gpio η α) (pin : Nat) : Option (η × Option α) :=
  if s.inte pin ∧ s.nvic (gpioPinIndex pin) then s.pinIrqHandler (gpioPinIndex pin) else none

/-- A call, with its result. -/
def call (s : Gpio η α) : Act η α → Int × Gpio η α
  | .attach pin mode hdr args => s.hc32PinAttachIrq pin mode hdr args
  | .detach pin => s.hc32PinDetachIrq pin
  | .irqEnable pin enabled => s.hc32PinIrqEnable pin enabled

/-- Nothing is attached, and no line is enabled. -/
structure Initial (s : Gpio η α) : Prop where
  tab : ∀ i, s.pinIrqHdrTab i = { pin := none, mode := 0, hdr := none, args := none }
  nvic : ∀ i, s.nvic i = false
  inte : ∀ pin, s.inte pin = false

end Gpio

/-- What clients have attached for a pin and have not detached for it. -/
structure Attached (η α : Type*) where
  mode : UInt16
  hdr : Option η
  args : Option α

/-- The driver, and what its clients rely on. -/
structure Sys (η α : Type*) where
  gpio : Gpio η α
  attached : Nat → Option (Attached η α)

namespace Sys

variable {η α : Type*} {s t : Sys η α} {p q : Nat}

/-- What a successful call attaches or detaches, for the pin that it is for. -/
def record (s : Sys η α) (ret : Int) : Act η α → Nat → Option (Attached η α)
  | .attach pin mode hdr args =>
    if ret = rtEok then
      update s.attached pin (some { mode := mode.toUInt16, hdr := hdr, args := args })
    else s.attached
  | .detach pin => if ret = rtEok then update s.attached pin none else s.attached
  | .irqEnable _ _ => s.attached

/-- Nobody has attached anything. -/
structure Initial (s : Sys η α) : Prop where
  gpio : s.gpio.Initial
  attached : ∀ p, s.attached p = none

/-- An edge of a pin runs what is attached for it, and the slot of its line says so. -/
structure Kept (s : Sys η α) : Prop where
  entry : ∀ p a, s.attached p = some a → s.gpio.pinIrqHdrTab (gpioPinIndex p) =
    { pin := some p, mode := a.mode, hdr := a.hdr, args := a.args }
  runs : ∀ p call, s.gpio.interrupt p = some call →
    ∃ a, s.attached p = some a ∧ a.hdr = some call.1 ∧ a.args = call.2

/-- Nothing changes for a pin. -/
structure SameFor (s t : Sys η α) (p : Nat) : Prop where
  attached : t.attached p = s.attached p
  entry : t.gpio.pinIrqHdrTab (gpioPinIndex p) = s.gpio.pinIrqHdrTab (gpioPinIndex p)
  extint : t.gpio.extint (gpioPinIndex p) = s.gpio.extint (gpioPinIndex p)
  nvic : t.gpio.nvic (gpioPinIndex p) = s.gpio.nvic (gpioPinIndex p)
  inte : t.gpio.inte p = s.gpio.inte p

/-- A call leaves alone what is attached for other pins, and fails or does nothing where another
pin is attached on its line. -/
structure Respects (s : Sys η α) (a : Act η α) (ret : Int) (t : Sys η α) : Prop where
  others : ∀ p, p ≠ a.pin → (s.attached p).isSome → SameFor s t p
  refuses : ∀ p, p ≠ a.pin → gpioPinIndex p = gpioPinIndex a.pin → (s.attached p).isSome →
    ret ≠ rtEok ∨ t = s

/-- No other pin with the number of `p` has its edges enabled. -/
def Alone (s : Sys η α) (p : Nat) : Prop :=
  ∀ q, q ≠ p → gpioPinIndex q = gpioPinIndex p → s.gpio.inte q = false

/-- A pin is detached, enabled or disabled only when no other pin is attached on its line, and a
handler is attached, or its line enabled, only while no other pin has its edges enabled. -/
def Own (s : Sys η α) (a : Act η α) : Prop :=
  let entry := s.gpio.pinIrqHdrTab (gpioPinIndex a.pin)
  a.pin < pinMaxNum →
    match a with
    | .attach pin _ hdr _ =>
      entry.pin = none → hdr ≠ none → s.gpio.nvic (gpioPinIndex pin) → s.Alone pin
    | .detach pin => entry.pin = none ∨ entry.pin = some pin
    | .irqEnable pin enabled => enabled ≤ 1 → entry.pin = none ∨
      entry.pin = some pin ∧ (enabled = 1 → entry.hdr ≠ none → s.Alone pin)

/-- The slots agree with what is attached, and edges that are enabled are those of its pin. -/
structure Owned (s : Sys η α) : Prop where
  entry : ∀ p a, s.attached p = some a → s.gpio.pinIrqHdrTab (gpioPinIndex p) =
    { pin := some p, mode := a.mode, hdr := a.hdr, args := a.args }
  owner : ∀ i p, (s.gpio.pinIrqHdrTab i).pin = some p → gpioPinIndex p = i ∧ (s.attached p).isSome
  free : ∀ i, (s.gpio.pinIrqHdrTab i).pin = none → (s.gpio.pinIrqHdrTab i).hdr = none
  alone : ∀ p, (s.gpio.pinIrqHdrTab (gpioPinIndex p)).pin = some p →
    (s.gpio.pinIrqHdrTab (gpioPinIndex p)).hdr ≠ none → s.gpio.nvic (gpioPinIndex p) → s.Alone p

section

variable (h : Owned s)
include h

theorem Owned.kept : Kept s := by
  refine ⟨h.entry, fun p call hcall => ?_⟩
  obtain ⟨⟨hinte, hnvic⟩, hcall⟩ := ite_none_right_eq_some.mp hcall
  obtain ⟨hdr, hhdr, rfl⟩ := map_eq_some_iff.mp hcall
  have hset : (s.gpio.pinIrqHdrTab (gpioPinIndex p)).hdr ≠ none := by
    rw [hhdr]
    exact some_ne_none hdr
  cases howner : (s.gpio.pinIrqHdrTab (gpioPinIndex p)).pin with
  | none => exact absurd (h.free _ howner) hset
  | some q =>
    obtain ⟨hline, hattached⟩ := h.owner _ q howner
    -- the pin in the slot is the one whose edges are enabled
    have hpq : p = q := by
      by_contra hne
      rw [← hline] at howner hset hnvic
      have hoff := h.alone q howner hset hnvic p hne hline.symm
      rw [hinte] at hoff
      cases hoff
    subst hpq
    obtain ⟨a, ha⟩ := isSome_iff_exists.mp hattached
    rw [h.entry p a ha] at hhdr ⊢
    exact ⟨a, ha, hhdr, rfl⟩

theorem Owned.pin_eq {a : Attached η α} (ha : s.attached p = some a) :
    (s.gpio.pinIrqHdrTab (gpioPinIndex p)).pin = some p := by
  rw [h.entry p a ha]

/-- Two pins that are attached have different lines. -/
theorem Owned.eq_of_line (hp : (s.attached p).isSome)
    (hpin : (s.gpio.pinIrqHdrTab (gpioPinIndex p)).pin = some q) : p = q := by
  obtain ⟨a, ha⟩ := isSome_iff_exists.mp hp
  rw [h.pin_eq ha] at hpin
  exact some.inj hpin

/-- A slot is written, where no other pin is attached. -/
theorem Owned.setEntry {entry : RtPinIrqHdr η α} (attached : Option (Attached η α))
    (hpin : (s.gpio.pinIrqHdrTab (gpioPinIndex p)).pin = none ∨
      (s.gpio.pinIrqHdrTab (gpioPinIndex p)).pin = some p)
    (hentry : match attached with
      | none => entry.pin = none ∧ entry.hdr = none
      | some a => entry = { pin := some p, mode := a.mode, hdr := a.hdr, args := a.args })
    (halone : entry.hdr ≠ none → s.gpio.nvic (gpioPinIndex p) → s.Alone p) :
    Owned { gpio := s.gpio.setEntry (gpioPinIndex p) entry
            attached := update s.attached p attached } := by
  have hother : ∀ q, q ≠ p → (s.attached q).isSome → gpioPinIndex q ≠ gpioPinIndex p := by
    intro q hqp hq hline
    rw [← hline] at hpin
    obtain ⟨a, ha⟩ := isSome_iff_exists.mp hq
    rw [h.pin_eq ha] at hpin
    rcases hpin with hnone | hsome
    · cases hnone
    · exact hqp (some.inj hsome)
  refine ⟨fun q a ha => ?_, fun i q hq => ?_, fun i hi => ?_, fun q hq hhdr hnvic => ?_⟩
  · dsimp only [Gpio.setEntry] at ha ⊢
    by_cases hqp : q = p
    · subst hqp
      rw [update_self] at ha ⊢
      subst ha
      exact hentry
    · rw [update_of_ne hqp] at ha
      rw [update_of_ne (hother q hqp (ha ▸ rfl))]
      exact h.entry q a ha
  · dsimp only [Gpio.setEntry] at hq ⊢
    by_cases hi : i = gpioPinIndex p
    · subst hi
      rw [update_self] at hq
      cases attached with
      | none =>
        rw [hentry.1] at hq
        cases hq
      | some a =>
        rw [hentry] at hq
        cases hq
        rw [update_self]
        exact ⟨rfl, rfl⟩
    · rw [update_of_ne hi] at hq
      obtain ⟨hline, hattached⟩ := h.owner i q hq
      have hqp : q ≠ p := by
        rintro rfl
        exact hi hline.symm
      rw [update_of_ne hqp]
      exact ⟨hline, hattached⟩
  · dsimp only [Gpio.setEntry] at hi ⊢
    by_cases hline : i = gpioPinIndex p
    · subst hline
      rw [update_self] at hi ⊢
      cases attached with
      | none => exact hentry.2
      | some a =>
        rw [hentry] at hi
        cases hi
    · rw [update_of_ne hline] at hi ⊢
      exact h.free i hi
  · dsimp only [Gpio.setEntry] at hq hhdr hnvic
    by_cases hline : gpioPinIndex q = gpioPinIndex p
    · rw [hline, update_self] at hq hhdr
      cases attached with
      | none => exact absurd hentry.2 hhdr
      | some a =>
        rw [hentry] at hq
        cases hq
        exact halone hhdr hnvic
    · rw [update_of_ne hline] at hq hhdr
      exact h.alone q hq hhdr hnvic

/-- The edges of a line are enabled or disabled for the pin that is attached. -/
theorem Owned.irqEnable {gpio : Gpio η α} (on : Bool)
    (htab : gpio.pinIrqHdrTab = s.gpio.pinIrqHdrTab)
    (hnvic : gpio.nvic = update s.gpio.nvic (gpioPinIndex p) on)
    (hinte : gpio.inte = update s.gpio.inte p on)
    (hpin : (s.gpio.pinIrqHdrTab (gpioPinIndex p)).pin = none ∨
      (s.gpio.pinIrqHdrTab (gpioPinIndex p)).pin = some p)
    (halone : on = true → (s.gpio.pinIrqHdrTab (gpioPinIndex p)).hdr ≠ none → s.Alone p) :
    Owned { s with gpio := gpio } := by
  refine ⟨fun q a ha => ?_, fun i q hq => ?_, fun i hi => ?_, fun q hq hhdr hon => ?_⟩
  · dsimp only at ha ⊢
    rw [htab]
    exact h.entry q a ha
  · dsimp only at hq
    rw [htab] at hq
    exact h.owner i q hq
  · dsimp only at hi ⊢
    rw [htab] at hi ⊢
    exact h.free i hi
  · dsimp only at hq hhdr hon
    rw [htab] at hq hhdr
    rw [hnvic] at hon
    have hinte_of_ne : ∀ u, u ≠ p → gpio.inte u = s.gpio.inte u := by
      intro u hu
      rw [hinte]
      exact update_of_ne hu _ _
    by_cases hline : gpioPinIndex q = gpioPinIndex p
    · rw [hline, update_self] at hon
      have hqp : q = p := by
        rw [hline] at hq
        rw [hq] at hpin
        exact some.inj (hpin.resolve_left (some_ne_none q))
      subst hqp
      intro u hu huline
      rw [hinte_of_ne u hu]
      exact halone hon hhdr u hu huline
    · rw [update_of_ne hline] at hon
      intro u hu huline
      have hup : u ≠ p := by
        rintro rfl
        exact hline huline.symm
      rw [hinte_of_ne u hup]
      exact h.alone q hq hhdr hon u hu huline

end

variable [DecidableEq η] [DecidableEq α] {a : Act η α}

/-- One step of a run, with its result. -/
def exec (s : Sys η α) (a : Act η α) : Int × Sys η α :=
  let (ret, gpio) := s.gpio.call a
  (ret, { gpio := gpio, attached := s.record ret a })

theorem Owned.attach_cases (h : Owned s) (pin : Nat) (mode : UInt32) (hdr : Option η)
    (args : Option α) :
    (s.exec (.attach pin mode hdr args)).2 = s ∨
      pin < pinMaxNum ∧ (s.gpio.pinIrqHdrTab (gpioPinIndex pin)).pin = none ∧
        (s.exec (.attach pin mode hdr args)).2 =
          { gpio := s.gpio.setEntry (gpioPinIndex pin) ⟨some pin, mode.toUInt16, hdr, args⟩
            attached := update s.attached pin (some ⟨mode.toUInt16, hdr, args⟩) } := by
  unfold exec Gpio.call Gpio.hc32PinAttachIrq
  dsimp only
  split_ifs with hmax hsame hbusy
  · exact .inl rfl
  · -- what is attached is attached again
    obtain ⟨hpin, rfl, rfl, rfl⟩ := hsame
    obtain ⟨a, ha⟩ := isSome_iff_exists.mp (h.owner (gpioPinIndex pin) pin hpin).2
    have hentry := h.entry pin a ha
    have heq : s.attached pin = some ⟨(s.gpio.pinIrqHdrTab (gpioPinIndex pin)).mode.toUInt32.toUInt16,
        (s.gpio.pinIrqHdrTab (gpioPinIndex pin)).hdr,
        (s.gpio.pinIrqHdrTab (gpioPinIndex pin)).args⟩ := by
      rw [hentry, UInt16.toUInt16_toUInt32]
      exact ha
    left
    show Sys.mk s.gpio (update s.attached pin (some _)) = s
    rw [← heq, update_eq_self]
  · exact .inl rfl
  · exact .inr ⟨Nat.lt_of_not_le hmax, not_not.mp hbusy, rfl⟩

theorem Owned.detach_cases (h : Owned s) (pin : Nat) : (s.exec (.detach pin)).2 = s ∨
      pin < pinMaxNum ∧ (s.gpio.pinIrqHdrTab (gpioPinIndex pin)).pin ≠ none ∧
        (s.exec (.detach pin)).2 =
          { gpio := s.gpio.setEntry (gpioPinIndex pin) ⟨none, 0, none, none⟩
            attached := update s.attached pin none } := by
  unfold exec Gpio.call Gpio.hc32PinDetachIrq
  dsimp only
  split_ifs with hmax hfree
  · exact .inl rfl
  · have hnone : s.attached pin = none := by
      cases ha : s.attached pin with
      | none => rfl
      | some a =>
        rw [h.pin_eq ha] at hfree
        cases hfree
    left
    show Sys.mk s.gpio (update s.attached pin none) = s
    rw [← hnone, update_eq_self]
  · exact .inr ⟨Nat.lt_of_not_le hmax, hfree, rfl⟩

theorem irqEnable_cases (s : Sys η α) (pin enabled : Nat) :
    (s.exec (.irqEnable pin enabled)).2 = s ∨
      pin < pinMaxNum ∧ ∃ on : Bool, ∃ gpio, (s.exec (.irqEnable pin enabled)).2 = { s with gpio := gpio } ∧
        enabled = on.toNat ∧ (on = true → (s.gpio.pinIrqHdrTab (gpioPinIndex pin)).pin ≠ none) ∧
        gpio.pinIrqHdrTab = s.gpio.pinIrqHdrTab ∧
        (∀ i, i ≠ gpioPinIndex pin → gpio.extint i = s.gpio.extint i) ∧
        gpio.nvic = update s.gpio.nvic (gpioPinIndex pin) on ∧
        gpio.inte = update s.gpio.inte pin on := by
  unfold exec Gpio.call Gpio.hc32PinIrqEnable
  dsimp only
  split_ifs with hmax hone hfree
  · exact .inl rfl
  · exact .inl rfl
  · refine .inr ⟨by omega, true, _, rfl, hone, fun _ => hfree, rfl, fun i hi => ?_, rfl, rfl⟩
    exact update_of_ne hi _ _
  · have hzero : enabled = 0 := by omega
    exact .inr ⟨by omega, false, _, rfl, hzero, fun hon => absurd hon (by decide), rfl,
      fun _ _ => rfl, rfl, rfl⟩

theorem Owned.step (h : Owned s) (hown : s.Own a) : Owned (s.exec a).2 := by
  cases a with
  | attach pin mode hdr args =>
    rcases h.attach_cases pin mode hdr args with heq | ⟨hpin, hfree, heq⟩
    · rw [heq]
      exact h
    · rw [heq]
      exact h.setEntry (some ⟨mode.toUInt16, hdr, args⟩) (.inl hfree) rfl (hown hpin hfree)
  | detach pin =>
    rcases h.detach_cases pin with heq | ⟨hpin, -, heq⟩
    · rw [heq]
      exact h
    · rw [heq]
      exact h.setEntry none (hown hpin) ⟨rfl, rfl⟩ fun hhdr => absurd rfl hhdr
  | irqEnable pin enabled =>
    rcases irqEnable_cases s pin enabled with
      heq | ⟨hpin, on, gpio, heq, henabled, hfree, htab, -, hnvic, hinte⟩
    · rw [heq]
      exact h
    · rw [heq]
      have hle : enabled ≤ 1 := henabled ▸ Bool.toNat_le on
      rcases hown hpin hle with hnone | ⟨hpin', halone⟩
      · refine h.irqEnable on htab hnvic hinte (.inl hnone) fun hon => ?_
        exact absurd hnone (hfree hon)
      · refine h.irqEnable on htab hnvic hinte (.inr hpin') fun hon => halone ?_
        rw [henabled, hon]
        rfl

omit [DecidableEq η] [DecidableEq α] in
/-- A pin that is attached shares its line with no pin that is attached or may be. -/
theorem Owned.line_ne (h : Owned s) (hp : (s.attached p).isSome) (hpq : p ≠ q)
    (hpin : (s.gpio.pinIrqHdrTab (gpioPinIndex q)).pin = none ∨
      (s.gpio.pinIrqHdrTab (gpioPinIndex q)).pin = some q) : gpioPinIndex p ≠ gpioPinIndex q := by
  intro hline
  rw [← hline] at hpin
  rcases hpin with hnone | hsome
  · obtain ⟨a, ha⟩ := isSome_iff_exists.mp hp
    rw [h.pin_eq ha] at hnone
    cases hnone
  · exact hpq (h.eq_of_line hp hsome)

/-- What a call changes lies on the line of its pin. -/
theorem Owned.respects (h : Owned s) (hown : s.Own a) :
    Respects s a (s.exec a).1 (s.exec a).2 := by
  have hsame : ∀ {t : Sys η α} {ret : Int}, t = s → Respects s a ret t := by
    rintro t ret rfl
    exact ⟨fun p _ _ => ⟨rfl, rfl, rfl, rfl, rfl⟩, fun p _ _ _ => .inr rfl⟩
  -- a slot is written where no other pin is attached
  have hset : ∀ {t : Sys η α} {entry : RtPinIrqHdr η α} {attached : Option (Attached η α)},
      t = { gpio := s.gpio.setEntry (gpioPinIndex a.pin) entry
            attached := update s.attached a.pin attached } →
      ((s.gpio.pinIrqHdrTab (gpioPinIndex a.pin)).pin = none ∨
        (s.gpio.pinIrqHdrTab (gpioPinIndex a.pin)).pin = some a.pin) → ∀ ret, Respects s a ret t := by
    rintro t entry attached rfl hpin ret
    refine ⟨fun p hp hattached => ⟨?_, ?_, rfl, rfl, rfl⟩, fun p hp hline hattached => ?_⟩
    · exact update_of_ne hp _ _
    · exact update_of_ne (h.line_ne hattached hp hpin) _ _
    · exact absurd hline (h.line_ne hattached hp hpin)
  cases a with
  | attach pin mode hdr args =>
    rcases h.attach_cases pin mode hdr args with heq | ⟨hpin, hfree, heq⟩
    · exact hsame heq
    · exact hset heq (.inl hfree) _
  | detach pin =>
    rcases h.detach_cases pin with heq | ⟨hpin, -, heq⟩
    · exact hsame heq
    · exact hset heq (hown hpin) _
  | irqEnable pin enabled =>
    rcases irqEnable_cases s pin enabled with
      heq | ⟨hpin, on, gpio, heq, henabled, -, htab, hextint, hnvic, hinte⟩
    · exact hsame heq
    · have hpin' := (hown hpin (henabled ▸ Bool.toNat_le on)).imp_right And.left
      refine ⟨fun p hp hattached => ?_, fun p hp hline hattached => ?_⟩
      · have hline := h.line_ne hattached hp hpin'
        rw [heq]
        constructor
        · rfl
        · exact congrFun htab _
        · exact hextint _ hline
        · dsimp only
          rw [hnvic]
          exact update_of_ne hline _ _
        · dsimp only
          rw [hinte]
          exact update_of_ne hp _ _
      · exact absurd hline (h.line_ne hattached hp hpin')

omit [DecidableEq η] [DecidableEq α] in
theorem Initial.owned (h : Initial s) : Owned s := by
  refine ⟨fun p a ha => ?_, fun i p hp => ?_, fun i hi => ?_, fun p hp => ?_⟩
  · rw [h.attached] at ha
    cases ha
  · rw [h.gpio.tab] at hp
    cases hp
  · rw [h.gpio.tab]
  · rw [h.gpio.tab] at hp
    cases hp

/-- In a run of calls for the pins that are attached, an edge of a pin runs what is attached for it,
and a call leaves alone what is attached for other pins. -/
theorem reachable_irqsKept (s : Sys η α)
    (h : Reachable Initial (Within (fun s a t => (s.exec a).2 = t) Own) s) :
    Kept s ∧ ∀ a, s.Own a → Respects s a (s.exec a).1 (s.exec a).2 := by
  have howned : Owned s := by
    refine h.invariant (fun s h₀ => h₀.owned) ?_
    rintro s a t - ih ⟨hown, rfl⟩
    exact ih.step hown
  exact ⟨howned.kept, fun a hown => howned.respects hown⟩

/-- Nothing is attached; handlers and arguments are numbers. -/
def idle : Sys Nat Nat where
  gpio :=
    { pinIrqHdrTab := fun _ => { pin := none, mode := 0, hdr := none, args := none }
      extint := fun _ => .falling
      nvic := fun _ => false
      inte := fun _ => false }
  attached := fun _ => none

theorem idle_initial : Initial idle :=
  ⟨⟨fun _ => rfl, fun _ => rfl, fun _ => rfl⟩, fun _ => rfl⟩

/-- Pin 3 of port A has a handler. -/
def attached3 : Sys Nat Nat := (idle.exec (.attach 3 0 (some 7) none)).2

/-- The handler runs at each edge; pin 3 of port B cannot be attached. -/
theorem reachable_irqsKept_edge : ∃ s : Sys Nat Nat, s.gpio.interrupt 3 = some (7, none) ∧
    (s.exec (.attach 19 0 (some 8) none)).1 = rtEbusy ∧ Kept s ∧
      ∀ a, s.Own a → Respects s a (s.exec a).1 (s.exec a).2 := by
  have hattach : idle.Own (.attach 3 0 (some 7) none) := fun _ _ _ hnvic => absurd hnvic (by decide)
  have henable : attached3.Own (.irqEnable 3 1) := fun _ _ => .inr ⟨rfl, fun _ _ _ _ _ => rfl⟩
  refine ⟨(attached3.exec (.irqEnable 3 1)).2, by decide, by decide, reachable_irqsKept _ ?_⟩
  exact (Reachable.next (.start idle_initial) ⟨hattach, rfl⟩).next ⟨henable, rfl⟩

/-- Pin 3 of port B is not attached. To detach it removes what is attached for pin 3 of port A, and
to disable it stops the edges of that pin. Where pin 3 of port A is detached while it is enabled,
its edges run what is attached for pin 3 of port B afterwards. -/
theorem sharedLine_not_kept :
    (∃ s : Sys Nat Nat, Reachable Initial (fun s a t => (s.exec a).2 = t) s ∧
      (s.attached 3).isSome ∧ (s.exec (.detach 19)).1 = rtEok ∧
      ((s.exec (.detach 19)).2.gpio.pinIrqHdrTab 3).pin = none ∧
      ¬ Respects s (.detach 19) (s.exec (.detach 19)).1 (s.exec (.detach 19)).2) ∧
    (∃ s : Sys Nat Nat, Reachable Initial (fun s a t => (s.exec a).2 = t) s ∧
      s.gpio.interrupt 3 = some (7, none) ∧ (s.exec (.irqEnable 19 0)).2.gpio.interrupt 3 = none ∧
      ¬ Respects s (.irqEnable 19 0) (s.exec (.irqEnable 19 0)).1 (s.exec (.irqEnable 19 0)).2) ∧
    ∃ s : Sys Nat Nat, Reachable Initial (fun s a t => (s.exec a).2 = t) s ∧ s.attached 3 = none ∧
      s.gpio.interrupt 3 = some (8, none) ∧ ¬ Kept s := by
  have hattached : Reachable Initial (fun s a t => (s.exec a).2 = t) attached3 :=
    .next (.start idle_initial) (a := .attach 3 0 (some 7) none) rfl
  have henabled := hattached.next (a := .irqEnable 3 1) rfl
  refine ⟨⟨attached3, hattached, rfl, by decide, by decide, fun hrespects => ?_⟩,
    ⟨_, henabled, by decide, by decide, fun hrespects => ?_⟩, ?_⟩
  · have hsame := (hrespects.others 3 (by decide) rfl).entry
    exact absurd hsame (by decide)
  · have hsame := (hrespects.others 3 (by decide) rfl).nvic
    exact absurd hsame (by decide)
  · refine ⟨_, (henabled.next (a := .detach 3) rfl).next (a := .attach 19 0 (some 8) none) rfl,
      rfl, by decide, fun hkept => ?_⟩
    obtain ⟨a, ha, -⟩ := hkept.runs 3 (8, none) (by decide)
    cases ha

end Sys

end RtKernel.PinIrq

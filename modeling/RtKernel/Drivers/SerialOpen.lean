import RtKernel.Core.Run
import Mathlib.Data.List.Nodup

/-!
# Opening and closing a serial device

The first open that asks for a mode of reception or transmission allocates a buffer
for it and enables the interrupt or the DMA; the last close releases the buffers by the
flags of the last open. The two directions are one definition with the parameters
of each.
-/

namespace RtKernel.Serial

open Function List Option

/-- `flags & mask`, as a condition. -/
def hasFlag (flags mask : BitVec 16) : Bool := flags &&& mask != 0#16

/-- `RT_DEVICE_FLAG_STANDALONE`, which is also the bit of `RT_DEVICE_OFLAG_OPEN`. -/
def flagStandalone : BitVec 16 := 0x008#16
/-- `RT_DEVICE_FLAG_ACTIVATED`. -/
def flagActivated : BitVec 16 := 0x010#16
/-- `RT_DEVICE_FLAG_STREAM`. -/
def flagStream : BitVec 16 := 0x040#16

/-- The two directions of a serial device. -/
inductive Direction
  | rx
  | tx
  deriving DecidableEq

/-- How a direction is served when it is not polled. -/
inductive Mode
  | int
  | dma
  deriving DecidableEq

/-- `RT_DEVICE_FLAG_INT_RX`, `RT_DEVICE_FLAG_DMA_RX`, `RT_DEVICE_FLAG_INT_TX` and
`RT_DEVICE_FLAG_DMA_TX`. -/
def modeFlag : Direction → Mode → BitVec 16
  | .rx, .int => 0x100#16
  | .rx, .dma => 0x200#16
  | .tx, .int => 0x400#16
  | .tx, .dma => 0x800#16

/-- The mode in which reads and writes find a direction: interrupts go before DMA. -/
def modeOf (flags : BitVec 16) (d : Direction) : Option Mode :=
  if hasFlag flags (modeFlag d .int) = true then some .int
  else if hasFlag flags (modeFlag d .dma) = true then some .dma
  else none

/-- The structures that serial_rx and serial_tx point to. -/
inductive Buffer
  | rxFifo
  | rxDma
  | txFifo
  | txDma
  deriving DecidableEq

/-- The direction a structure belongs to. -/
def Buffer.direction : Buffer → Direction
  | .rxFifo | .rxDma => .rx
  | .txFifo | .txDma => .tx

/-- The structure that a mode reads. -/
def bufferOf (bufsz : Nat) : Direction → Mode → Buffer
  | .rx, .int => .rxFifo
  | .rx, .dma => if bufsz = 0 then .rxDma else .rxFifo
  | .tx, .int => .txFifo
  | .tx, .dma => .txDma

/-- `struct rt_serial_device`, with the blocks that it has been given, and those that it has
given back. -/
structure RtSerialDevice where
  flag : BitVec 16
  openFlag : BitVec 16
  refCount : Nat
  bufsz : Nat
  /-- serial_rx and serial_tx, as numbers of blocks. -/
  serial : Direction → Option Nat
  blocks : List Buffer
  freed : List Nat
  /-- The interrupts and the DMA that are enabled. -/
  enabled : Direction → Mode → Bool

/-- What opening and closing return. -/
inductive Result
  | eok
  | error
  | eio
  | ebusy
  deriving DecidableEq

/-- `RT_DEVICE_CTRL_SET_INT` and `RT_DEVICE_CTRL_CONFIG` enable, `RT_DEVICE_CTRL_CLR_INT` disables. -/
def setEnabled (enabled : Direction → Mode → Bool) (d : Direction) (m : Mode) (b : Bool) :
    Direction → Mode → Bool :=
  update enabled d (update (enabled d) m b)

namespace RtSerialDevice

/-- `rt_serial_init`, where the low level configuration succeeds or not. -/
def rtSerialInit (serial : RtSerialDevice) : RtSerialDevice :=
  { serial with serial := fun _ => none }

/-- One direction in `rt_serial_open`. -/
def openDirection (serial : RtSerialDevice) (oflag : BitVec 16) (d : Direction) : RtSerialDevice :=
  let allocate (m : Mode) : RtSerialDevice :=
    { serial with
      serial := update serial.serial d (some serial.blocks.length)
      blocks := serial.blocks ++ [bufferOf serial.bufsz d m]
      openFlag := serial.openFlag ||| modeFlag d m }
  if serial.serial d = none then
    if hasFlag oflag (modeFlag d .int) = true then
      { allocate .int with enabled := setEnabled serial.enabled d .int true }
    else if hasFlag oflag (modeFlag d .dma) = true then
      -- without a buffer each read starts the DMA by itself
      if d = .rx ∧ serial.bufsz = 0 then allocate .dma
      else { allocate .dma with enabled := setEnabled serial.enabled d .dma true }
    else { serial with serial := update serial.serial d none }
  else if hasFlag oflag (modeFlag d .int) = true then
    { serial with openFlag := serial.openFlag ||| modeFlag d .int }
  else if hasFlag oflag (modeFlag d .dma) = true then
    { serial with openFlag := serial.openFlag ||| modeFlag d .dma }
  else serial

/-- The modes that an open asks for are those of the device. -/
def admits (flag oflag : BitVec 16) : Bool :=
  !(hasFlag oflag (modeFlag .rx .dma) && !hasFlag flag (modeFlag .rx .dma)) &&
  !(hasFlag oflag (modeFlag .tx .dma) && !hasFlag flag (modeFlag .tx .dma)) &&
  !(hasFlag oflag (modeFlag .rx .int) && !hasFlag flag (modeFlag .rx .int)) &&
  !(hasFlag oflag (modeFlag .tx .int) && !hasFlag flag (modeFlag .tx .int))

/-- `rt_serial_open`. -/
def rtSerialOpen (serial : RtSerialDevice) (oflag : BitVec 16) : RtSerialDevice × Result :=
  if admits serial.flag oflag = true then
    let streamFlag :=
      if hasFlag oflag flagStream = true ∨ hasFlag serial.openFlag flagStream = true then flagStream
      else 0#16
    let serial := { serial with openFlag := oflag &&& 0xff#16 }
    let serial := (serial.openDirection oflag .rx).openDirection oflag .tx
    ({ serial with openFlag := serial.openFlag ||| streamFlag }, .eok)
  else (serial, .eio)

/-- One mode in `rt_serial_close`; a buffer has to be there. -/
def closeMode (serial : RtSerialDevice) (d : Direction) (m : Mode) : Option RtSerialDevice :=
  (serial.serial d).map fun p =>
    { serial with
      enabled := setEnabled serial.enabled d m false
      openFlag := serial.openFlag &&& ~~~modeFlag d m
      freed := serial.freed ++ [p]
      serial := update serial.serial d none }

/-- One direction in `rt_serial_close`. -/
def closeDirection (serial : RtSerialDevice) (d : Direction) : Option RtSerialDevice :=
  match modeOf serial.openFlag d with
  | some m => serial.closeMode d m
  | none => some serial

/-- `rt_serial_close`. -/
def rtSerialClose (serial : RtSerialDevice) : Option RtSerialDevice :=
  if serial.refCount > 1 then some serial
  else
    (serial.closeDirection .rx).bind fun serial =>
      (serial.closeDirection .tx).map fun serial =>
        { serial with flag := serial.flag &&& ~~~flagActivated }

/-- `rt_device_open`, where `configured` says whether the low level configuration succeeds. There is
no result where the reference counter overflows. -/
def rtDeviceOpen (serial : RtSerialDevice) (oflag : BitVec 16) (configured : Bool) :
    Option (RtSerialDevice × Result) :=
  let inactive := hasFlag serial.flag flagActivated = false
  let serial := if inactive then serial.rtSerialInit else serial
  if inactive ∧ configured = false then some (serial, .error)
  else
    let serial := if inactive then { serial with flag := serial.flag ||| flagActivated } else serial
    if hasFlag serial.flag flagStandalone = true ∧ hasFlag serial.openFlag flagStandalone = true then
      some (serial, .ebusy)
    else
      match serial.rtSerialOpen oflag with
      | (serial, .eok) =>
        if (serial.refCount + 1) % 2 ^ 8 = 0 then none
        else
          some ({ serial with
            openFlag := serial.openFlag ||| flagStandalone
            refCount := serial.refCount + 1 }, .eok)
      | (serial, result) => some (serial, result)

/-- `rt_device_close`. -/
def rtDeviceClose (serial : RtSerialDevice) : Option (RtSerialDevice × Result) :=
  if serial.refCount = 0 then some (serial, .error)
  else
    let serial := { serial with refCount := serial.refCount - 1 }
    if serial.refCount ≠ 0 then some (serial, .eok)
    else serial.rtSerialClose.map fun serial => ({ serial with openFlag := 0#16 }, .eok)

end RtSerialDevice

@[simp] theorem hasFlag_or (a b m : BitVec 16) : hasFlag (a ||| b) m = (hasFlag a m || hasFlag b m) := by
  rw [Bool.eq_iff_iff, Bool.or_eq_true]
  simp only [hasFlag, BitVec.and_or_distrib_right, bne_iff_ne, ne_eq, BitVec.or_eq_zero_iff,
    Classical.not_and_iff_not_or_not]

@[simp] theorem hasFlag_and (a b m : BitVec 16) : hasFlag (a &&& b) m = hasFlag a (b &&& m) := by
  rw [hasFlag, hasFlag, BitVec.and_assoc]

@[simp] theorem hasFlag_zero (a : BitVec 16) : hasFlag a 0#16 = false := by
  simp [hasFlag]

/-- The flag of the mode that is asked for. -/
def modeBits (oflag : BitVec 16) (d : Direction) : BitVec 16 :=
  match modeOf oflag d with
  | some m => modeFlag d m
  | none => 0#16

/-- What opening leaves selects the modes that were asked for. -/
theorem modeOf_opened (oflag stream : BitVec 16) (hstream : stream = flagStream ∨ stream = 0#16)
    (d : Direction) :
    modeOf ((((oflag &&& 0xff#16) ||| modeBits oflag .rx) ||| modeBits oflag .tx) ||| stream |||
      flagStandalone) d = modeOf oflag d := by
  have hbits : ∀ d d' m, hasFlag (modeBits oflag d) (modeFlag d' m) =
      (decide (d = d') && decide (modeOf oflag d = some m)) := by
    intro d d' m
    unfold modeBits
    cases modeOf oflag d with
    | none => cases d <;> cases d' <;> cases m <;> decide
    | some m' => cases d <;> cases d' <;> cases m <;> cases m' <;> decide
  have hlow : ∀ m, 0xff#16 &&& modeFlag d m = 0#16 := by
    intro m
    cases d <;> cases m <;> rfl
  have hother : ∀ m, hasFlag stream (modeFlag d m) = false := by
    intro m
    rcases hstream with rfl | rfl <;> cases d <;> cases m <;> rfl
  have hopen : ∀ m, hasFlag flagStandalone (modeFlag d m) = false := by
    intro m
    cases d <;> cases m <;> rfl
  have hboth : ∀ m, hasFlag ((((oflag &&& 0xff#16) ||| modeBits oflag .rx) ||| modeBits oflag .tx) |||
      stream ||| flagStandalone) (modeFlag d m) = decide (modeOf oflag d = some m) := by
    intro m
    simp only [hasFlag_or, hasFlag_and, hlow, hasFlag_zero, hbits, hother, hopen]
    cases d <;> simp
  rw [modeOf, hboth, hboth]
  cases hmode : modeOf oflag d with
  | none => rfl
  | some m => cases m <;> rfl

@[simp] theorem modeOf_zero (d : Direction) : modeOf 0#16 d = none := by
  cases d <;> decide

/-- Clearing the flag of a mode concerns its direction only. -/
theorem modeOf_clear {d d' : Direction} (h : d' ≠ d) (flags : BitVec 16) (m : Mode) :
    modeOf (flags &&& ~~~modeFlag d m) d' = modeOf flags d' := by
  have hkeep : ∀ m', ~~~modeFlag d m &&& modeFlag d' m' = modeFlag d' m' := by
    intro m'
    cases d <;> cases d' <;> cases m <;> cases m' <;> first | rfl | exact absurd rfl h
  simp only [modeOf, hasFlag_and, hkeep]

/-- A device with the number of opens that have succeeded, and of closes. -/
structure Session where
  device : RtSerialDevice
  opens : Nat
  closes : Nat

/-- What its users do. -/
inductive UserAct
  | openDevice (oflag : BitVec 16) (configured : Bool)
  | closeDevice

namespace Session

def exec (s : Session) : UserAct → Option Session
  | .openDevice oflag configured =>
    (s.device.rtDeviceOpen oflag configured).map fun (device, result) =>
      { s with device := device, opens := if result = .eok then s.opens + 1 else s.opens }
  | .closeDevice =>
    s.device.rtDeviceClose.map fun (device, result) =>
      { s with device := device, closes := if result = .eok then s.closes + 1 else s.closes }

/-- A device that has just been registered. -/
def Initial (s : Session) : Prop :=
  ∃ flag bufsz, s =
    { device :=
        { flag := flag, openFlag := 0#16, refCount := 0, bufsz := bufsz, serial := fun _ => none
          blocks := [], freed := [], enabled := fun _ _ => false }
      opens := 0
      closes := 0 }

end Session

namespace RtSerialDevice

variable (s : RtSerialDevice)

/-- The structure that the pointer of a direction points to. -/
def pointed (d : Direction) : Option Buffer := (s.serial d).bind fun p => s.blocks[p]?

/-- The structure that the mode of these flags reads. -/
def reads (flags : BitVec 16) (d : Direction) : Option Buffer :=
  (modeOf flags d).map (bufferOf s.bufsz d)

/-- The block of a direction is allocated. -/
def Allocated (d : Direction) (p : Nat) : Prop :=
  (∃ b, s.blocks[p]? = some b ∧ b.direction = d) ∧ p ∉ s.freed

end RtSerialDevice

/-- Pointers are to what is allocated and read, and all is given back once it is closed. -/
structure Session.Orderly (s : Session) : Prop where
  allocated : ∀ d p, s.device.serial d = some p ↔ s.device.Allocated d p
  reads : ∀ d, s.device.pointed d = s.device.reads s.device.openFlag d
  once : s.device.freed.Nodup
  closed : s.opens = s.closes → (∀ d, s.device.serial d = none) ∧
    (∀ p < s.device.blocks.length, p ∈ s.device.freed) ∧ ∀ d m, s.device.enabled d m = false

namespace RtSerialDevice

variable {s t : RtSerialDevice} {oflag : BitVec 16} {d : Direction} {m : Mode}

/-- The pointers are to the blocks that have not been given back. -/
structure Keeps (s : RtSerialDevice) : Prop where
  allocated : ∀ d p, s.serial d = some p ↔ s.Allocated d p
  once : s.freed.Nodup
  given : ∀ p ∈ s.freed, p < s.blocks.length

theorem Keeps.lt (h : Keeps s) {p : Nat} (hp : s.serial d = some p) : p < s.blocks.length := by
  obtain ⟨⟨b, hb, -⟩, -⟩ := (h.allocated d p).mp hp
  exact (List.getElem?_eq_some_iff.mp hb).1

theorem bufferOf_direction (bufsz : Nat) (d : Direction) (m : Mode) :
    (bufferOf bufsz d m).direction = d := by
  cases d <;> cases m <;> simp only [bufferOf]
  · rfl
  · split <;> rfl
  · rfl
  · rfl

/-- What opening does in one direction. -/
structure Opens (oflag : BitVec 16) (d : Direction) (s t : RtSerialDevice) : Prop where
  keeps : Keeps s → Keeps t
  pointed : Keeps s → t.pointed d = if s.serial d = none then s.reads oflag d else s.pointed d
  others : ∀ d', d' ≠ d → t.serial d' = s.serial d'
  otherPointed : Keeps s → ∀ d', d' ≠ d → t.pointed d' = s.pointed d'
  openFlag : t.openFlag = s.openFlag ||| modeBits oflag d
  same : t.flag = s.flag ∧ t.refCount = s.refCount ∧ t.bufsz = s.bufsz

/-- A mode that is already there only sets its flag. -/
theorem opens_again (hm : modeOf oflag d = some m) (hp : s.serial d ≠ none) :
    Opens oflag d s { s with openFlag := s.openFlag ||| modeFlag d m } where
  keeps h := ⟨h.allocated, h.once, h.given⟩
  pointed _ := by rw [if_neg hp]; rfl
  others _ _ := rfl
  otherPointed _ _ _ := rfl
  openFlag := by rw [modeBits, hm]
  same := ⟨rfl, rfl, rfl⟩

theorem opens_none (hm : modeOf oflag d = none) : Opens oflag d s s where
  keeps h := h
  pointed _ := by
    split
    · rename_i hp
      rw [RtSerialDevice.pointed, hp, RtSerialDevice.reads, hm]
      rfl
    · rfl
  others _ _ := rfl
  otherPointed _ _ _ := rfl
  openFlag := by rw [modeBits, hm, BitVec.or_zero]
  same := ⟨rfl, rfl, rfl⟩

theorem opens_allocate (hm : modeOf oflag d = some m) (hp : s.serial d = none)
    (enabled : Direction → Mode → Bool) : Opens oflag d s
      { s with
        serial := update s.serial d (some s.blocks.length)
        blocks := s.blocks ++ [bufferOf s.bufsz d m]
        openFlag := s.openFlag ||| modeFlag d m
        enabled := enabled } where
  keeps h := by
    refine ⟨fun d' p => ?_, h.once, fun p hpfreed => ?_⟩
    · have hnew := bufferOf_direction s.bufsz d m
      have hfresh : s.blocks.length ∉ s.freed := fun hmem => absurd (h.given _ hmem) (Nat.lt_irrefl _)
      have hold := h.allocated d' p
      unfold Allocated at hold ⊢
      dsimp only
      by_cases hlt : p < s.blocks.length
      · rw [List.getElem?_append_left hlt]
        by_cases hd : d' = d
        · subst hd
          rw [← hold, hp, update_self]
          simp [Nat.ne_of_gt hlt]
        · rw [← hold, update_of_ne hd]
      · by_cases heq : p = s.blocks.length
        · subst heq
          rw [List.getElem?_concat_length]
          by_cases hd : d' = d
          · subst hd
            simp [hnew, hfresh]
          · rw [update_of_ne hd]
            constructor
            · exact fun hsome => absurd (h.lt hsome) (Nat.lt_irrefl _)
            · rintro ⟨⟨b, hb, hdir⟩, -⟩
              rw [some.inj hb.symm, hnew] at hdir
              exact absurd hdir.symm hd
        · rw [List.getElem?_eq_none (by rw [length_append, length_singleton]; omega)]
          constructor
          · intro hsome
            by_cases hd : d' = d
            · subst hd
              rw [update_self] at hsome
              exact absurd (some.inj hsome).symm heq
            · rw [update_of_ne hd] at hsome
              exact absurd (h.lt hsome) hlt
          · rintro ⟨⟨b, hb, -⟩, -⟩
            exact absurd hb (by simp)
    · have hlt := h.given p hpfreed
      rw [length_append]
      omega
  pointed _ := by
    rw [if_pos hp, RtSerialDevice.pointed, RtSerialDevice.reads, hm]
    simp
  others d' hd := update_of_ne hd _ _
  otherPointed h d' hd := by
    unfold RtSerialDevice.pointed
    dsimp only
    rw [update_of_ne hd]
    cases hsome : s.serial d' with
    | none => rfl
    | some p => rw [bind_some, bind_some, List.getElem?_append_left (h.lt hsome)]
  openFlag := by rw [modeBits, hm]
  same := ⟨rfl, rfl, rfl⟩

theorem openDirection_opens : Opens oflag d s (s.openDirection oflag d) := by
  unfold openDirection
  by_cases hp : s.serial d = none
  · rw [if_pos hp]
    by_cases hint : hasFlag oflag (modeFlag d .int) = true
    · rw [if_pos hint]
      have hm : modeOf oflag d = some .int := by rw [modeOf, if_pos hint]
      exact opens_allocate hm hp _
    · rw [if_neg hint]
      by_cases hdma : hasFlag oflag (modeFlag d .dma) = true
      · rw [if_pos hdma]
        have hm : modeOf oflag d = some .dma := by rw [modeOf, if_neg hint, if_pos hdma]
        by_cases hzero : d = .rx ∧ s.bufsz = 0
        · rw [if_pos hzero]
          exact opens_allocate hm hp _
        · rw [if_neg hzero]
          exact opens_allocate hm hp _
      · have hm : modeOf oflag d = none := by rw [modeOf, if_neg hint, if_neg hdma]
        rw [if_neg hdma, ← hp, update_eq_self]
        exact opens_none hm
  · rw [if_neg hp]
    by_cases hint : hasFlag oflag (modeFlag d .int) = true
    · have hm : modeOf oflag d = some .int := by rw [modeOf, if_pos hint]
      rw [if_pos hint]
      exact opens_again hm hp
    · rw [if_neg hint]
      by_cases hdma : hasFlag oflag (modeFlag d .dma) = true
      · have hm : modeOf oflag d = some .dma := by rw [modeOf, if_neg hint, if_pos hdma]
        rw [if_pos hdma]
        exact opens_again hm hp
      · have hm : modeOf oflag d = none := by rw [modeOf, if_neg hint, if_neg hdma]
        rw [if_neg hdma]
        exact opens_none hm

/-- What closing does in one direction. -/
structure Closes (d : Direction) (s t : RtSerialDevice) : Prop where
  keeps : Keeps t
  closed : t.serial d = none
  others : ∀ d', d' ≠ d → t.serial d' = s.serial d' ∧ modeOf t.openFlag d' = modeOf s.openFlag d' ∧
    t.enabled d' = s.enabled d'
  enabled : ∀ m, t.enabled d m = true ↔ s.enabled d m = true ∧ modeOf s.openFlag d ≠ some m
  same : t.blocks = s.blocks ∧ t.bufsz = s.bufsz ∧ t.refCount = s.refCount ∧ t.flag = s.flag

/-- A direction is closed where its pointer is to what the mode of the flags reads. -/
theorem closeDirection_closes (h : Keeps s) (hreads : s.pointed d = s.reads s.openFlag d) :
    ∃ t, s.closeDirection d = some t ∧ Closes d s t := by
  unfold closeDirection
  cases hm : modeOf s.openFlag d with
  | none =>
    refine ⟨s, rfl, h, ?_, fun _ _ => ⟨rfl, rfl, rfl⟩, ?_, rfl, rfl, rfl, rfl⟩
    · rw [RtSerialDevice.pointed, RtSerialDevice.reads, hm, map_none,
        bind_eq_none_iff] at hreads
      cases hp : s.serial d with
      | none => rfl
      | some p => exact absurd (h.lt hp) (Nat.not_lt.mpr (List.getElem?_eq_none_iff.mp (hreads p hp)))
    · intro m
      rw [hm]
      exact ⟨fun hen => ⟨hen, (some_ne_none m).symm⟩, And.left⟩
  | some m =>
    have hsome : ∃ p, s.serial d = some p := by
      rw [RtSerialDevice.pointed, RtSerialDevice.reads, hm, map_some,
        bind_eq_some_iff] at hreads
      obtain ⟨p, hp, -⟩ := hreads
      exact ⟨p, hp⟩
    obtain ⟨p, hp⟩ := hsome
    have hfree : p ∉ s.freed := ((h.allocated d p).mp hp).2
    have hdir := ((h.allocated d p).mp hp).1
    have hlt := h.lt hp
    have hclose : s.closeMode d m = some
        { s with
          enabled := setEnabled s.enabled d m false
          openFlag := s.openFlag &&& ~~~modeFlag d m
          freed := s.freed ++ [p]
          serial := update s.serial d none } := by
      unfold closeMode
      rw [hp, map_some]
    refine ⟨_, hclose, ⟨?_, ?_, ?_⟩, update_self _ _ _, ?_, ?_, rfl, rfl, rfl, rfl⟩
    · intro d' p'
      have hold := h.allocated d' p'
      unfold Allocated at hold ⊢
      dsimp only
      rw [mem_append, mem_singleton, not_or, ← and_assoc, ← hold]
      by_cases hd : d' = d
      · subst hd
        rw [update_self, hp]
        constructor
        · exact fun hno => absurd hno (some_ne_none _).symm
        · exact fun ⟨heq, hne⟩ => absurd (some.inj heq).symm hne
      · rw [update_of_ne hd]
        refine ⟨fun heq => ⟨heq, ?_⟩, And.left⟩
        rintro rfl
        obtain ⟨b, hb, hbdir⟩ := (hold.mp heq).1
        obtain ⟨b', hb', hbdir'⟩ := hdir
        rw [hb] at hb'
        cases hb'
        exact hd (hbdir.symm.trans hbdir')
    · exact List.Nodup.append h.once (nodup_singleton p) (by simpa using hfree)
    · intro p' hp'
      rcases mem_append.mp hp' with hp' | hp'
      · exact h.given p' hp'
      · rw [mem_singleton.mp hp']
        exact hlt
    · intro d' hd
      exact ⟨update_of_ne hd _ _, modeOf_clear hd _ m, update_of_ne hd _ _⟩
    · intro m'
      dsimp only [setEnabled]
      rw [update_self, hm]
      by_cases hm' : m' = m
      · subst hm'
        simp
      · rw [update_of_ne hm']
        simp [Ne.symm hm']

/-- Opening selects the modes that are asked for and allocates what is missing. -/
theorem rtSerialOpen_opens (h : Keeps s) (hadmits : admits s.flag oflag = true) :
    ∃ t, s.rtSerialOpen oflag = (t, .eok) ∧ Keeps t ∧
      (∀ d, t.pointed d = if s.serial d = none then s.reads oflag d else s.pointed d) ∧
      (∀ d, modeOf (t.openFlag ||| flagStandalone) d = modeOf oflag d) ∧
      t.flag = s.flag ∧ t.refCount = s.refCount ∧ t.bufsz = s.bufsz := by
  let s₀ : RtSerialDevice := { s with openFlag := oflag &&& 0xff#16 }
  have h₀ : Keeps s₀ := ⟨h.allocated, h.once, h.given⟩
  have hrx : Opens oflag .rx s₀ (s₀.openDirection oflag .rx) := openDirection_opens
  generalize hu : s₀.openDirection oflag .rx = u at hrx
  have htx : Opens oflag .tx u (u.openDirection oflag .tx) := openDirection_opens
  generalize hv : u.openDirection oflag .tx = v at htx
  obtain ⟨hflag, hcount, hsize⟩ := hrx.same
  obtain ⟨hflag', hcount', hsize'⟩ := htx.same
  have hu' := hrx.keeps h₀
  have hv' := htx.keeps hu'
  unfold rtSerialOpen
  rw [if_pos hadmits]
  simp only [show { s with openFlag := oflag &&& 0xff#16 } = s₀ from rfl, hu, hv]
  refine ⟨_, rfl, ⟨hv'.allocated, hv'.once, hv'.given⟩, ?_, ?_, hflag'.trans hflag,
    hcount'.trans hcount, hsize'.trans hsize⟩
  · intro d
    show v.pointed d = _
    cases d with
    | rx => rw [htx.otherPointed hu' .rx (by decide), hrx.pointed h₀]; rfl
    | tx =>
      rw [htx.pointed hu', hrx.others .tx (by decide), hrx.otherPointed h₀ .tx (by decide),
        RtSerialDevice.reads, hsize]
      rfl
  · intro d
    rw [htx.openFlag, hrx.openFlag]
    apply modeOf_opened
    split
    · exact .inl rfl
    · exact .inr rfl

/-- An open gets to the driver and is one that the device can do. -/
def Accepts (s : RtSerialDevice) (oflag : BitVec 16) : Prop :=
  admits s.flag oflag = true ∧
    ¬ (hasFlag s.flag flagStandalone = true ∧ hasFlag s.openFlag flagStandalone = true)

theorem admits_or (flag oflag : BitVec 16) :
    admits (flag ||| flagActivated) oflag = admits flag oflag := by
  have hno : ∀ d m, hasFlag flagActivated (modeFlag d m) = false := by
    intro d m
    cases d <;> cases m <;> rfl
  simp only [admits, hasFlag_or, hno, Bool.or_false]

/-- What an open has done when it returns. -/
inductive Opened (oflag : BitVec 16) (s : RtSerialDevice) : RtSerialDevice → Result → Prop
  | refused {flag result} (hresult : result ≠ .eok)
      (hactive : hasFlag flag flagActivated = false → hasFlag s.flag flagActivated = false)
      (hwhy : (∀ d, s.serial d = none) ∨ ¬ s.Accepts oflag) :
      Opened oflag s { s with flag := flag } result
  | opened {flag t} (haccepts : s.Accepts oflag) (hactive : hasFlag flag flagActivated = true)
      (hopen : ({ s with flag := flag } : RtSerialDevice).rtSerialOpen oflag = (t, .eok))
      (hadmits : admits flag oflag = true) :
      Opened oflag s
        { t with openFlag := t.openFlag ||| flagStandalone, refCount := t.refCount + 1 } .eok

/-- The flag of an active device is the only thing that is changed before the driver is called. -/
theorem rtDeviceOpen_opened {configured : Bool} {result : Result}
    (hinactive : hasFlag s.flag flagActivated = false → ∀ d, s.serial d = none)
    (h : s.rtDeviceOpen oflag configured = some (t, result)) : Opened oflag s t result := by
  have hinit : (if hasFlag s.flag flagActivated = false then s.rtSerialInit else s) = s := by
    split
    · rename_i hoff
      have hnone : s.serial = fun _ => none := funext (hinactive hoff)
      rw [rtSerialInit, ← hnone]
    · rfl
  unfold rtDeviceOpen at h
  simp only [hinit] at h
  by_cases hfail : hasFlag s.flag flagActivated = false ∧ configured = false
  · rw [if_pos hfail] at h
    cases h
    exact .refused (by decide) id (.inl (hinactive hfail.1))
  · rw [if_neg hfail] at h
    have hflags : ∃ flag, (if hasFlag s.flag flagActivated = false then
          { s with flag := s.flag ||| flagActivated } else s) = { s with flag := flag } ∧
        hasFlag flag flagActivated = true ∧ hasFlag flag flagStandalone = hasFlag s.flag flagStandalone ∧
        admits flag oflag = admits s.flag oflag := by
      split
      · refine ⟨_, rfl, ?_, ?_, admits_or s.flag oflag⟩
        · rw [hasFlag_or, show hasFlag flagActivated flagActivated = true from rfl, Bool.or_true]
        · rw [hasFlag_or, show hasFlag flagActivated flagStandalone = false from rfl, Bool.or_false]
      · rename_i hon
        exact ⟨s.flag, rfl, by simpa using hon, rfl, rfl⟩
    obtain ⟨flag, hset, hactive, hstandalone, hadmits⟩ := hflags
    have hon : hasFlag flag flagActivated = false → hasFlag s.flag flagActivated = false :=
      fun hoff => by rw [hactive] at hoff; exact absurd hoff (by decide)
    simp only [hset] at h
    by_cases hbusy : hasFlag flag flagStandalone = true ∧ hasFlag s.openFlag flagStandalone = true
    · rw [if_pos hbusy] at h
      cases h
      rw [hstandalone] at hbusy
      exact .refused (by decide) hon (.inr fun haccepts => haccepts.2 hbusy)
    · rw [if_neg hbusy] at h
      by_cases hadm : admits flag oflag = true
      · have hopen : ∃ u, ({ s with flag := flag } : RtSerialDevice).rtSerialOpen oflag = (u, .eok) := by
          unfold rtSerialOpen
          rw [if_pos hadm]
          exact ⟨_, rfl⟩
        obtain ⟨u, hopen⟩ := hopen
        rw [hopen] at h
        obtain ⟨-, h⟩ := ite_none_left_eq_some.mp h
        cases h
        rw [hstandalone] at hbusy
        exact .opened ⟨hadmits ▸ hadm, hbusy⟩ hactive hopen hadm
      · have hopen : ({ s with flag := flag } : RtSerialDevice).rtSerialOpen oflag =
            ({ s with flag := flag }, .eio) := by
          unfold rtSerialOpen
          rw [if_neg hadm]
        rw [hopen] at h
        cases h
        rw [hadmits] at hadm
        exact .refused (by decide) hon (.inr fun haccepts => hadm haccepts.1)

theorem rtSerialClose_closes (h : Keeps s) (hreads : ∀ d, s.pointed d = s.reads s.openFlag d)
    (hcount : s.refCount = 0) : ∃ t, s.rtSerialClose = some t ∧ Keeps t ∧ (∀ d, t.serial d = none) ∧
      (∀ d m, t.enabled d m = true ↔ s.enabled d m = true ∧ modeOf s.openFlag d ≠ some m) ∧
      t.blocks = s.blocks ∧ t.refCount = 0 := by
  obtain ⟨u, hu, hrx⟩ := closeDirection_closes (d := .rx) h (hreads .rx)
  obtain ⟨hserial, hmode, henabled⟩ := hrx.others .tx (by decide)
  obtain ⟨hblocks, hsize, hrefs, hflag⟩ := hrx.same
  have htxreads : u.pointed .tx = u.reads u.openFlag .tx := by
    have h := hreads .tx
    unfold RtSerialDevice.pointed RtSerialDevice.reads at h ⊢
    rw [hserial, hmode, hblocks, hsize]
    exact h
  obtain ⟨v, hv, htx⟩ := closeDirection_closes hrx.keeps htxreads
  obtain ⟨hserial', hmode', henabled'⟩ := htx.others .rx (by decide)
  obtain ⟨hblocks', hsize', hrefs', hflag'⟩ := htx.same
  unfold rtSerialClose
  rw [if_neg (by omega), hu, bind_some, hv]
  refine ⟨_, rfl, ⟨htx.keeps.allocated, htx.keeps.once, htx.keeps.given⟩, ?_, ?_,
    hblocks'.trans hblocks, hrefs'.trans (hrefs.trans hcount)⟩
  · intro d
    cases d with
    | rx => exact hserial'.trans hrx.closed
    | tx => exact htx.closed
  · intro d m
    cases d with
    | rx =>
      rw [henabled']
      exact hrx.enabled m
    | tx =>
      have hclosed := htx.enabled m
      rw [henabled, hmode] at hclosed
      exact hclosed

end RtSerialDevice

namespace Session

variable {s t : Session}

/-- An open keeps to the structures that are there, and the last close finds the modes enabled that
the flags name. -/
def Careful (s : Session) : UserAct → Prop
  | .openDevice oflag _ => s.device.Accepts oflag → ∀ d, s.device.serial d ≠ none →
      s.device.pointed d = s.device.reads oflag d
  | .closeDevice => s.device.refCount = 1 → ∀ d m, s.device.enabled d m = true →
      modeOf s.device.openFlag d = some m

instance decidableDirection {p : Direction → Prop} [DecidablePred p] : Decidable (∀ d, p d) :=
  decidable_of_iff (p .rx ∧ p .tx)
    ⟨fun h d => match d with
      | .rx => h.1
      | .tx => h.2, fun h => ⟨h .rx, h .tx⟩⟩

instance decidableMode {p : Mode → Prop} [DecidablePred p] : Decidable (∀ m, p m) :=
  decidable_of_iff (p .int ∧ p .dma)
    ⟨fun h m => match m with
      | .int => h.1
      | .dma => h.2, fun h => ⟨h .int, h .dma⟩⟩

instance (s : Session) (a : UserAct) : Decidable (Careful s a) :=
  match a with
  | .openDevice oflag _ =>
    inferInstanceAs (Decidable ((RtSerialDevice.admits s.device.flag oflag = true ∧
      ¬ (hasFlag s.device.flag flagStandalone = true ∧
        hasFlag s.device.openFlag flagStandalone = true)) → ∀ d, s.device.serial d ≠ none →
          s.device.pointed d = s.device.reads oflag d))
  | .closeDevice =>
    inferInstanceAs (Decidable (s.device.refCount = 1 → ∀ d m, s.device.enabled d m = true →
      modeOf s.device.openFlag d = some m))

/-- What holds between the calls. -/
structure Good (s : Session) : Prop where
  orderly : Orderly s
  given : ∀ p ∈ s.device.freed, p < s.device.blocks.length
  counted : s.opens = s.closes + s.device.refCount
  active : hasFlag s.device.flag flagActivated = false → s.device.refCount = 0

theorem Good.keeps (h : Good s) : s.device.Keeps := ⟨h.orderly.allocated, h.orderly.once, h.given⟩

theorem Initial.good (h : Initial s) : Good s := by
  obtain ⟨flag, bufsz, rfl⟩ := h
  refine ⟨⟨fun d p => ?_, fun d => ?_, nodup_nil, fun _ => ⟨fun _ => rfl, ?_, fun _ _ => rfl⟩⟩,
    ?_, rfl, fun _ => rfl⟩
  · constructor
    · exact fun hno => absurd hno (some_ne_none p).symm
    · rintro ⟨⟨b, hb, -⟩, -⟩
      exact absurd hb (by simp)
  · show none = (modeOf 0#16 d).map _
    rw [modeOf_zero, map_none]
  · exact fun p hp => absurd hp (Nat.not_lt_zero p)
  · exact fun p hp => absurd hp not_mem_nil

/-- An open keeps the order exactly when it is careful. -/
theorem Good.openDevice (h : Good s) {oflag : BitVec 16} {configured : Bool}
    (hexec : exec s (.openDevice oflag configured) = some t) :
    (Careful s (.openDevice oflag configured) → Good t) ∧
      (Orderly t → Careful s (.openDevice oflag configured)) := by
  have hkeeps := h.keeps
  have hcounted := h.counted
  have hinactive : hasFlag s.device.flag flagActivated = false → ∀ d, s.device.serial d = none := by
    intro hoff
    have hzero := h.active hoff
    exact (h.orderly.closed (by omega)).1
  obtain ⟨⟨device, result⟩, hopen, rfl⟩ := map_eq_some_iff.mp hexec
  cases RtSerialDevice.rtDeviceOpen_opened hinactive hopen with
  | refused hresult hactive hwhy =>
    dsimp only
    rw [if_neg hresult]
    refine ⟨fun _ => ⟨⟨h.orderly.allocated, h.orderly.reads, h.orderly.once, h.orderly.closed⟩, h.given,
      h.counted, fun hoff => h.active (hactive hoff)⟩, fun _ haccepts d hp => ?_⟩
    rcases hwhy with hnone | hrefused
    · exact absurd (hnone d) hp
    · exact absurd haccepts hrefused
  | @opened flag u haccepts hactive hserial hadmits =>
    have hkeeps₁ : ({ s.device with flag := flag } : RtSerialDevice).Keeps :=
      ⟨hkeeps.allocated, hkeeps.once, hkeeps.given⟩
    obtain ⟨u', hu', hkept, hpointed, hmode, hflag, hcount, hsize⟩ :=
      RtSerialDevice.rtSerialOpen_opens hkeeps₁ hadmits
    rw [hserial] at hu'
    cases hu'
    dsimp only
    have hreads : ∀ d, ({ u with openFlag := u.openFlag ||| flagStandalone, refCount := u.refCount + 1 } :
        RtSerialDevice).reads (u.openFlag ||| flagStandalone) d = s.device.reads oflag d := by
      intro d
      unfold RtSerialDevice.reads
      rw [hmode d]
      show (modeOf oflag d).map (bufferOf u.bufsz d) = _
      rw [hsize]
    have hpoint : ∀ d, u.pointed d =
        if s.device.serial d = none then s.device.reads oflag d else s.device.pointed d := hpointed
    constructor
    · intro hcareful
      refine ⟨⟨hkept.allocated, fun d => ?_, hkept.once, fun heq => ?_⟩, hkept.given, ?_, fun hoff => ?_⟩
      · rw [hreads d]
        refine (hpoint d).trans ?_
        by_cases hp : s.device.serial d = none
        · rw [if_pos hp]
        · rw [if_neg hp]
          exact hcareful haccepts d hp
      · have hno : s.opens + 1 = s.closes := heq
        omega
      · show s.opens + 1 = s.closes + (u.refCount + 1)
        rw [hcount]
        show s.opens + 1 = s.closes + (s.device.refCount + 1)
        omega
      · have hon : hasFlag u.flag flagActivated = false := hoff
        rw [hflag] at hon
        rw [hactive] at hon
        exact absurd hon (by decide)
    · intro horderly _ d hp
      have hread := horderly.reads d
      rw [hreads d] at hread
      have hsame := hpoint d
      rw [if_neg hp] at hsame
      exact hsame.symm.trans hread

/-- A close keeps the order exactly when it is careful. -/
theorem Good.closeDevice (h : Good s) (hexec : exec s .closeDevice = some t) :
    (Careful s .closeDevice → Good t) ∧ (Orderly t → Careful s .closeDevice) := by
  have hkeeps := h.keeps
  have hcounted := h.counted
  obtain ⟨⟨device, result⟩, hclose, rfl⟩ := map_eq_some_iff.mp hexec
  unfold RtSerialDevice.rtDeviceClose at hclose
  by_cases hzero : s.device.refCount = 0
  · rw [if_pos hzero] at hclose
    cases hclose
    exact ⟨fun _ => h, fun _ hone => by omega⟩
  · rw [if_neg hzero] at hclose
    by_cases hlast : s.device.refCount - 1 ≠ 0
    · rw [if_pos hlast] at hclose
      cases hclose
      dsimp only
      refine ⟨fun _ => ⟨⟨h.orderly.allocated, h.orderly.reads, h.orderly.once, fun heq => ?_⟩, h.given, ?_,
        fun hoff => absurd (h.active hoff) hzero⟩, fun _ hone => absurd (by rw [hone]) hlast⟩
      · have heq : s.opens = s.closes + 1 := heq
        omega
      · show s.opens = s.closes + 1 + (s.device.refCount - 1)
        omega
    · rw [if_neg hlast] at hclose
      have hcount : s.device.refCount - 1 = 0 := by omega
      have hreads : ∀ d, ({ s.device with refCount := s.device.refCount - 1 } : RtSerialDevice).pointed d =
          ({ s.device with refCount := s.device.refCount - 1 } : RtSerialDevice).reads
            s.device.openFlag d := h.orderly.reads
      have hkeeps₁ : ({ s.device with refCount := s.device.refCount - 1 } : RtSerialDevice).Keeps :=
        ⟨hkeeps.allocated, hkeeps.once, hkeeps.given⟩
      obtain ⟨u, hu, hkept, hnone, henabled, hblocks, hrefs⟩ :=
        RtSerialDevice.rtSerialClose_closes hkeeps₁ hreads hcount
      rw [hu] at hclose
      cases hclose
      dsimp only
      constructor
      · intro hcareful
        refine ⟨⟨hkept.allocated, fun d => ?_, hkept.once, fun _ => ⟨hnone, ?_, ?_⟩⟩, hkept.given, ?_,
          fun _ => hrefs⟩
        · show (u.serial d).bind _ = (modeOf 0#16 d).map _
          rw [hnone d, modeOf_zero, bind_none, map_none]
        · intro p hp
          by_contra hfree
          obtain ⟨b, hb⟩ : ∃ b, u.blocks[p]? = some b := ⟨_, List.getElem?_eq_getElem hp⟩
          have hpoint := (hkept.allocated b.direction p).mpr ⟨⟨b, hb, rfl⟩, hfree⟩
          rw [hnone] at hpoint
          exact some_ne_none p hpoint.symm
        · intro d m
          by_contra hon
          obtain ⟨hen, hmode⟩ := (henabled d m).mp (Bool.not_eq_false _ ▸ hon)
          exact hmode (hcareful (by omega) d m hen)
        · show s.opens = s.closes + 1 + u.refCount
          omega
      · intro horderly _ d m hen
        have heq : s.opens = s.closes + 1 := by omega
        have hoff := (horderly.closed heq).2.2 d m
        by_contra hmode
        have hon := (henabled d m).mpr ⟨hen, hmode⟩
        rw [hoff] at hon
        exact Bool.false_ne_true hon

/-- As long as the calls are careful, the pointers are to what is allocated and read, and all is
given back at the end; a call that is not careful breaks this. -/
theorem reachable_orderly_device
    (h : Reachable Initial (Within (fun s a t => exec s a = some t) Careful) s) :
    Orderly s ∧ ∀ a t, exec s a = some t → (Orderly t ↔ Careful s a) := by
  have hgood : Good s := by
    apply h.invariant (fun _ h₀ => h₀.good)
    rintro s a t - hs ⟨hcareful, hexec⟩
    cases a with
    | openDevice oflag configured => exact (hs.openDevice hexec).1 hcareful
    | closeDevice => exact (hs.closeDevice hexec).1 hcareful
  refine ⟨hgood.orderly, fun a t hexec => ?_⟩
  cases a with
  | openDevice oflag configured =>
    have hopen := hgood.openDevice hexec
    exact ⟨hopen.2, fun hcareful => (hopen.1 hcareful).orderly⟩
  | closeDevice =>
    have hclose := hgood.closeDevice hexec
    exact ⟨hclose.2, fun hcareful => (hclose.1 hcareful).orderly⟩

/-- A device with all modes and a buffer of 64 bytes that has just been registered. -/
def registered : Session where
  device :=
    { flag := 0xf03#16, openFlag := 0#16, refCount := 0, bufsz := 64, serial := fun _ => none
      blocks := [], freed := [], enabled := fun _ _ => false }
  opens := 0
  closes := 0

theorem registered_initial : Initial registered := ⟨0xf03#16, 64, rfl⟩

/-- Two opens with interrupts in both directions, and two closes. -/
theorem reachable_orderly_device_twice : ∃ s : Session,
    (s.opens = 2 ∧ s.closes = 2 ∧ s.device.freed = [0, 1]) ∧
      Orderly s ∧ ∀ a t, exec s a = some t → (Orderly t ↔ Careful s a) := by
  have hrun : ∃ s ∈ runWithin exec Careful registered [.openDevice 0x503#16 true,
      .openDevice 0x503#16 true, .closeDevice, .closeDevice],
      s.opens = 2 ∧ s.closes = 2 ∧ s.device.freed = [0, 1] := by decide +kernel
  obtain ⟨s, hs, htuple⟩ := Reachable.of_runWithin registered_initial hrun
  exact ⟨s, htuple, reachable_orderly_device hs⟩

/-- The second open does without the interrupt, and the last close forgets the buffer. -/
theorem forgotten_not_orderly :
    ¬ ∀ s, Reachable Initial (fun s a t => exec s a = some t) s → Orderly s := by
  intro hall
  have hrun : ∃ s ∈ runAll exec registered [.openDevice 0x103#16 true, .openDevice 0x003#16 true,
      .closeDevice, .closeDevice],
      s.opens = 2 ∧ s.closes = 2 ∧ s.device.serial .rx = some 0 := by decide +kernel
  obtain ⟨s, hs, hopens, hcloses, hserial⟩ := Reachable.of_runAll registered_initial hrun
  have horderly := hall s hs
  have hnone := (horderly.closed (hopens.trans hcloses.symm)).1 .rx
  rw [hserial] at hnone
  exact Option.some_ne_none 0 hnone

end Session

end RtKernel.Serial

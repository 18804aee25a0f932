import RtKernel.Drivers.I2cBus

/-!
# I2C by the bits

A master drives the two lines of a bus by hand. Every release of SCL is answered by the slave:
it may hold SCL low for longer than the timeout, and it gives SDA a level for as long as SCL
is high. Delays are left out, and a bus without `get_scl` has a slave that is never late.

Bytes and retries are counted on with the numbers of the source, so a result is an integer.
-/

open List Option

namespace RtKernel.Drivers.I2c

/-- What a slave does with a release of SCL. -/
structure Answer where
  late : Bool
  sda : Bool
  deriving DecidableEq, Repr

/-- A bus with all that was driven on it. `releases` counts the releases of SCL, `received` is
what came into the buffers of reads. -/
structure Bus where
  trace : List Drive
  releases : Nat
  received : List UInt8
  deriving DecidableEq, Repr

namespace Msg

/-- `addr1` of a ten bit address. -/
def addr1 (m : Msg) : UInt8 := (0xf0 : UInt8) ||| ((m.addr >>> 7) &&& 0x06).toUInt8

def addr2 (m : Msg) : UInt8 := (m.addr &&& 0xff).toUInt8

/-- `addr1` of a seven bit address. -/
def addr7 (m : Msg) : UInt8 :=
  if m.rd then (m.addr <<< 1).toUInt8 ||| 1 else (m.addr <<< 1).toUInt8

end Msg

def rtError : Int := 1

def rtEtimeout : Int := 2

def rtEio : Int := 8

namespace Bus

def idle : Bus := ⟨[], 0, []⟩

def lines (s : Bus) : Lines := decode s.trace

def symbols (s : Bus) : List Symbol := s.lines.symbols

def setSda (level : Bool) (s : Bus) : Bus := { s with trace := s.trace ++ [.sda level] }

def sclL (s : Bus) : Bus := { s with trace := s.trace ++ [.sclL] }

def receive (data : UInt8) (s : Bus) : Bus := { s with received := s.received ++ [data] }

section

variable (slave : Nat → Answer)

def release (s : Bus) : Bus :=
  { s with trace := s.trace ++ [.sclH (slave s.releases).sda], releases := s.releases + 1 }

/-- `SCL_H`, which returns whether SCL came up in time. -/
def sclH (s : Bus) : Int × Bus :=
  (if (slave s.releases).late then -rtEtimeout else 0, s.release slave)

/-- `GET_SDA`: SDA is high where both the master and the slave leave it so. -/
def getSda (s : Bus) : Bool := s.lines.sda && (slave (s.releases - 1)).sda

def i2cStart (s : Bus) : Bus := (s.setSda false).sclL

def i2cRestart (s : Bus) : Bus :=
  (((s.setSda true).sclH slave).2.setSda false).sclL

def i2cStop (s : Bus) : Bus := ((s.setSda false).sclH slave).2.setSda true

/-- A timeout is returned as a truth value, which a `rt_bool_t` has room for. -/
def i2cWaitack (s : Bus) : Int × Bus :=
  let (ret, s) := (s.setSda true).sclH slave
  if ret < 0 then (-rtEtimeout, s)
  else
    let ack := !s.getSda slave
    (if ack then 1 else 0, s.sclL)

/-- The loop of `i2c_writeb` over the bits below the `i`-th. -/
def writeBits (data : UInt8) : Nat → Bus → Int × Bus
  | 0, s => (0, s)
  | i + 1, s =>
    let (ret, s) := (s.sclL.setSda (data.toNat.testBit i)).sclH slave
    if ret < 0 then (-rtEtimeout, s) else writeBits data i s

def i2cWriteb (data : UInt8) (s : Bus) : Int × Bus :=
  let (ret, s) := s.writeBits slave data 8
  if ret < 0 then (ret, s) else s.sclL.i2cWaitack slave

/-- The loop of `i2c_readb` with `n` bits to go. -/
def readBits : Nat → UInt8 → Bus → (Int × UInt8) × Bus
  | 0, data, s => ((0, data), s)
  | n + 1, data, s =>
    let data := data <<< 1
    let (ret, s) := s.sclH slave
    if ret < 0 then ((-rtEtimeout, data), s)
    else
      let data := if s.getSda slave then data ||| 1 else data
      readBits n data s.sclL

/-- The byte is returned beside the sign, which says whether there is one. -/
def i2cReadb (s : Bus) : (Int × UInt8) × Bus := (s.setSda true).readBits slave 8 0

/-- The loop of `i2c_send_bytes` with `bytes` of them sent. -/
def sendBytes : List UInt8 → Int → Bus → Int × Bus
  | [], bytes, s => (bytes, s)
  | data :: rest, bytes, s =>
    let (ret, s) := s.i2cWriteb slave data
    if 0 < ret then sendBytes rest (bytes + 1) s
    else if ret = 0 then (0, s)
    else (ret, s)

def i2cSendBytes (m : Msg) (s : Bus) : Int × Bus := s.sendBytes slave m.buf 0

def i2cSendAckOrNack (ack : Bool) (s : Bus) : Int × Bus :=
  let s := if ack then s.setSda false else s
  let (ret, s) := s.sclH slave
  if ret < 0 then (-rtEtimeout, s) else (0, s.sclL)

/-- The loop of `i2c_recv_bytes` with `count` bytes to go and `bytes` of them read. -/
def recvBytes (noReadAck : Bool) : Nat → Int → Bus → Int × Bus
  | 0, bytes, s => (bytes, s)
  | count + 1, bytes, s =>
    let ((val, data), s) := s.i2cReadb slave
    if val < 0 then (bytes, s)
    else
      let s := s.receive data
      if noReadAck then recvBytes noReadAck count (bytes + 1) s
      else
        let (val, s) := s.i2cSendAckOrNack slave (count ≠ 0)
        if val < 0 then (val, s) else recvBytes noReadAck count (bytes + 1) s

def i2cRecvBytes (m : Msg) (s : Bus) : Int × Bus :=
  s.recvBytes slave m.noReadAck m.buf.length 0

/-- The loop of `i2c_send_address` with `n` retries to go. -/
def sendAddress (addr : UInt8) : Nat → Bus → Int × Bus
  | 0, s => s.i2cWriteb slave addr
  | n + 1, s =>
    let (ret, s) := s.i2cWriteb slave addr
    if ret = 1 then (ret, s) else sendAddress addr n (s.i2cStop slave).i2cStart

/-- A count of retries that is negative as a `rt_int32_t` sends no byte at all. -/
def i2cSendAddress (addr : UInt8) (retries : UInt32) (s : Bus) : Int × Bus :=
  if retries.toNat < 2 ^ 31 then s.sendAddress slave addr retries.toNat else (0, s)

/-- `i2c_bit_send_address` behind the first byte of a ten bit address. -/
def lowAddress (retries : UInt32) (m : Msg) (s : Bus) : Int × Bus :=
  let (ret, s) := s.i2cWriteb slave m.addr2
  if ret ≠ 1 then (-rtEio, s)
  else if m.rd then
    let (ret, s) := (s.i2cRestart slave).i2cSendAddress slave (m.addr1 ||| 1) retries
    if ret ≠ 1 then (-rtEio, s) else (0, s)
  else (0, s)

def i2cBitSendAddress (retries : UInt32) (m : Msg) (s : Bus) : Int × Bus :=
  if m.addr10bit then
    let (ret, s) := s.i2cSendAddress slave m.addr1 retries
    if ret ≠ 1 then (-rtEio, s) else s.lowAddress slave retries m
  else
    let (ret, s) := s.i2cSendAddress slave m.addr7 retries
    if ret ≠ 1 then (-rtEio, s) else (0, s)

/-- The loop of `i2c_bit_xfer` from message `i` on, up to the label `out`. -/
def xferMsgs (retries : UInt32) : List Msg → Nat → Bus → Int × Bus
  | [], i, s => (i, s)
  | m :: ms, i, s =>
    let s := if i = 0 then s.i2cStart else s.i2cRestart slave
    let (ret, s) := s.i2cBitSendAddress slave retries m
    if ret ≠ 0 then (ret, s)
    else if m.rd then
      let (ret, s) := s.i2cRecvBytes slave m
      if ret < m.buf.length then (if 0 ≤ ret then -rtEio else ret, s)
      else xferMsgs retries ms (i + 1) s
    else
      let (ret, s) := s.i2cSendBytes slave m
      if ret < m.buf.length then (if 0 ≤ ret then -rtError else ret, s)
      else xferMsgs retries ms (i + 1) s

def i2cBitXfer (retries : UInt32) (msgs : List Msg) (s : Bus) : Int × Bus :=
  if msgs = [] then (0, s)
  else
    let (ret, s) := s.xferMsgs slave retries msgs 0
    (ret, s.i2cStop slave)

/-! ## Undisturbed transfers

Where the bytes of a transfer come, by the releases of SCL, as long as nothing disturbs them.
-/

section

variable (slave : Nat → Answer)

/-- The slave is in time for `k` releases from the `n`-th on. -/
def InTime (n k : Nat) : Prop := ∀ j < k, (slave (n + j)).late = false

instance (n k : Nat) : Decidable (InTime slave n k) := inferInstanceAs (Decidable (∀ j < k, _))

/-- A byte that is sent from release `n` on: whether the slave acknowledges it, and the release
that comes behind it. -/
def sentFrom (n : Nat) : Option (Bool × Nat) :=
  if InTime slave n 9 then some (!(slave (n + 8)).sda, n + 9) else none

/-- Between two tries SCL is released for a STOP. -/
def triesFrom : Nat → Nat → Option (Bool × Nat)
  | 0, n => sentFrom slave n
  | r + 1, n => do
    let (acked, n) ← sentFrom slave n
    if acked then some (true, n) else triesFrom r (n + 1)

/-- The byte behind a repeated START must not be tried again: the slave it is for would have to
be addressed from the beginning. -/
def againFrom (retries n : Nat) : Option (Bool × Nat) := do
  let (acked, n) ← sentFrom slave n
  if acked ∨ retries = 0 then some (acked, n) else none

def addressFrom (retries : Nat) (m : Msg) (n : Nat) : Option (Bool × Nat) := do
  let (acked, n) ← triesFrom slave retries n
  if m.addr10bit ∧ acked then
    let (acked, n) ← sentFrom slave n
    if m.rd ∧ acked then againFrom slave retries (n + 1) else some (acked, n)
  else some (acked, n)

def readFrom : Nat → Nat → Option Nat
  | 0, n => some n
  | k + 1, n => if InTime slave n 9 then readFrom k (n + 9) else none

def allSentFrom : Nat → Nat → Option (Bool × Nat)
  | 0, n => some (true, n)
  | k + 1, n => do
    let (acked, n) ← sentFrom slave n
    if acked then allSentFrom k n else some (false, n)

/-- The bytes of a message, behind its address. What is read has to be acknowledged. -/
def dataFrom (m : Msg) (n : Nat) : Option (Bool × Nat) :=
  if m.rd then
    if m.noReadAck ∧ m.buf ≠ [] then none
    else (readFrom slave m.buf.length n).map fun n => (true, n)
  else allSentFrom slave m.buf.length n

/-- Whether the messages are transferred, of which each but the first has a repeated START. -/
def messagesFrom (retries : Nat) : List Msg → Nat → Option Bool
  | [], _ => some true
  | m :: ms, n => do
    let (acked, n) ← addressFrom slave retries m n
    if acked then
      let (acked, n) ← dataFrom slave m n
      if acked then messagesFrom retries ms (n + 1) else some false
    else some false

/-- Nothing disturbs a transfer: the slave is in time for every release of SCL in a byte and its
acknowledge slot, the last address byte of a read is not tried again, what is read is to be
acknowledged, and the retries can be counted. -/
def Undisturbed (retries : UInt32) (msgs : List Msg) : Prop :=
  msgs = [] ∨ retries.toNat < 2 ^ 31 ∧ (messagesFrom slave retries.toNat msgs 0).isSome

instance (retries : UInt32) (msgs : List Msg) : Decidable (Undisturbed slave retries msgs) :=
  inferInstanceAs (Decidable (_ ∨ _))

end

end

section

variable {s s' : Bus}

@[simp] theorem lines_setSda (level : Bool) (s : Bus) :
    (s.setSda level).lines = s.lines.drive (.sda level) := decode_append _ _

@[simp] theorem lines_sclL (s : Bus) : s.sclL.lines = s.lines.drive .sclL := decode_append _ _

@[simp] theorem lines_release (slave : Nat → Answer) (s : Bus) :
    (s.release slave).lines = s.lines.drive (.sclH (slave s.releases).sda) := decode_append _ _

@[simp] theorem sclH_snd (slave : Nat → Answer) (s : Bus) : (s.sclH slave).2 = s.release slave :=
  rfl

/-- Nothing is taken back of what the bus has carried. -/
def Grows (s s' : Bus) : Prop := s.symbols <+: s'.symbols

theorem Grows.refl (s : Bus) : Grows s s := prefix_refl _

theorem Grows.trans {s'' : Bus} (h : Grows s s') (h' : Grows s' s'') : Grows s s'' :=
  List.IsPrefix.trans h h'

variable (slave : Nat → Answer)

theorem grows_setSda (level : Bool) (s : Bus) : Grows s (s.setSda level) := by
  unfold Grows symbols
  rw [lines_setSda]
  exact Lines.symbols_prefix_drive _ _

theorem grows_sclL (s : Bus) : Grows s s.sclL := by
  unfold Grows symbols
  rw [lines_sclL]
  exact Lines.symbols_prefix_drive _ _

theorem grows_release (s : Bus) : Grows s (s.release slave) := by
  unfold Grows symbols
  rw [lines_release]
  exact Lines.symbols_prefix_drive _ _

theorem grows_start (s : Bus) : Grows s s.i2cStart :=
  (grows_setSda false s).trans (grows_sclL _)

theorem grows_restart (s : Bus) : Grows s (s.i2cRestart slave) :=
  (((grows_setSda true s).trans (grows_release slave _)).trans (grows_setSda false _)).trans
    (grows_sclL _)

theorem grows_stop (s : Bus) : Grows s (s.i2cStop slave) :=
  ((grows_setSda false s).trans (grows_release slave _)).trans (grows_setSda true _)

theorem grows_waitack (s : Bus) : Grows s (s.i2cWaitack slave).2 := by
  have h := (grows_setSda true s).trans (grows_release slave _)
  unfold i2cWaitack sclH
  dsimp only
  split
  · exact h
  · exact h.trans (grows_sclL _)

theorem grows_writeBits (data : UInt8) (i : Nat) (s : Bus) :
    Grows s (s.writeBits slave data i).2 := by
  induction i generalizing s with
  | zero => exact .refl s
  | succ i ih =>
    have h := ((grows_sclL s).trans (grows_setSda (data.toNat.testBit i) _)).trans
      (grows_release slave _)
    unfold writeBits sclH
    dsimp only
    split
    · exact h
    · exact h.trans (ih _)

theorem grows_writeb (data : UInt8) (s : Bus) : Grows s (s.i2cWriteb slave data).2 := by
  have h := grows_writeBits slave data 8 s
  unfold i2cWriteb
  dsimp only
  split
  · exact h
  · exact (h.trans (grows_sclL _)).trans (grows_waitack slave _)

theorem grows_readBits (n : Nat) (data : UInt8) (s : Bus) :
    Grows s (s.readBits slave n data).2 := by
  induction n generalizing data s with
  | zero => exact .refl s
  | succ n ih =>
    have h := grows_release slave s
    unfold readBits sclH
    dsimp only
    split
    · exact h
    · exact (h.trans (grows_sclL _)).trans (ih _ _)

theorem grows_readb (s : Bus) : Grows s (s.i2cReadb slave).2 :=
  (grows_setSda true s).trans (grows_readBits slave 8 0 _)

theorem grows_sendBytes (l : List UInt8) (bytes : Int) (s : Bus) :
    Grows s (s.sendBytes slave l bytes).2 := by
  induction l generalizing bytes s with
  | nil => exact .refl s
  | cons data l ih =>
    have h := grows_writeb slave data s
    unfold sendBytes
    dsimp only
    split
    · exact h.trans (ih _ _)
    · split <;> exact h

theorem grows_sendAckOrNack (ack : Bool) (s : Bus) : Grows s (s.i2cSendAckOrNack slave ack).2 := by
  have h : Grows s (if ack then s.setSda false else s) := by
    split
    · exact grows_setSda false s
    · exact .refl s
  unfold i2cSendAckOrNack sclH
  dsimp only
  generalize (if ack then s.setSda false else s) = s' at h ⊢
  split
  · exact h.trans (grows_release slave _)
  · exact (h.trans (grows_release slave _)).trans (grows_sclL _)

theorem grows_recvBytes (noReadAck : Bool) (n : Nat) (bytes : Int) (s : Bus) :
    Grows s (s.recvBytes slave noReadAck n bytes).2 := by
  induction n generalizing bytes s with
  | zero => exact .refl s
  | succ n ih =>
    have h : Grows s ((s.i2cReadb slave).2.receive (s.i2cReadb slave).1.2) := grows_readb slave s
    unfold recvBytes
    dsimp only
    split
    · exact grows_readb slave s
    · split
      · exact h.trans (ih _ _)
      · split
        · exact h.trans (grows_sendAckOrNack slave _ _)
        · exact (h.trans (grows_sendAckOrNack slave _ _)).trans (ih _ _)

theorem grows_sendAddress (addr : UInt8) (n : Nat) (s : Bus) :
    Grows s (s.sendAddress slave addr n).2 := by
  induction n generalizing s with
  | zero => exact grows_writeb slave addr s
  | succ n ih =>
    have h := grows_writeb slave addr s
    unfold sendAddress
    dsimp only
    split
    · exact h
    · exact ((h.trans (grows_stop slave _)).trans (grows_start _)).trans (ih _)

theorem grows_i2cSendAddress (addr : UInt8) (retries : UInt32) (s : Bus) :
    Grows s (s.i2cSendAddress slave addr retries).2 := by
  unfold i2cSendAddress
  split
  · exact grows_sendAddress slave addr _ s
  · exact .refl s

section

variable (retries : UInt32)
include retries

theorem grows_lowAddress (m : Msg) (s : Bus) : Grows s (s.lowAddress slave retries m).2 := by
  have h := grows_writeb slave m.addr2 s
  unfold lowAddress
  dsimp only
  split
  · exact h
  · split
    · have h' := (h.trans (grows_restart slave _)).trans
        (grows_i2cSendAddress slave (m.addr1 ||| 1) retries _)
      split <;> exact h'
    · exact h

theorem grows_bitSendAddress (m : Msg) (s : Bus) :
    Grows s (s.i2cBitSendAddress slave retries m).2 := by
  unfold i2cBitSendAddress
  dsimp only
  split
  · split
    · exact grows_i2cSendAddress slave _ _ s
    · exact (grows_i2cSendAddress slave m.addr1 retries s).trans (grows_lowAddress slave _ m _)
  · split <;> exact grows_i2cSendAddress slave _ _ s

theorem grows_xferMsgs_cons (m : Msg) (ms : List Msg) (i : Nat) (s : Bus)
    (hms : ∀ s, Grows s (s.xferMsgs slave retries ms (i + 1)).2) :
    Grows (if i = 0 then s.i2cStart else s.i2cRestart slave)
      (s.xferMsgs slave retries (m :: ms) i).2 := by
  unfold xferMsgs
  dsimp only
  generalize (if i = 0 then s.i2cStart else s.i2cRestart slave) = s'
  have h := grows_bitSendAddress slave retries m s'
  split
  · exact h
  · split
    · have h' := h.trans (grows_recvBytes slave m.noReadAck m.buf.length 0 _)
      split
      · exact h'
      · exact h'.trans (hms _)
    · have h' := h.trans (grows_sendBytes slave m.buf 0 _)
      split
      · exact h'
      · exact h'.trans (hms _)

theorem grows_xferMsgs (msgs : List Msg) (i : Nat) (s : Bus) :
    Grows s (s.xferMsgs slave retries msgs i).2 := by
  induction msgs generalizing i s with
  | nil => exact .refl s
  | cons m ms ih =>
    have hstart : Grows s (if i = 0 then s.i2cStart else s.i2cRestart slave) := by
      split
      · exact grows_start s
      · exact grows_restart slave s
    exact hstart.trans (grows_xferMsgs_cons slave retries m ms i s fun s => ih (i + 1) s)

end

end

/-! ## What is left to come

Where the grammar has to go on after what a bus has carried is kept as a grammar of its own.
-/

section

variable (P : Grammar)

/-- SCL is low, and the symbols to come are read by `next`. -/
structure At (s : Bus) (n : Nat) (received : List UInt8) (next : Grammar) : Prop where
  low : ∃ sda, s.lines = ⟨sda, false, none, s.symbols⟩
  reads : ∀ w, P (s.symbols ++ w) = next w
  releases_eq : s.releases = n
  received_eq : s.received = received

/-- Neither a START nor a STOP may come now. -/
def Jammed (s : Bus) : Prop :=
  ∀ w, P (s.symbols ++ .start :: w) = none ∧ P (s.symbols ++ .stop :: w) = none

/-- Nothing that comes makes the symbols a word of the grammar. -/
def Dead (s : Bus) : Prop := ∀ w, P (s.symbols ++ w) = none

variable {P} {s s' : Bus} {n : Nat} {received : List UInt8} {next : Grammar}

theorem Dead.grows (h : Dead P s) (hgrows : Grows s s') : Dead P s' := by
  intro w
  obtain ⟨t, ht⟩ := hgrows
  rw [← ht, append_assoc]
  exact h _

theorem Dead.jammed (h : Dead P s) : Jammed P s := fun _ => ⟨h _, h _⟩

theorem At.jammed {received : List UInt8} (h : At P s n received next)
    (hnext : ∀ w, next (.start :: w) = none ∧ next (.stop :: w) = none) : Jammed P s :=
  fun w => ⟨(h.reads _).trans (hnext w).1, (h.reads _).trans (hnext w).2⟩

variable (slave : Nat → Answer)

theorem Jammed.dead (h : Jammed P s) (hsymbols : ∃ w, s'.symbols = s.symbols ++ .start :: w ∨
    s'.symbols = s.symbols ++ .stop :: w) : Dead P s' := by
  intro w
  obtain ⟨t, ht | ht⟩ := hsymbols
  · rw [ht, append_assoc]
    exact (h _).1
  · rw [ht, append_assoc]
    exact (h _).2

/-- Whatever state the lines are in, a repeated START begins with a START or a STOP. -/
theorem Jammed.restart (h : Jammed P s) : Dead P (s.i2cRestart slave) := by
  apply h.dead
  unfold symbols i2cRestart
  rw [lines_sclL, lines_setSda, sclH_snd, lines_release, lines_setSda]
  obtain ⟨sda, scl, clocked, symbols⟩ := s.lines
  cases sda <;> cases scl <;> simp [Lines.drive]

theorem Jammed.stop (h : Jammed P s) : Dead P (s.i2cStop slave) := by
  apply h.dead
  unfold symbols i2cStop
  rw [lines_setSda, sclH_snd, lines_release, lines_setSda]
  obtain ⟨sda, scl, clocked, symbols⟩ := s.lines
  cases sda <;> cases scl <;> simp [Lines.drive]

section

variable (h : At P s n received next) {b : Bool}
include h

theorem At.setSda (b : Bool) : At P (s.setSda b) n received next := by
  obtain ⟨sda, hlow⟩ := h.low
  have hlines : (s.setSda b).lines = ⟨b, false, none, s.symbols⟩ := by
    rw [lines_setSda, hlow, Lines.drive_sda_low rfl rfl]
  have hsymbols : (s.setSda b).symbols = s.symbols := by
    unfold symbols at hlines ⊢
    rw [hlines]
  refine ⟨⟨b, ?_⟩, fun w => ?_, h.releases_eq, h.received_eq⟩
  · rw [hlines, hsymbols]
  · rw [hsymbols]
    exact h.reads w

theorem At.sda_setSda (b : Bool) : (s.setSda b).lines.sda = b := by
  obtain ⟨sda, hlow⟩ := h.low
  rw [lines_setSda, hlow, Lines.drive_sda_low rfl rfl]

theorem At.lines_eq (hsda : s.lines.sda = b) :
    s.lines = ⟨b, false, none, s.symbols⟩ := by
  obtain ⟨sda, hlow⟩ := h.low
  rw [hlow] at hsda ⊢
  rw [← hsda]

/-- A pulse of SCL, which the slave answers in time. -/
theorem At.clock (hsda : s.lines.sda = b) : At P (s.release slave).sclL (n + 1) received
        (fun w => next (.bit b (b && (slave n).sda) :: w)) ∧
      (s.release slave).sclL.lines.sda = b := by
  have hlines : (s.release slave).sclL.lines =
      ⟨b, false, none, s.symbols ++ [.bit b (b && (slave n).sda)]⟩ := by
    rw [lines_sclL, lines_release, h.lines_eq hsda, h.releases_eq]
    rfl
  have hsymbols : (s.release slave).sclL.symbols =
      s.symbols ++ [.bit b (b && (slave n).sda)] := by
    unfold symbols at hlines ⊢
    rw [hlines]
  refine ⟨⟨⟨b, ?_⟩, fun w => ?_, congrArg (· + 1) h.releases_eq, h.received_eq⟩, ?_⟩
  · rw [hlines, hsymbols]
  · rw [hsymbols, append_assoc]
    exact h.reads _
  · rw [hlines]

/-- Where the slave is late in a pulse, the bus has not carried anything. -/
theorem At.late (hnext : ∀ w, next (.start :: w) = none ∧ next (.stop :: w) = none) :
    Jammed P (s.release slave) := by
  obtain ⟨sda, hlow⟩ := h.low
  have hsymbols : (s.release slave).symbols = s.symbols := by
    unfold symbols
    rw [lines_release, hlow, Lines.drive_sclH_low rfl]
  intro w
  rw [hsymbols]
  exact ⟨(h.reads _).trans (hnext w).1, (h.reads _).trans (hnext w).2⟩

theorem At.sclL : At P s.sclL n received next := by
  obtain ⟨sda, hlow⟩ := h.low
  have hlines : s.sclL.lines = s.lines := by
    rw [lines_sclL, hlow]
    rfl
  have hsymbols : s.sclL.symbols = s.symbols := congrArg Lines.symbols hlines
  refine ⟨⟨sda, ?_⟩, fun w => ?_, h.releases_eq, h.received_eq⟩
  · rw [hlines, hsymbols]
    exact hlow
  · rw [hsymbols]
    exact h.reads w

end

end

section

variable {P : Grammar} (slave : Nat → Answer) {s : Bus} {n : Nat} {received : List UInt8}

/-- What a part of a transfer does, that is to go as `course` says and is answered with `good`.
Without a course the transfer is lost, and unless the answer is `bad` nothing can save it. -/
inductive Goes (P : Grammar) (received : List UInt8) (next : Bool → Grammar)
    (good : Bool → Int → Prop) (bad : Int → Prop) : Option (Bool × Nat) → Int × Bus → Prop
  | on {acked : Bool} {n : Nat} {r : Int × Bus} (hret : good acked r.1)
      (h : At P r.2 n received (next acked)) : Goes P received next good bad (some (acked, n)) r
  | jammed {r : Int × Bus} (hret : bad r.1) (h : Jammed P r.2) :
      Goes P received next good bad none r
  | dead {r : Int × Bus} (h : Dead P r.2) : Goes P received next good bad none r

theorem inTime_succ (slave : Nat → Answer) (n k : Nat) :
    InTime slave n (k + 1) ↔ (slave n).late = false ∧ InTime slave (n + 1) k := by
  constructor
  · intro h
    refine ⟨h 0 (Nat.succ_pos k), fun j hj => ?_⟩
    rw [Nat.add_assoc, Nat.add_comm 1 j]
    exact h (j + 1) (Nat.succ_lt_succ hj)
  · rintro ⟨hzero, h⟩ j hj
    cases j with
    | zero => exact hzero
    | succ j =>
      rw [Nat.add_comm j 1, ← Nat.add_assoc]
      exact h j (Nat.lt_of_succ_lt_succ hj)

theorem inTime_nine (slave : Nat → Answer) (n : Nat) :
    InTime slave n 9 ↔ InTime slave n 8 ∧ (slave (n + 8)).late = false := by
  constructor
  · exact fun h => ⟨fun j hj => h j (Nat.lt_succ_of_lt hj), h 8 (Nat.lt_succ_self 8)⟩
  · rintro ⟨h, hlast⟩ j hj
    obtain hj | rfl := Nat.lt_succ_iff_lt_or_eq.mp hj
    · exact h j hj
    · exact hlast

/-- The result of `SCL_H` is negative where the slave is late. -/
theorem sclH_fst_neg (slave : Nat → Answer) (s : Bus) :
    (s.sclH slave).1 < 0 ↔ (slave s.releases).late = true := by
  unfold sclH rtEtimeout
  dsimp only
  split <;> simp_all

/-- While the master leaves SDA high, it is at the level that the slave gives it. -/
theorem At.getSda {next : Grammar} (h : At P s n received next) (hsda : s.lines.sda = true) :
    (s.release slave).getSda slave = (slave n).sda := by
  have hreleases : s.releases = n := h.releases_eq
  unfold Bus.getSda
  rw [lines_release, h.lines_eq hsda, Lines.drive_sclH_low rfl, Bool.true_and]
  change (slave (s.releases + 1 - 1)).sda = _
  rw [hreleases, Nat.add_sub_cancel]

variable {next : Bool → Grammar}

theorem At.waitack (h : At P s n received (expectAck next)) : ((slave n).late = false ∧
      (s.i2cWaitack slave).1 = (if (slave n).sda then 0 else 1) ∧
      At P (s.i2cWaitack slave).2 (n + 1) received (next !(slave n).sda)) ∨
    ((slave n).late = true ∧ (s.i2cWaitack slave).1 < 0 ∧ Jammed P (s.i2cWaitack slave).2) := by
  have hhigh := h.setSda true
  have hsda := h.sda_setSda true
  have hreleases : (s.setSda true).releases = n := h.releases_eq
  unfold i2cWaitack
  simp only [sclH_fst_neg, hreleases, sclH_snd, hhigh.getSda slave hsda]
  cases hlate : (slave n).late with
  | false =>
    refine .inl ⟨rfl, ?_, ?_⟩
    · cases (slave n).sda <;> rfl
    · have hclock := (hhigh.clock slave hsda).1
      exact hclock
  | true =>
    have htimeout : -rtEtimeout < 0 := by decide
    exact .inr ⟨rfl, htimeout, hhigh.late slave fun w => ⟨rfl, rfl⟩⟩

variable {data : UInt8} {course : Option (Bool × Nat)}

/-- The bits below the `i`-th of a byte are sent, the most significant first. In between SCL is
left high. -/
theorem At.writeBits {next : Grammar} (i : Nat) (h : At P s.sclL n received
      (expectBits ((List.range i).reverse.map data.toNat.testBit) next)) :
    (InTime slave n i ∧ (s.writeBits slave data i).1 = 0 ∧
      At P (s.writeBits slave data i).2.sclL (n + i) received next) ∨
    (¬ InTime slave n i ∧ (s.writeBits slave data i).1 < 0 ∧
      Jammed P (s.writeBits slave data i).2) := by
  induction i generalizing s n with
  | zero => exact .inl ⟨fun j hj => absurd hj (Nat.not_lt_zero j), rfl, h⟩
  | succ i ih =>
    rw [range_succ, reverse_append, reverse_singleton, singleton_append,
      map_cons] at h
    have hreleases : (s.sclL.setSda (data.toNat.testBit i)).releases = n := h.releases_eq
    have hset := h.setSda (data.toNat.testBit i)
    have hclock := (hset.clock slave (h.sda_setSda _)).1
    simp only [expectBits, if_true] at hclock
    unfold Bus.writeBits
    dsimp only
    simp only [sclH_fst_neg, hreleases, sclH_snd, inTime_succ]
    cases hlate : (slave n).late with
    | false =>
      have h' := ih hclock
      rw [Nat.add_assoc, Nat.add_comm 1 i] at h'
      simpa using h'
    | true =>
      have htimeout : -rtEtimeout < 0 := by decide
      refine .inr ⟨fun hin => Bool.noConfusion hin.1, htimeout, ?_⟩
      exact hset.late slave fun w => ⟨rfl, rfl⟩

/-- What `i2c_writeb` answers: a byte is acknowledged, or it is not. -/
def Answers (acked : Bool) (ret : Int) : Prop := ret = if acked then 1 else 0

theorem At.writeb
    (h : At P s n received (expectSent (msbFirst data) next)) :
    Goes P received next Answers (· < 0) (sentFrom slave n) (s.i2cWriteb slave data) := by
  unfold sentFrom i2cWriteb
  dsimp only
  obtain ⟨hin, hret, hbits⟩ | ⟨hin, hret, hjam⟩ := h.sclL.writeBits slave 8
  · have hnonneg : ¬ (s.writeBits slave data 8).1 < 0 := by
      rw [hret]
      exact Int.lt_irrefl 0
    simp only [if_neg hnonneg]
    obtain ⟨hlate, hack, hat⟩ | ⟨hlate, hneg, hjam⟩ := hbits.waitack slave
    · rw [if_pos ((inTime_nine slave n).mpr ⟨hin, hlate⟩)]
      refine .on ?_ hat
      rw [hack]
      unfold Answers
      cases (slave (n + 8)).sda <;> rfl
    · have hnot : ¬ InTime slave n 9 := fun hn =>
        Bool.noConfusion (hlate.symm.trans ((inTime_nine slave n).mp hn).2)
      rw [if_neg hnot]
      exact .jammed hneg hjam
  · rw [if_neg fun hn => hin ((inTime_nine slave n).mp hn).1, if_pos hret]
    exact .jammed hret hjam

theorem ne_one_of_neg {ret : Int} (h : ret < 0) : ret ≠ 1 := by
  omega

theorem Goes.mono {good good' : Bool → Int → Prop} {bad bad' : Int → Prop} {r : Int × Bus}
    (h : Goes P received next good bad course r) (hgood : ∀ acked, good acked r.1 → good' acked r.1)
    (hbad : bad r.1 → bad' r.1) : Goes P received next good' bad' course r := by
  cases h with
  | on hret h => exact .on (hgood _ hret) h
  | jammed hret h => exact .jammed (hbad hret) h
  | dead h => exact .dead h

section

variable {next : Grammar} (h : At P s n received next)
include h

/-- The bus has carried some more symbols since, the last of them a START. -/
theorem At.started {l : List Symbol} (hlines : s'.lines = ⟨false, false, none, s.symbols ++ l⟩)
    (hreleases : s'.releases = s.releases + 1) (hreceived : s'.received = s.received) :
    At P s' (n + 1) received fun w => next (l ++ w) := by
  have hsymbols : s'.symbols = s.symbols ++ l := congrArg Lines.symbols hlines
  refine ⟨⟨false, ?_⟩, fun w => ?_, hreleases.trans (congrArg (· + 1) h.releases_eq),
    hreceived.trans h.received_eq⟩
  · rw [hlines, hsymbols]
  · rw [hsymbols, append_assoc]
    exact h.reads _

theorem At.stopStart :
    At P (s.i2cStop slave).i2cStart (n + 1) received fun w => next (.stop :: .start :: w) := by
  obtain ⟨sda, hlow⟩ := h.low
  have hlines : ((s.i2cStop slave).i2cStart).lines =
      ⟨false, false, none, s.symbols ++ [.stop, .start]⟩ := by
    unfold i2cStart i2cStop
    rw [lines_sclL, lines_setSda, lines_setSda, sclH_snd, lines_release, lines_setSda, hlow]
    cases sda <;> simp [Lines.drive]
  exact h.started hlines rfl rfl

theorem At.restart : At P (s.i2cRestart slave) (n + 1) received fun w => next (.start :: w) := by
  obtain ⟨sda, hlow⟩ := h.low
  have hlines : (s.i2cRestart slave).lines = ⟨false, false, none, s.symbols ++ [.start]⟩ := by
    unfold i2cRestart
    rw [lines_sclL, lines_setSda, sclH_snd, lines_release, lines_setSda, hlow]
    cases sda <;> simp [Lines.drive]
  exact h.started hlines rfl rfl

end

theorem Dead.tryAgain (h : Dead P s) (data : UInt8) (r : Nat) :
    Dead P ((s.i2cStop slave).i2cStart.sendAddress slave data r).2 :=
  h.grows (((grows_stop slave s).trans (grows_start _)).trans (grows_sendAddress slave data r _))

theorem Jammed.tryAgain (h : Jammed P s) (data : UInt8) (r : Nat) :
    Dead P ((s.i2cStop slave).i2cStart.sendAddress slave data r).2 :=
  (h.stop slave).grows ((grows_start _).trans (grows_sendAddress slave data r _))

theorem At.sendAddress (r : Nat) (h : At P s n received (expectTries (msbFirst data) r next)) :
    Goes P received next Answers (· ≠ 1) (triesFrom slave r n) (s.sendAddress slave data r) := by
  induction r generalizing s n with
  | zero => exact (h.writeb slave).mono (fun _ hret => hret) fun hret => ne_one_of_neg hret
  | succ r ih =>
    have hfirst := h.writeb slave
    unfold triesFrom Bus.sendAddress
    dsimp only
    generalize s.i2cWriteb slave data = x at hfirst ⊢
    generalize sentFrom slave n = course at hfirst ⊢
    cases hfirst with
    | @on acked n _ hret hat =>
      cases acked with
      | true =>
        have hone : x.1 = 1 := hret
        rw [if_pos hone]
        exact .on hret hat
      | false =>
        have hne : x.1 ≠ 1 := fun heq => by simp [Answers, heq] at hret
        rw [if_neg hne]
        exact ih (hat.stopStart slave)
    | jammed hret hjam =>
      have hne : x.1 ≠ 1 := ne_one_of_neg hret
      rw [if_neg hne]
      exact .dead (hjam.tryAgain slave data r)
    | dead hdead =>
      by_cases hret : x.1 = 1
      · rw [if_pos hret]
        exact .dead hdead
      · rw [if_neg hret]
        exact .dead (hdead.tryAgain slave data r)

/-- A byte that has to come behind a repeated START is lost once it is tried again. -/
theorem At.sendAgain (r : Nat) (h : At P s n received (expectSent (msbFirst data) next))
    (hnext : ∀ w, next false (.stop :: .start :: w) = none) :
    Goes P received next Answers (· ≠ 1) (againFrom slave r n) (s.sendAddress slave data r) := by
  have hfirst := h.writeb slave
  cases r with
  | zero =>
    have hcourse : againFrom slave 0 n = sentFrom slave n := by
      unfold againFrom
      cases sentFrom slave n <;> simp
    rw [hcourse]
    exact hfirst.mono (fun _ hret => hret) fun hret => ne_one_of_neg hret
  | succ r =>
    unfold againFrom Bus.sendAddress
    dsimp only
    generalize s.i2cWriteb slave data = x at hfirst ⊢
    generalize sentFrom slave n = course at hfirst ⊢
    cases hfirst with
    | @on acked n _ hret hat =>
      cases acked with
      | true =>
        have hone : x.1 = 1 := hret
        rw [if_pos hone]
        exact .on hret hat
      | false =>
        have hne : x.1 ≠ 1 := fun heq => by simp [Answers, heq] at hret
        rw [if_neg hne]
        have hdead : Dead P (x.2.i2cStop slave).i2cStart := fun w =>
          ((hat.stopStart slave).reads w).trans (hnext w)
        exact .dead (hdead.grows (grows_sendAddress slave data r _))
    | jammed hret hjam =>
      have hne : x.1 ≠ 1 := ne_one_of_neg hret
      rw [if_neg hne]
      exact .dead (hjam.tryAgain slave data r)
    | dead hdead =>
      by_cases hret : x.1 = 1
      · rw [if_pos hret]
        exact .dead hdead
      · rw [if_neg hret]
        exact .dead (hdead.tryAgain slave data r)

variable {retries : UInt32} {m : Msg} {bytes : Int} {i : Nat}

theorem At.i2cSendAddress
    (h : At P s n received (expectTries (msbFirst data) retries.toNat next))
    (hretries : retries.toNat < 2 ^ 31) :
    Goes P received next Answers (· ≠ 1) (triesFrom slave retries.toNat n)
      (s.i2cSendAddress slave data retries) := by
  unfold Bus.i2cSendAddress
  rw [if_pos hretries]
  exact h.sendAddress slave _

theorem testBit_mod_byte (n : Nat) (hi : i < 8) : (n % 256).testBit i = n.testBit i := by
  have h := Nat.testBit_mod_two_pow n 8 i
  rw [decide_eq_true hi, Bool.true_and] at h
  exact h

/-- The bytes of an address have the bits that the grammar asks for. -/
theorem msbFirst_addr7 (m : Msg) : msbFirst m.addr7 = m.sevenBits := by
  unfold msbFirst Msg.addr7 Msg.sevenBits
  cases m.rd <;> simp +decide [testBit_mod_byte, Nat.testBit_shiftLeft]

theorem msbFirst_addr1 (m : Msg) : msbFirst m.addr1 = m.highBits false := by
  unfold msbFirst Msg.addr1 Msg.highBits
  simp +decide [testBit_mod_byte, Nat.testBit_shiftRight]
  cases m.addr.toNat.testBit 9 <;> cases m.addr.toNat.testBit 8 <;> decide

theorem msbFirst_addr1_rd (m : Msg) : msbFirst (m.addr1 ||| 1) = m.highBits true := by
  unfold msbFirst Msg.addr1 Msg.highBits
  simp +decide [testBit_mod_byte, Nat.testBit_shiftRight]
  cases m.addr.toNat.testBit 9 <;> cases m.addr.toNat.testBit 8 <;> decide

theorem msbFirst_addr2 (m : Msg) : msbFirst m.addr2 = m.lowBits := by
  unfold msbFirst Msg.addr2 Msg.lowBits
  simp +decide [testBit_mod_byte]

/-- What `i2c_bit_send_address` answers. -/
def Sent (acked : Bool) (ret : Int) : Prop := ret = if acked then 0 else -rtEio

/-- An answer of the slave to a byte becomes the answer for the address. -/
theorem Goes.answer {x : Int × Bus} (h : Goes P received next Answers (· ≠ 1) course x) :
    Goes P received next Sent (· ≠ 0) course (if x.1 ≠ 1 then (-rtEio, x.2) else (0, x.2)) := by
  cases h with
  | @on acked n _ hret hat =>
    cases acked with
    | true =>
      have hone : ¬ x.1 ≠ 1 := fun hne => hne hret
      rw [if_neg hone]
      exact .on rfl hat
    | false =>
      have hne : x.1 ≠ 1 := fun heq => by simp [Answers, heq] at hret
      rw [if_pos hne]
      exact .on rfl hat
  | jammed hret hjam =>
    have hbad : -rtEio ≠ 0 := by decide
    rw [if_pos hret]
    exact .jammed hbad hjam
  | dead hdead => split <;> exact .dead hdead

theorem At.lowAddress
    (h : At P s n received (expectSent (msbFirst m.addr2) fun
      | false => next false
      | true =>
        if m.rd then expectStart (expectSent (msbFirst (m.addr1 ||| 1)) next) else next true))
    (hretries : retries.toNat < 2 ^ 31)
    (hnext : ∀ w, next false (.stop :: .start :: w) = none) :
    Goes P received next Sent (· ≠ 0)
      (do
        let (acked, n) ← sentFrom slave n
        if m.rd ∧ acked then againFrom slave retries.toNat (n + 1) else some (acked, n))
      (s.lowAddress slave retries m) := by
  have hfirst := h.writeb slave
  have hbad : -rtEio ≠ 0 := by decide
  unfold Bus.lowAddress
  dsimp only
  generalize s.i2cWriteb slave m.addr2 = x at hfirst ⊢
  generalize sentFrom slave n = course at hfirst ⊢
  cases hfirst with
  | @on acked n _ hret hat =>
    cases acked with
    | false =>
      have hne : x.1 ≠ 1 := fun heq => by simp [Answers, heq] at hret
      have hcourse : (do
          let (acked, n) ← some (false, n)
          if m.rd ∧ acked then againFrom slave retries.toNat (n + 1) else some (acked, n)) =
          some (false, n) := by
        simp
      rw [hcourse, if_pos hne]
      exact .on rfl hat
    | true =>
      have hone : ¬ x.1 ≠ 1 := fun hne => hne hret
      rw [if_neg hone]
      cases hrd : m.rd with
      | false =>
        simp only [hrd] at hat
        exact .on rfl hat
      | true =>
        simp only [hrd, if_true] at hat
        have hagain := (hat.restart slave).sendAgain slave retries.toNat hnext
        have hsend : (x.2.i2cRestart slave).i2cSendAddress slave (m.addr1 ||| 1) retries =
            (x.2.i2cRestart slave).sendAddress slave (m.addr1 ||| 1) retries.toNat :=
          if_pos hretries
        rw [hsend]
        exact hagain.answer
  | jammed hret hjam =>
    rw [if_pos (ne_one_of_neg hret)]
    exact .jammed hbad hjam
  | dead hdead =>
    refine .dead ?_
    split
    · exact hdead
    · split
      · have hdead' := hdead.grows ((grows_restart slave _).trans
          (grows_i2cSendAddress slave (m.addr1 ||| 1) retries _))
        split <;> exact hdead'
      · exact hdead

theorem At.bitSendAddress (h : At P s n received (expectAddress retries.toNat m next))
    (hretries : retries.toNat < 2 ^ 31) (hnext : ∀ w, next false (.stop :: .start :: w) = none) :
    Goes P received next Sent (· ≠ 0) (addressFrom slave retries.toNat m n)
      (s.i2cBitSendAddress slave retries m) := by
  unfold expectAddress at h
  unfold addressFrom i2cBitSendAddress
  cases haddr : m.addr10bit with
  | false =>
    rw [haddr, ← msbFirst_addr7] at h
    have hfirst := (h.i2cSendAddress slave hretries).answer
    have hcourse : (do
        let (acked, n) ← triesFrom slave retries.toNat n
        if false = true ∧ acked then
          let (acked, n) ← sentFrom slave n
          if m.rd ∧ acked then againFrom slave retries.toNat (n + 1) else some (acked, n)
        else some (acked, n)) = triesFrom slave retries.toNat n := by
      cases triesFrom slave retries.toNat n <;> simp
    rw [hcourse]
    exact hfirst
  | true =>
    rw [haddr, ← msbFirst_addr1, ← msbFirst_addr2, ← msbFirst_addr1_rd] at h
    have hfirst := h.i2cSendAddress slave hretries
    have hbad : -rtEio ≠ 0 := by decide
    dsimp only
    generalize s.i2cSendAddress slave m.addr1 retries = x at hfirst ⊢
    generalize triesFrom slave retries.toNat n = course at hfirst ⊢
    cases hfirst with
    | @on acked n _ hret hat =>
      cases acked with
      | false =>
        have hne : x.1 ≠ 1 := fun heq => by simp [Answers, heq] at hret
        rw [if_pos hne]
        exact .on rfl hat
      | true =>
        have hone : ¬ x.1 ≠ 1 := fun hne => hne hret
        rw [if_neg hone]
        exact hat.lowAddress slave hretries hnext
    | jammed hret hjam =>
      rw [if_pos hret]
      exact .jammed hbad hjam
    | dead hdead =>
      by_cases hret : x.1 ≠ 1
      · rw [if_pos hret]
        exact .dead hdead
      · rw [if_neg hret]
        exact .dead (hdead.grows (grows_lowAddress slave retries m _))

/-- What a part answers that has to move a number of bytes. -/
def Moved (total : Int) (acked : Bool) (ret : Int) : Prop :=
  if acked then ret = total else 0 ≤ ret ∧ ret < total

theorem At.sendBytes {l : List UInt8} (hbytes : 0 ≤ bytes)
    (h : At P s n received (expectAllSent l next)) :
    Goes P received next (Moved (bytes + l.length)) (· < 0) (allSentFrom slave l.length n)
      (s.sendBytes slave l bytes) := by
  induction l generalizing s n bytes with
  | nil =>
    have hmoved : Moved (bytes + ([] : List UInt8).length) true bytes := by
      simp [Moved]
    exact .on hmoved h
  | cons data l ih =>
    have hfirst := h.writeb slave
    rw [length_cons]
    unfold allSentFrom Bus.sendBytes
    dsimp only
    generalize s.i2cWriteb slave data = x at hfirst ⊢
    generalize sentFrom slave n = course at hfirst ⊢
    cases hfirst with
    | @on acked n _ hret hat =>
      cases acked with
      | true =>
        have hone : 0 < x.1 := hret ▸ Int.one_pos
        have htotal : bytes + ((l.length + 1 : Nat) : Int) = bytes + 1 + l.length := by omega
        rw [if_pos hone, htotal]
        exact ih (by omega) hat
      | false =>
        have hzero : x.1 = 0 := hret
        have hmoved : Moved (bytes + ((l.length + 1 : Nat) : Int)) false 0 :=
          ⟨Int.le_refl 0, by omega⟩
        rw [hzero]
        exact .on hmoved hat
    | jammed hret hjam =>
      have hneg : ¬ 0 < x.1 := fun hpos => Int.lt_asymm hpos hret
      have hne : x.1 ≠ 0 := fun heq => absurd (heq ▸ hret) (Int.lt_irrefl 0)
      rw [if_neg hneg, if_neg hne]
      exact .jammed hret hjam
    | dead hdead =>
      refine .dead ?_
      split
      · exact hdead.grows (grows_sendBytes slave l _ _)
      · split <;> exact hdead

theorem shift_byte (data : UInt8) (b : Bool) :
    (if b then data <<< 1 ||| 1 else data <<< 1) = 2 * data + if b then 1 else 0 := by
  obtain ⟨v⟩ := data
  revert v b
  decide

/-- The bits of a byte are read with SDA left high. -/
theorem At.readBits {next : UInt8 → Grammar} (k : Nat)
    (h : At P s n received (expectByte k data next)) (hsda : s.lines.sda = true) :
    (InTime slave n k ∧ (s.readBits slave k data).1.1 = 0 ∧
      At P (s.readBits slave k data).2 (n + k) received (next (s.readBits slave k data).1.2) ∧
      (s.readBits slave k data).2.lines.sda = true) ∨
    (¬ InTime slave n k ∧ (s.readBits slave k data).1.1 < 0 ∧
      Jammed P (s.readBits slave k data).2) := by
  induction k generalizing s n data with
  | zero => exact .inl ⟨fun j hj => absurd hj (Nat.not_lt_zero j), rfl, h, hsda⟩
  | succ k ih =>
    obtain ⟨hclock, hsda'⟩ := h.clock slave hsda
    simp only [expectByte, Bool.true_and] at hclock
    rw [← shift_byte] at hclock
    unfold Bus.readBits
    dsimp only
    simp only [sclH_fst_neg, h.releases_eq, sclH_snd, inTime_succ, h.getSda slave hsda]
    cases hlate : (slave n).late with
    | false =>
      have h' := ih hclock hsda'
      rw [Nat.add_assoc, Nat.add_comm 1 k] at h'
      simpa using h'
    | true =>
      have htimeout : -rtEtimeout < 0 := by decide
      refine .inr ⟨fun hin => Bool.noConfusion hin.1, htimeout, ?_⟩
      exact h.late slave fun w => ⟨rfl, rfl⟩

theorem At.sendAckOrNack {next : Grammar} {last : Bool}
    (h : At P s n received (expectReadAck last next)) (hsda : s.lines.sda = true) :
    ((slave n).late = false ∧ (s.i2cSendAckOrNack slave !last).1 = 0 ∧
      At P (s.i2cSendAckOrNack slave !last).2 (n + 1) received next) ∨
    ((slave n).late = true ∧ (s.i2cSendAckOrNack slave !last).1 < 0 ∧
      Jammed P (s.i2cSendAckOrNack slave !last).2) := by
  have hset : At P (if !last then s.setSda false else s) n received (expectReadAck last next) := by
    split
    · exact h.setSda false
    · exact h
  have hsda' : (if !last then s.setSda false else s).lines.sda = last := by
    cases last
    · exact h.sda_setSda false
    · exact hsda
  unfold i2cSendAckOrNack
  dsimp only
  generalize (if !last then s.setSda false else s) = s' at hset hsda' ⊢
  simp only [sclH_fst_neg, hset.releases_eq, sclH_snd]
  cases hlate : (slave n).late with
  | false =>
    have hclock := (hset.clock slave hsda').1
    simp only [expectReadAck, if_true] at hclock
    exact .inl ⟨rfl, rfl, hclock⟩
  | true =>
    have htimeout : -rtEtimeout < 0 := by decide
    exact .inr ⟨rfl, htimeout, hset.late slave fun w => ⟨rfl, rfl⟩⟩

theorem At.receive {next : Grammar} (h : At P s n received next) (data : UInt8) :
    At P (s.receive data) n (received ++ [data]) next :=
  ⟨h.low, h.reads, h.releases_eq, congrArg (· ++ [data]) h.received_eq⟩

variable {next : List UInt8 → Grammar} {k : Nat}

theorem At.recvBytes (bytes : Int) (h : At P s n received (expectReceived k received next)) :
    (∃ n' received', readFrom slave k n = some n' ∧
      (s.recvBytes slave false k bytes).1 = bytes + k ∧
      At P (s.recvBytes slave false k bytes).2 n' received' (next received')) ∨
    (readFrom slave k n = none ∧ Jammed P (s.recvBytes slave false k bytes).2) := by
  induction k generalizing s n received bytes with
  | zero => exact .inl ⟨n, received, rfl, (Int.add_zero bytes).symm, h⟩
  | succ k ih =>
    have hbyte := (h.setSda true).readBits slave 8 (h.sda_setSda true)
    unfold readFrom Bus.recvBytes i2cReadb
    dsimp only
    generalize (s.setSda true).readBits slave 8 0 = x at hbyte ⊢
    obtain ⟨hin, hret, hat, hsda⟩ | ⟨hin, hneg, hjam⟩ := hbyte
    · have hnonneg : ¬ x.1.1 < 0 := hret ▸ Int.lt_irrefl 0
      have hack := (hat.receive x.1.2).sendAckOrNack slave hsda
      have hlast : (!decide (k = 0)) = decide (k ≠ 0) := by simp
      rw [hlast] at hack
      simp only [if_neg hnonneg, if_neg Bool.false_ne_true]
      generalize (x.2.receive x.1.2).i2cSendAckOrNack slave (decide (k ≠ 0)) = y at hack ⊢
      obtain ⟨hlate, hzero, hnext⟩ | ⟨hlate, hneg, hjam⟩ := hack
      · have hnonneg' : ¬ y.1 < 0 := hzero ▸ Int.lt_irrefl 0
        have htotal : bytes + ((k + 1 : Nat) : Int) = bytes + 1 + k := by omega
        rw [if_pos ((inTime_nine slave n).mpr ⟨hin, hlate⟩), if_neg hnonneg', htotal]
        exact ih (bytes + 1) hnext
      · have hnot : ¬ InTime slave n 9 := fun hn =>
          Bool.noConfusion (hlate.symm.trans ((inTime_nine slave n).mp hn).2)
        rw [if_neg hnot, if_pos hneg]
        exact .inr ⟨rfl, hjam⟩
    · rw [if_neg fun hn => hin ((inTime_nine slave n).mp hn).1, if_pos hneg]
      exact .inr ⟨rfl, hjam⟩

/-- A bit is one too many where the master has to acknowledge. -/
theorem At.readBit {next : Grammar} (k : Nat) (data : UInt8)
    (h : At P s n received (expectReadAck false next)) (hsda : s.lines.sda = true) :
    ((s.readBits slave (k + 1) data).1.1 < 0 ∧ Jammed P (s.readBits slave (k + 1) data).2) ∨
    Dead P (s.readBits slave (k + 1) data).2 := by
  unfold Bus.readBits
  dsimp only
  simp only [sclH_fst_neg, h.releases_eq, sclH_snd]
  cases hlate : (slave n).late with
  | false =>
    have hdead : Dead P (s.release slave).sclL := fun w => (h.clock slave hsda).1.reads w
    exact .inr (hdead.grows (grows_readBits slave k _ _))
  | true =>
    have htimeout : -rtEtimeout < 0 := by decide
    exact .inl ⟨htimeout, h.late slave fun w => ⟨rfl, rfl⟩⟩

/-- A byte that was read and gets no acknowledge slot is followed by a bit too much, a START or
a STOP. -/
theorem At.recvMore {next : Grammar} (h : At P s n received (expectReadAck (k = 0) next)) :
    Jammed P (s.recvBytes slave true k bytes).2 := by
  cases k with
  | zero => exact h.jammed fun w => ⟨rfl, rfl⟩
  | succ k =>
    have hbit := (h.setSda true).readBit slave 7 0 (h.sda_setSda true)
    unfold Bus.recvBytes i2cReadb
    dsimp only
    generalize (s.setSda true).readBits slave 8 0 = x at hbit ⊢
    obtain ⟨hneg, hjam⟩ | hdead := hbit
    · rw [if_pos hneg]
      exact hjam
    · have hdead' : Dead P (x.2.receive x.1.2) := hdead
      split
      · exact hdead.jammed
      · exact (hdead'.grows (grows_recvBytes slave true k _ _)).jammed

theorem At.recvUnacked
    (h : At P s n received (expectReceived (k + 1) received next)) :
    Jammed P (s.recvBytes slave true (k + 1) bytes).2 := by
  have hbyte := (h.setSda true).readBits slave 8 (h.sda_setSda true)
  unfold Bus.recvBytes i2cReadb
  dsimp only
  generalize (s.setSda true).readBits slave 8 0 = x at hbyte ⊢
  obtain ⟨hin, hret, hat, hsda⟩ | ⟨hin, hneg, hjam⟩ := hbyte
  · have hnonneg : ¬ x.1.1 < 0 := hret ▸ Int.lt_irrefl 0
    rw [if_neg hnonneg, if_pos rfl]
    exact (hat.receive x.1.2).recvMore slave
  · rw [if_pos hneg]
    exact hjam

/-- The bytes of a message behind its address: what they are, and that they are not lost. -/
theorem At.dataRead (hrd : m.rd = true)
    (h : At P s n received (expectReceived m.buf.length received next)) :
    (∃ n' received', dataFrom slave m n = some (true, n') ∧
      (s.i2cRecvBytes slave m).1 = m.buf.length ∧
      At P (s.i2cRecvBytes slave m).2 n' received' (next received')) ∨
    (dataFrom slave m n = none ∧ Jammed P (s.i2cRecvBytes slave m).2) := by
  unfold dataFrom i2cRecvBytes
  rw [if_pos hrd]
  cases hack : m.noReadAck with
  | false =>
    obtain ⟨n', received', hcourse, hret, hat⟩ | ⟨hcourse, hjam⟩ := h.recvBytes slave 0
    · rw [hcourse, hret]
      exact .inl ⟨n', received', rfl, Int.zero_add _, hat⟩
    · rw [hcourse]
      exact .inr ⟨rfl, hjam⟩
  | true =>
    by_cases hbuf : m.buf = []
    · rw [if_neg fun hn => hn.2 hbuf]
      rw [hbuf] at h ⊢
      exact .inl ⟨n, received, rfl, rfl, h⟩
    · obtain ⟨k, hk⟩ := Nat.exists_eq_succ_of_ne_zero (length_pos_iff.mpr hbuf).ne'
      rw [if_pos ⟨rfl, hbuf⟩]
      rw [hk] at h ⊢
      exact .inr ⟨rfl, h.recvUnacked slave⟩

theorem Jammed.xferMsgs (h : Jammed P s) (retries : UInt32) (msgs : List Msg) (i : Nat) :
    Jammed P (s.xferMsgs slave retries msgs (i + 1)).2 := by
  cases msgs with
  | nil => exact h
  | cons m ms =>
    have hgrows := grows_xferMsgs_cons slave retries m ms (i + 1) s fun s =>
      grows_xferMsgs slave retries ms _ s
    exact ((h.restart slave).grows hgrows).jammed

/-- What the loop of `i2c_bit_xfer` answers, with the number of messages. -/
def Finished (num : Nat) (done : Bool) (ret : Int) : Prop :=
  if done then ret = num else ret < 0

theorem xferMsgs_spec (hretries : retries.toNat < 2 ^ 31) {msgs : List Msg}
    (hne : i = 0 → msgs ≠ [])
    (hstart : At P (if i = 0 then s.i2cStart else s.i2cRestart slave) n received
      fun w => expectMessages retries.toNat msgs received (.start :: w))
    (hend : i ≠ 0 → ∃ n, At P s n received (expectMessages retries.toNat msgs received)) :
    (∃ done n' received', messagesFrom slave retries.toNat msgs n = some done ∧
      Finished (i + msgs.length) done (s.xferMsgs slave retries msgs i).1 ∧
      At P (s.xferMsgs slave retries msgs i).2 n' received' (expectStop done received')) ∨
    (messagesFrom slave retries.toNat msgs n = none ∧
      Jammed P (s.xferMsgs slave retries msgs i).2) := by
  induction msgs generalizing i s n received with
  | nil =>
    obtain ⟨n', hat⟩ := hend fun hi => hne hi rfl
    exact .inl ⟨true, n', received, rfl, rfl, hat⟩
  | cons m ms ih =>
    unfold messagesFrom Bus.xferMsgs
    dsimp only
    generalize (if i = 0 then s.i2cStart else s.i2cRestart slave) = s' at hstart ⊢
    have hfirst := hstart.bitSendAddress slave hretries fun w => rfl
    generalize s'.i2cBitSendAddress slave retries m = x at hfirst ⊢
    generalize addressFrom slave retries.toNat m n = course at hfirst ⊢
    cases hfirst with
    | @on acked n _ hret hat =>
      cases acked with
      | false =>
        have hne : x.1 ≠ 0 := fun heq => by simp [Sent, rtEio, heq] at hret
        have hneg : x.1 < 0 := by
          rw [show x.1 = -rtEio from hret]
          decide
        rw [if_pos hne]
        exact .inl ⟨false, n, received, rfl, hneg, hat⟩
      | true =>
        have hzero : ¬ x.1 ≠ 0 := fun hne => hne hret
        rw [if_neg hzero]
        have htotal : i + (ms.length + 1) = i + 1 + ms.length := by omega
        have hnext : ∀ {s : Bus} {n : Nat} {received : List UInt8},
            At P s n received (expectMessages retries.toNat ms received) → _ := fun h =>
          ih (i := i + 1) (fun hzero => absurd hzero (Nat.succ_ne_zero i)) (h.restart slave)
            fun _ => ⟨_, h⟩
        rw [length_cons, htotal]
        cases hrd : m.rd with
        | true =>
          simp only [hrd, if_true] at hat
          obtain ⟨n', received', hcourse, hmoved, hdata⟩ | ⟨hcourse, hjam⟩ :=
            hat.dataRead slave hrd
          · have hfull : ¬ (x.2.i2cRecvBytes slave m).1 < m.buf.length := by
              rw [hmoved]
              exact Int.lt_irrefl _
            simp only [hcourse, bind_eq_bind, bind_some, if_true, if_neg hfull]
            exact hnext hdata
          · simp only [hcourse, bind_eq_bind, bind_some, if_true, bind_none]
            refine .inr ⟨trivial, ?_⟩
            split
            · exact hjam
            · exact hjam.xferMsgs slave retries ms i
        | false =>
          simp only [hrd, if_neg Bool.false_ne_true] at hat
          have hsent := hat.sendBytes slave (Int.le_refl 0)
          have hcourse : dataFrom slave m n = allSentFrom slave m.buf.length n := by
            unfold dataFrom
            rw [hrd, if_neg Bool.false_ne_true]
          simp only [hcourse, bind_eq_bind, bind_some, if_true,
            if_neg Bool.false_ne_true]
          unfold i2cSendBytes
          generalize x.2.sendBytes slave m.buf 0 = y at hsent ⊢
          generalize allSentFrom slave m.buf.length n = course at hsent ⊢
          cases hsent with
          | @on acked n' _ hmoved hdata =>
            rw [Int.zero_add] at hmoved
            cases acked with
            | true =>
              have hfull : ¬ y.1 < m.buf.length := by
                rw [show y.1 = m.buf.length from hmoved]
                exact Int.lt_irrefl _
              rw [if_neg hfull]
              exact hnext hdata
            | false =>
              have hshort : 0 ≤ y.1 ∧ y.1 < m.buf.length := hmoved
              have hneg : -rtError < 0 := by decide
              rw [if_pos hshort.2, if_pos hshort.1]
              exact .inl ⟨false, n', received, rfl, hneg, hdata⟩
          | jammed _ hjam =>
            refine .inr ⟨rfl, ?_⟩
            split
            · exact hjam
            · exact hjam.xferMsgs slave retries ms i
          | dead hdead =>
            refine .inr ⟨rfl, ?_⟩
            split
            · exact hdead.jammed
            · exact hdead.jammed.xferMsgs slave retries ms i
    | jammed hret hjam =>
      rw [if_pos hret]
      exact .inr ⟨rfl, hjam⟩
    | dead hdead =>
      refine .inr ⟨rfl, Dead.jammed ?_⟩
      split
      · exact hdead
      · split
        · have h := hdead.grows (grows_recvBytes slave m.noReadAck m.buf.length 0 _)
          split
          · exact h
          · exact h.grows (grows_xferMsgs slave retries ms _ _)
        · have h := hdead.grows (grows_sendBytes slave m.buf 0 _)
          split
          · exact h
          · exact h.grows (grows_xferMsgs slave retries ms _ _)

/-- What is driven is a transaction of the messages, with what was received, and the number of
messages is returned exactly where every byte was transferred and acknowledged. -/
def Transfers (retries : UInt32) (msgs : List Msg) : Prop :=
  ∃ done, transaction retries.toNat msgs (idle.i2cBitXfer slave retries msgs).2.symbols =
      some (done, (idle.i2cBitXfer slave retries msgs).2.received) ∧
    ((idle.i2cBitXfer slave retries msgs).1 = msgs.length ↔ done = true) ∧
    (done = false → (idle.i2cBitXfer slave retries msgs).1 < 0)

omit slave in
theorem at_start (P : Grammar) (next : Grammar) (h : ∀ w, P (.start :: w) = next w) :
    At P idle.i2cStart 0 [] next :=
  ⟨⟨false, rfl⟩, h, rfl, rfl⟩

theorem At.stop {next : Grammar} (h : At P s n received next) :
    P (s.i2cStop slave).symbols = next [.stop] := by
  obtain ⟨sda, hlow⟩ := h.low
  have hsymbols : (s.i2cStop slave).symbols = s.symbols ++ [.stop] := by
    unfold symbols i2cStop
    rw [lines_setSda, sclH_snd, lines_release, lines_setSda, hlow]
    cases sda <;> simp [Lines.drive]
  rw [hsymbols]
  exact h.reads _

theorem i2cBitXfer_cons (retries : UInt32) (m : Msg) (ms : List Msg) :
    idle.i2cBitXfer slave retries (m :: ms) =
      ((idle.xferMsgs slave retries (m :: ms) 0).1,
        (idle.xferMsgs slave retries (m :: ms) 0).2.i2cStop slave) :=
  if_neg (cons_ne_nil m ms)

theorem not_transfers_of_jammed {ms : List Msg} (h : Jammed (transaction retries.toNat (m :: ms))
      (idle.xferMsgs slave retries (m :: ms) 0).2) : ¬ Transfers slave retries (m :: ms) := by
  rintro ⟨done, hdone, -⟩
  have hdead := h.stop slave []
  rw [append_nil] at hdead
  rw [i2cBitXfer_cons, hdead] at hdone
  exact some_ne_none _ hdone.symm

omit slave in
theorem expectTries_jams (b : Bool) (bits : List Bool) (r : Nat) (next : Bool → Grammar)
    (w : List Symbol) : expectTries (b :: bits) r next (.start :: w) = none ∧
      expectTries (b :: bits) r next (.stop :: w) = none := by
  cases r <;> exact ⟨rfl, rfl⟩

omit slave in
theorem expectAddress_jams (r : Nat) (m : Msg) (next : Bool → Grammar) (w : List Symbol) :
    expectAddress r m next (.start :: w) = none ∧ expectAddress r m next (.stop :: w) = none := by
  unfold expectAddress
  split
  · exact expectTries_jams true _ r _ w
  · exact expectTries_jams _ _ r next w

/-- Where the retries cannot be counted, no byte is sent. -/
theorem jammed_of_le (h : 2 ^ 31 ≤ retries.toNat) (m : Msg) (ms : List Msg) :
    Jammed (transaction retries.toNat (m :: ms)) (idle.xferMsgs slave retries (m :: ms) 0).2 := by
  have hnone : ∀ data s, i2cSendAddress slave data retries s = (0, s) := fun data s =>
    if_neg (Nat.not_lt.mpr h)
  have haddress : ∀ s, i2cBitSendAddress slave retries m s = (-rtEio, s) := by
    intro s
    unfold i2cBitSendAddress
    simp only [hnone]
    split <;> rfl
  have hxfer : (idle.xferMsgs slave retries (m :: ms) 0).2 = idle.i2cStart := by
    unfold Bus.xferMsgs
    simp only [haddress]
    rfl
  rw [hxfer]
  exact (at_start (transaction retries.toNat (m :: ms)) _ fun _ => rfl).jammed fun w =>
    expectAddress_jams retries.toNat m _ w

/-- An I2C transfer by the bits drives a transaction of its messages, and returns whether all of
it was transferred, exactly where nothing disturbs it. -/
theorem transfers_iff (retries : UInt32) (msgs : List Msg) :
    Transfers slave retries msgs ↔ Undisturbed slave retries msgs := by
  cases msgs with
  | nil =>
    refine ⟨fun _ => .inl rfl, fun _ => ⟨true, rfl, ?_, fun h => Bool.noConfusion h⟩⟩
    exact ⟨fun _ => rfl, fun _ => rfl⟩
  | cons m ms =>
    by_cases hretries : retries.toNat < 2 ^ 31
    · have hstart := at_start (transaction retries.toNat (m :: ms))
        (fun w => expectMessages retries.toNat (m :: ms) [] (.start :: w)) fun _ => rfl
      have hspec := xferMsgs_spec slave hretries (i := 0) (fun _ => List.cons_ne_nil m ms) hstart
        fun hzero => absurd rfl hzero
      obtain ⟨done, n', received', hcourse, hfinished, hat⟩ | ⟨hcourse, hjam⟩ := hspec
      · refine iff_of_true ⟨done, ?_⟩ (.inr ⟨hretries, Option.isSome_iff_exists.mpr ⟨done, hcourse⟩⟩)
        rw [i2cBitXfer_cons, hat.stop slave]
        have hreceived : ((idle.xferMsgs slave retries (m :: ms) 0).2.i2cStop slave).received =
            received' := hat.received_eq
        rw [Nat.zero_add] at hfinished
        rw [hreceived]
        refine ⟨rfl, ?_⟩
        unfold Finished at hfinished
        cases done with
        | true => exact ⟨⟨fun _ => rfl, fun _ => hfinished⟩, fun hfalse => Bool.noConfusion hfalse⟩
        | false =>
          have hneg : (idle.xferMsgs slave retries (m :: ms) 0).1 < 0 := hfinished
          exact ⟨⟨fun hret => by omega, fun hfalse => Bool.noConfusion hfalse⟩, fun _ => hneg⟩
      · refine iff_of_false (not_transfers_of_jammed slave hjam) ?_
        rintro (hnil | ⟨-, hsome⟩)
        · exact List.cons_ne_nil m ms hnil
        · rw [hcourse] at hsome
          exact Bool.noConfusion hsome
    · refine iff_of_false (not_transfers_of_jammed slave (jammed_of_le slave (by omega) m ms)) ?_
      rintro (hnil | ⟨hlt, -⟩)
      · exact List.cons_ne_nil m ms hnil
      · exact hretries hlt

end

/-- A read of a byte from a ten bit address. -/
def tenBitRead : Msg := ⟨0x2a5, true, true, false, [0], by decide⟩

/-- A slave with a ten bit address which does not acknowledge the byte behind the repeated START,
and a slave which holds SCL low in the second bit of a byte. -/
def nacksAgain (n : Nat) : Answer := ⟨false, n ≠ 8 ∧ n ≠ 17⟩

def stretches (n : Nat) : Answer := ⟨n = 10, n ≠ 8⟩

/-- A write of a byte to a seven bit address. -/
def writeOne : Msg := ⟨0x50, false, false, false, [0xff], by decide⟩

/-- The byte behind a repeated START is tried again behind a STOP, and a byte that the slave does
not let pass is given up with SCL released, so that the STOP makes a START. -/
theorem not_transfers :
    ¬ Transfers nacksAgain 1 [tenBitRead] ∧ ¬ Transfers stretches 0 [writeOne] := by
  have hagain : transaction 1 [tenBitRead]
      (idle.i2cBitXfer nacksAgain 1 [tenBitRead]).2.symbols = none := by decide +kernel
  have hlate : transaction 0 [writeOne]
      (idle.i2cBitXfer stretches 0 [writeOne]).2.symbols = none := by decide +kernel
  refine ⟨?_, ?_⟩
  · rintro ⟨done, h, -⟩
    exact Option.some_ne_none _ (h.symm.trans hagain)
  · rintro ⟨done, h, -⟩
    exact Option.some_ne_none _ (h.symm.trans hlate)

end Bus

end RtKernel.Drivers.I2c

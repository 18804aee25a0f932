import Mathlib.Data.UInt

/-!
# The lines of an I2C bus

A master drives SDA and releases or pulls down SCL. What a bus carries is read off the lines:
a change of SDA while SCL is high is a START or a STOP, and a clock pulse without such a change
is a bit. The words of the bus that carry a list of messages are given as a grammar, each part
of it with what may follow.
-/

open List

namespace RtKernel.Drivers.I2c

/-- One thing a master does to the lines. `sclH` has the level that the slave gives SDA while
SCL is released. -/
inductive Drive where
  | sda (level : Bool)
  | sclL
  | sclH (slave : Bool)
  deriving DecidableEq, Repr

/-- What a bus carries. A bit has the level that is driven and the level of the line. -/
inductive Symbol where
  | start
  | stop
  | bit (driven line : Bool)
  deriving DecidableEq, Repr

/-- The driven lines. `clocked` is there while SCL is high and SDA has not changed. -/
structure Lines where
  sda : Bool
  scl : Bool
  clocked : Option Bool
  symbols : List Symbol
  deriving DecidableEq, Repr

namespace Lines

/-- Both lines of a bus that nobody uses are high. -/
def idle : Lines := ⟨true, true, none, []⟩

def drive (l : Lines) : Drive → Lines
  | .sda level =>
    if level = l.sda then l
    else if l.scl then
      ⟨level, true, none, l.symbols ++ [if level then .stop else .start]⟩
    else ⟨level, false, none, l.symbols⟩
  | .sclH slave => if l.scl then l else ⟨l.sda, true, some slave, l.symbols⟩
  | .sclL =>
    if l.scl then
      match l.clocked with
      | some slave => ⟨l.sda, false, none, l.symbols ++ [.bit l.sda (l.sda && slave)]⟩
      | none => ⟨l.sda, false, none, l.symbols⟩
    else l

variable {l : Lines} {b slave : Bool}

theorem drive_sda_low (h : l.scl = false) (hc : l.clocked = none) :
    l.drive (.sda b) = ⟨b, false, none, l.symbols⟩ := by
  obtain ⟨sda, scl, clocked, symbols⟩ := l
  subst h hc
  by_cases hb : b = sda
  · simp [drive, hb]
  · simp [drive, hb]

theorem drive_sclH_low (h : l.scl = false) :
    l.drive (.sclH slave) = ⟨l.sda, true, some slave, l.symbols⟩ := by
  simp [drive, h]

/-- Nothing is taken back of what a bus has carried. -/
theorem symbols_prefix_drive (l : Lines) (d : Drive) : l.symbols <+: (l.drive d).symbols := by
  unfold drive
  cases d with
  | sda level =>
    dsimp only
    split
    · exact prefix_refl _
    · split
      · exact prefix_append _ _
      · exact prefix_refl _
  | sclH slave =>
    dsimp only
    split <;> exact prefix_refl _
  | sclL =>
    dsimp only
    split
    · split
      · exact prefix_append _ _
      · exact prefix_refl _
    · exact prefix_refl _

end Lines

/-- The lines after a run of drives. -/
def decode (trace : List Drive) : Lines := trace.foldl Lines.drive Lines.idle

@[simp] theorem decode_append (trace : List Drive) (d : Drive) :
    decode (trace ++ [d]) = (decode trace).drive d := by
  simp [decode]

/-- A message, with the flags that a bus has to know of. Its length fits into `len`. -/
structure Msg where
  addr : UInt16
  addr10bit : Bool
  rd : Bool
  noReadAck : Bool
  buf : List UInt8
  fits : buf.length < 2 ^ 16

/-- The bits of a byte, the most significant first. -/
def msbFirst (data : UInt8) : List Bool := [7, 6, 5, 4, 3, 2, 1, 0].map data.toNat.testBit

namespace Msg

/-- The seven bits of an address, and the direction. -/
def sevenBits (m : Msg) : List Bool := [6, 5, 4, 3, 2, 1, 0].map m.addr.toNat.testBit ++ [m.rd]

/-- The mark of a ten bit address with its two highest bits, and the direction. -/
def highBits (m : Msg) (rd : Bool) : List Bool :=
  [true, true, true, true, false] ++ [9, 8].map m.addr.toNat.testBit ++ [rd]

/-- The rest of a ten bit address. -/
def lowBits (m : Msg) : List Bool := [7, 6, 5, 4, 3, 2, 1, 0].map m.addr.toNat.testBit

end Msg

/-- A part of the grammar: what it makes of the symbols of a bus, which is whether every byte
was transferred and acknowledged, with the bytes that were received. -/
abbrev Grammar := List Symbol → Option (Bool × List UInt8)

def expectBits : List Bool → Grammar → Grammar
  | [], next, w => next w
  | b :: bs, next, .bit driven _ :: w => if driven = b then expectBits bs next w else none
  | _ :: _, _, _ => none

/-- The slot in which the slave acknowledges. -/
def expectAck (next : Bool → Grammar) : Grammar
  | .bit true line :: w => next (!line) w
  | _ => none

/-- A byte that is sent, and its acknowledge slot. -/
def expectSent (bits : List Bool) (next : Bool → Grammar) : Grammar :=
  expectBits bits (expectAck next)

/-- After a byte that was not acknowledged it is tried again, behind a STOP and a START. -/
def expectTries (bits : List Bool) : Nat → (Bool → Grammar) → Grammar
  | 0, next => expectSent bits next
  | n + 1, next => expectSent bits fun
    | true => next true
    | false => fun
      | .stop :: .start :: w => expectTries bits n next w
      | _ => none

def expectStart (next : Grammar) : Grammar
  | .start :: w => next w
  | _ => none

/-- The address of a message. A read from a ten bit address has its first byte once more behind
a repeated START. -/
def expectAddress (retries : Nat) (m : Msg) (next : Bool → Grammar) : Grammar :=
  if m.addr10bit then
    expectTries (m.highBits false) retries fun
      | false => next false
      | true => expectSent m.lowBits fun
        | false => next false
        | true =>
          if m.rd then expectStart (expectSent (m.highBits true) next) else next true
  else expectTries m.sevenBits retries next

/-- The bits of a byte that the slave sends. -/
def expectByte : Nat → UInt8 → (UInt8 → Grammar) → Grammar
  | 0, data, next, w => next data w
  | n + 1, data, next, .bit true line :: w =>
    expectByte n (2 * data + if line then 1 else 0) next w
  | _ + 1, _, _, _ => none

/-- The slot in which the master acknowledges a byte, which it does not do for the last. -/
def expectReadAck (last : Bool) (next : Grammar) : Grammar
  | .bit driven _ :: w => if driven = last then next w else none
  | _ => none

def expectReceived : Nat → List UInt8 → (List UInt8 → Grammar) → Grammar
  | 0, received, next => next received
  | n + 1, received, next =>
    expectByte 8 0 fun data =>
      expectReadAck (n = 0) (expectReceived n (received ++ [data]) next)

def expectAllSent : List UInt8 → (Bool → Grammar) → Grammar
  | [], next => next true
  | data :: rest, next => expectSent (msbFirst data) fun
    | true => expectAllSent rest next
    | false => next false

/-- A STOP, and nothing behind it. -/
def expectStop (done : Bool) (received : List UInt8) : Grammar
  | [.stop] => some (done, received)
  | _ => none

def expectMessages (retries : Nat) : List Msg → List UInt8 → Grammar
  | [], received => expectStop true received
  | m :: ms, received =>
    expectStart (expectAddress retries m fun
      | false => expectStop false received
      | true =>
        if m.rd then
          expectReceived m.buf.length received fun received => expectMessages retries ms received
        else expectAllSent m.buf fun
          | true => expectMessages retries ms received
          | false => expectStop false received)

/-- What a bus carries for a list of messages. Nothing is carried for no message. -/
def transaction (retries : Nat) : List Msg → Grammar
  | [], w => if w = [] then some (true, []) else none
  | m :: ms, w => expectMessages retries (m :: ms) [] w

end RtKernel.Drivers.I2c

import RtKernel.Core.Run
import RtKernel.Ymodem.Packet

/-!
# A YMODEM session

A sender and a receiver work over two channels that lose nothing and keep the order, but take
their time. Either side reads where there is something to read, and the waits of the handshake
and of the receiver may run out where there is not. The callbacks are those of the commands
`sy` and `ry`.
-/

namespace RtKernel.Ymodem

def rymErrTmo : Int := 0x70

def rymErrCode : Int := 0x71

def rymErrSeq : Int := 0x72

def rymErrCrc : Int := 0x73

def rymErrDsz : Int := 0x74

def rymErrCan : Int := 0x75

def rymErrAck : Int := 0x76

def rtEnomem : Int := 5

/-- What the two commands are called with. `ms100` is a tenth of a second in ticks. -/
structure Setup where
  name : List UInt8
  file : List UInt8
  sendTimeout : Nat
  recvTimeout : Nat
  ms100 : UInt32
  deriving DecidableEq, Repr

/-- Where the sender reads next. A data packet has the number of the packet, the rest of the file
and whether it was the last. -/
inductive Sender where
  | idle
  | handshake (i : Nat)
  | ack
  | c
  | data (index : UInt32) (rest : List UInt8) (finishing : Bool)
  | nak
  | finAck
  | finC
  | returned (err : Int)
  deriving DecidableEq, Repr

namespace Sender

/-- The waits of the handshake that have run out. -/
def tries : Sender → Nat
  | .handshake i => i
  | _ => 0

/-- The loop of `_rym_do_send_trans` sends the next block. -/
def sendBlock (index : UInt32) (file : List UInt8) : Sender × List UInt8 :=
  let (block, rest, finishing) := sendData file
  (.data index rest finishing, packet rymCodeSoh index.toUInt8 block)

/-- What the sender does with a byte, and what it writes. `opens` is whether the file opens. -/
def read (c : Setup) (opens : Bool) (code : UInt8) : Sender → Option (Sender × List UInt8)
  | .handshake i =>
    if code = rymCodeC then
      if opens then some (.ack, packet rymCodeSoh 0 (beginBlock c.name c.file.length))
      else some (.returned (-rymErrCode), [])
    else if i + 1 < c.sendTimeout then some (.handshake (i + 1), [])
    else some (.returned (-rymErrTmo), [])
  | .ack => if code = rymCodeAck then some (.c, []) else some (.returned (-rymErrAck), [])
  | .c =>
    if code = rymCodeC then some (sendBlock 1 c.file) else some (.returned (-rymErrAck), [])
  | .data index rest finishing =>
    if code = rymCodeAck then
      if finishing then some (.nak, [rymCodeEot]) else some (sendBlock (index + 1) rest)
    else some (.returned (-rymErrAck), [])
  | .nak =>
    if code = rymCodeNak then some (.finAck, [rymCodeEot]) else some (.returned (-rymErrAck), [])
  | .finAck => if code = rymCodeAck then some (.finC, []) else some (.returned (-rymErrAck), [])
  | .finC =>
    if code = rymCodeC then some (.returned 0, packet rymCodeSoh 0 zeroBlock)
    else some (.returned (-rymErrAck), [])
  | .idle | .returned _ => none

/-- A wait of the handshake runs out. -/
def timeout (c : Setup) : Sender → Option Sender
  | .handshake i =>
    if i + 1 < c.sendTimeout then some (.handshake (i + 1)) else some (.returned (-rymErrTmo))
  | _ => none

end Sender

/-- What the receiver reads next, with the size of a payload that is on its way. `established`
is the stage before the first data packet. -/
inductive Receiver where
  | idle
  | handshake (i : Nat)
  | begin (size : Nat)
  | code (established : Bool)
  | data (established : Bool) (size : Nat)
  | eot
  | finCode
  | fin
  | returned (err : Int)
  deriving DecidableEq, Repr

namespace Receiver

/-- The number of bytes that are read at once. -/
def wants : Receiver → Nat
  | .begin size | .data _ size => size + 4
  | .fin => 132
  | _ => 1

/-- The first packet is about to be read. -/
def begins : Receiver → Bool
  | .begin _ => true
  | _ => false

/-- `_rym_do_trans` begins. -/
def trans : Receiver × List UInt8 := (.code true, [rymCodeAck, rymCodeC])

/-- One more turn of the loop of `_rym_do_handshake`, if there is one. -/
def again (c : Setup) (i : Nat) : Receiver × List UInt8 :=
  if i + 1 < c.recvTimeout then (.handshake (i + 1), [rymCodeC]) else (.returned (-rymErrTmo), [])

/-- The checks of a packet that has the number 0. -/
def checkFirst (data : List UInt8) (size : Nat) : Option Int :=
  if data.getD 0 0 ≠ 0 ∨ data.getD 1 0 ≠ 0xff then some (-rymErrSeq)
  else if recvCrc data size ≠ crc16 (payload data size) then some (-rymErrCrc)
  else none

/-- What the receiver does with the bytes it wants, what it writes, and the block that is given to
`on_data`. `opens` is whether the file for the received data opens. -/
def read (c : Setup) (opens : Bool) (data : List UInt8) :
    Receiver → Option ((Receiver × List UInt8) × Option (List UInt8))
  | .handshake i =>
    if data.getD 0 0 = rymCodeSoh then some ((.begin 128, []), none)
    else if data.getD 0 0 = rymCodeStx then some ((.begin 1024, []), none)
    else some (again c i, none)
  | .begin size =>
    match checkFirst data size with
    | some err => some ((.returned err, []), none)
    | none => if opens then some (trans, none) else some ((.returned (-rymErrCan), []), none)
  | .code established =>
    if data.getD 0 0 = rymCodeSoh then some ((.data established 128, []), none)
    else if data.getD 0 0 = rymCodeStx then some ((.data established 1024, []), none)
    else if data.getD 0 0 = rymCodeEot then some ((.eot, [rymCodeNak]), none)
    else some ((.returned (-rymErrCode), []), none)
  | .data established size =>
    if seqSum data ≠ 0xff then some ((.returned (-rymErrSeq), []), none)
    else if established ∧ data.getD 0 0 = 0 then
      -- the first packet once more, which a sender that has taken a `C` for a NAK sends
      some ((.code established, []), none)
    else if recvCrc data size ≠ crc16 (payload data size) then
      some ((.returned (-rymErrCrc), []), none)
    else some ((.code false, [rymCodeAck]), some (payload data size))
  | .eot =>
    if data.getD 0 0 = rymCodeEot then some ((.finCode, [rymCodeAck, rymCodeC]), none)
    else some ((.returned (-rymErrCode), []), none)
  | .finCode =>
    if data.getD 0 0 = rymCodeSoh ∨ data.getD 0 0 = rymCodeStx then some ((.fin, []), none)
    else some ((.returned (-rymErrCode), []), none)
  | .fin =>
    match checkFirst data 128 with
    | some err => some ((.returned err, []), none)
    | none =>
      if data.getD 2 0 ≠ 0 then
        if opens then some (trans, none) else some ((.returned (-rymErrCan), []), none)
      else some ((.returned 0, [rymCodeAck]), none)
  | .idle | .returned _ => none

/-- A wait runs out before there is what the receiver wants. -/
def timeout (c : Setup) : Receiver → Option (Receiver × List UInt8)
  | .handshake i => some (again c i)
  | .begin _ | .data .. | .fin => some (.returned (-rymErrDsz), [])
  | .code _ | .eot | .finCode => some (.returned (-rymErrCode), [])
  | .idle | .returned _ => none

end Receiver

/-- Bytes on their way, and bytes that have come to the device on the other side. -/
structure Channel where
  wire : List UInt8
  buffer : List UInt8
  deriving DecidableEq, Repr

namespace Channel

def put (ch : Channel) (bytes : List UInt8) : Channel := { ch with wire := ch.wire ++ bytes }

/-- The first `n` bytes arrive. -/
def arrive (ch : Channel) (n : Nat) : Channel :=
  ⟨ch.wire.drop n, ch.buffer ++ ch.wire.take n⟩

def drop (ch : Channel) (n : Nat) : Channel := { ch with buffer := ch.buffer.drop n }

/-- All that is in a channel, in order. -/
def bytes (ch : Channel) : List UInt8 := ch.buffer ++ ch.wire

end Channel

/-- Both sides. `up` leads to the sender, `down` to the receiver; `received` is what was given to
`on_data`. -/
structure Session where
  sender : Sender
  receiver : Receiver
  up : Channel
  down : Channel
  received : List (List UInt8)
  deriving DecidableEq, Repr

namespace Session

def initial : Session := ⟨.idle, .idle, ⟨[], []⟩, ⟨[], []⟩, []⟩

/-- `mallocs` is whether there is a buffer for the session; `tick` and `now` are what the clock
shows when the receiver comes to read the first packet. -/
inductive Act where
  | startSend (mallocs : Bool)
  | startRecv (mallocs : Bool)
  | arriveUp (n : Nat)
  | arriveDown (n : Nat)
  | send (opens : Bool)
  | sendTimeout
  | recv (tick now : UInt32) (opens : Bool)
  | recvTimeout
  deriving DecidableEq, Repr

/-- What the receiver does goes into effect. -/
def moveReceiver (s : Session) (n : Nat) (r : Receiver × List UInt8)
    (block : Option (List UInt8)) : Session :=
  { s with receiver := r.1, up := s.up.put r.2, down := s.down.drop n
           received := s.received ++ block.toList }

def exec (c : Setup) (s : Session) : Act → Option Session
  | .startSend mallocs =>
    if s.sender = .idle then
      if ¬ mallocs then some { s with sender := .returned (-rtEnomem) }
      else if 0 < c.sendTimeout then some { s with sender := .handshake 0 }
      else some { s with sender := .returned (-rymErrTmo) }
    else none
  | .startRecv mallocs =>
    if s.receiver = .idle then
      if ¬ mallocs then some { s with receiver := .returned (-rtEnomem) }
      else if 0 < c.recvTimeout then
        some { s with receiver := .handshake 0, up := s.up.put [rymCodeC] }
      else some { s with receiver := .returned (-rymErrTmo) }
    else none
  | .arriveUp n =>
    if 0 < n ∧ n ≤ s.up.wire.length then some { s with up := s.up.arrive n } else none
  | .arriveDown n =>
    if 0 < n ∧ n ≤ s.down.wire.length then some { s with down := s.down.arrive n } else none
  | .send opens =>
    match s.up.buffer with
    | [] => none
    | code :: _ => do
      let (sender, bytes) ← s.sender.read c opens code
      some { s with sender := sender, up := s.up.drop 1, down := s.down.put bytes }
  | .sendTimeout =>
    if s.up.buffer = [] then do
      let sender ← s.sender.timeout c
      some { s with sender := sender }
    else none
  | .recv tick now opens =>
    if s.receiver.begins ∧ tick + c.ms100 < now then
      some { s with receiver := .returned (-rymErrDsz) }
    else if s.receiver.wants ≤ s.down.buffer.length then do
      let (r, block) ← s.receiver.read c opens (s.down.buffer.take s.receiver.wants)
      some (s.moveReceiver s.receiver.wants r block)
    else none
  | .recvTimeout =>
    if s.down.buffer.length < s.receiver.wants then do
      let r ← s.receiver.timeout c
      some (s.moveReceiver s.down.buffer.length r none)
    else none

end Session

end RtKernel.Ymodem

import RtKernel.Ymodem.Session

/-!
# Packets that are sent again

A sender that has missed an acknowledgement sends its packet again, with the same number. Of that
number the receiver checks the complement alone.
-/

namespace RtKernel.Ymodem

/-- A data packet, in one of two sizes. -/
structure DataPacket where
  long : Bool
  seq : UInt8
  block : List UInt8
  length_block : block.length = if long then 1024 else 128

namespace DataPacket

def size (p : DataPacket) : Nat := if p.long then 1024 else 128

def code (p : DataPacket) : UInt8 := if p.long then rymCodeStx else rymCodeSoh

/-- What is on its way for a packet. -/
def bytes (p : DataPacket) : List UInt8 := packet p.code p.seq p.block

end DataPacket

/-- What becomes of a packet: what the receiver writes, the block it gives to `on_data`, and whether
the transmission ends. -/
structure Answer where
  written : List UInt8
  onData : Option (List UInt8)
  ended : Bool
  deriving DecidableEq

/-- The packets have the numbers behind `last`. -/
def InOrder : UInt8 → List DataPacket → Prop
  | _, [] => True
  | last, p :: ps => p.seq = last + 1 ∧ InOrder p.seq ps

/-- What is to become of packets behind the one that has the number `last`: the next one is given to
`on_data`, the last one is acknowledged again, and all others end the transmission. -/
def expected : UInt8 → List DataPacket → List Answer
  | _, [] => []
  | last, p :: ps =>
    if p.seq = last + 1 then
      { written := [rymCodeAck], onData := some p.block, ended := false } :: expected p.seq ps
    else if p.seq = last then
      { written := [rymCodeAck], onData := none, ended := false } :: expected last ps
    else [{ written := [], onData := none, ended := true }]

namespace Receiver

/-- The transmission is over. -/
def isReturned : Receiver → Bool
  | .returned _ => true
  | _ => false

variable (c : Setup) (opens : Bool)

/-- The code of a packet is read, and then the rest. -/
def readPacket (r : Receiver) (p : DataPacket) : Option (Receiver × Answer) := do
  let (r₁, _) ← r.read c opens (p.bytes.take 1)
  let (r₂, block) ← r₁.1.read c opens p.bytes.tail
  some (r₂.1, { written := r₁.2 ++ r₂.2, onData := block, ended := r₂.1.isReturned })

/-- The loop of `_rym_do_trans`, while packets come. -/
def doTrans : Receiver → List DataPacket → List Answer
  | _, [] => []
  | r, p :: ps =>
    match r.readPacket c opens p with
    | some (r', answer) => answer :: if answer.ended then [] else doTrans r' ps
    | none => []

variable {c opens}

theorem read_code (established : Bool) (p : DataPacket) :
    read c opens (p.bytes.take 1) (.code established) =
      some ((.data established p.size, []), none) := by
  have htake : p.bytes.take 1 = [p.code] := rfl
  rw [htake]
  unfold DataPacket.code DataPacket.size
  cases p.long <;> rfl

/-- Only a packet with the number 0 is not taken, and only where no packet has been taken before. -/
theorem read_data (established : Bool) (p : DataPacket) :
    read c opens p.bytes.tail (.data established p.size) =
      some (if established ∧ p.seq = 0 then ((.code established, []), none)
        else ((.code false, [rymCodeAck]), some p.block)) := by
  have hblock : p.block.length = p.size := p.length_block
  have hseq : p.bytes.tail.getD 0 0 = p.seq := rfl
  rw [read, hseq]
  unfold DataPacket.bytes
  rw [if_neg (not_not.mpr seqSum_packet), recvCrc_packet hblock, payload_packet hblock]
  split_ifs
  · rfl
  · contradiction
  · rfl

theorem readPacket_eq (established : Bool) (p : DataPacket) :
    readPacket c opens (.code established) p =
      if established ∧ p.seq = 0 then
        some (.code established, { written := [], onData := none, ended := false })
      else
        some (.code false,
          { written := [rymCodeAck], onData := some p.block, ended := false }) := by
  unfold readPacket
  rw [read_code, Option.bind_eq_bind, Option.bind_some]
  dsimp only
  rw [read_data]
  split_ifs <;> rfl

end Receiver

variable {opens established : Bool} {c : Setup} {p : DataPacket} {last : UInt8}

theorem Receiver.doTrans_cons
    (hnot : ¬ (established ∧ p.seq = 0)) (ps : List DataPacket) :
    doTrans c opens (.code established) (p :: ps) =
      { written := [rymCodeAck], onData := some p.block, ended := false } ::
        doTrans c opens (.code false) ps := by
  rw [doTrans, readPacket_eq, if_neg hnot]
  rfl

/-- A packet that has not the next number is not treated as it is to be. -/
theorem Receiver.doTrans_ne
    {ps : List DataPacket} (hseq : p.seq ≠ last + 1) :
    doTrans c opens (.code established) (p :: ps) ≠ expected last (p :: ps) := by
  rw [doTrans, readPacket_eq, expected, if_neg hseq]
  intro heq
  split_ifs at heq <;> simp at heq

theorem Receiver.doTrans_eq_iff
    (hlast : established → last = 0) (ps : List DataPacket) :
    doTrans c opens (.code established) ps = expected last ps ↔ InOrder last ps := by
  induction ps generalizing established last with
  | nil => exact iff_of_true rfl trivial
  | cons p ps ih =>
    by_cases hseq : p.seq = last + 1
    · have hnot : ¬ (established = true ∧ p.seq = 0) := by
        rintro ⟨hestablished, hzero⟩
        rw [hseq, hlast hestablished] at hzero
        cases hzero
      have hrest : doTrans c opens (.code false) ps = expected p.seq ps ↔ InOrder p.seq ps :=
        ih fun h => by cases h
      rw [doTrans_cons hnot, expected, if_pos hseq, InOrder, List.cons_inj_right, hrest]
      exact (and_iff_right hseq).symm
    · exact iff_of_false (doTrans_ne hseq) fun h => hseq h.1

/-- Behind the first packet the receiver does with data packets what it is to do just where each of
them has the next number: it does not know a packet again, and misses none. -/
theorem doTrans_expected_iff (c : Setup) (opens : Bool) (ps : List DataPacket) :
    Receiver.doTrans c opens Receiver.trans.1 ps = expected 0 ps ↔ InOrder 0 ps :=
  Receiver.doTrans_eq_iff (fun _ => rfl) ps

def zeroPacket (seq : UInt8) : DataPacket := ⟨false, seq, zeroBlock, length_zeroBlock⟩

/-- The first data packet is sent twice, and is given to `on_data` twice. -/
theorem doTrans_repeat : ∃ c opens ps,
    Receiver.doTrans c opens Receiver.trans.1 ps ≠ expected 0 ps ∧
    Receiver.doTrans c opens Receiver.trans.1 ps =
      [⟨[rymCodeAck], some zeroBlock, false⟩, ⟨[rymCodeAck], some zeroBlock, false⟩] ∧
    expected 0 ps = [⟨[rymCodeAck], some zeroBlock, false⟩, ⟨[rymCodeAck], none, false⟩] := by
  have hreceived : Receiver.doTrans ⟨[], [], 0, 0, 0⟩ true (.code true)
      [zeroPacket 1, zeroPacket 1] =
      [⟨[rymCodeAck], some zeroBlock, false⟩, ⟨[rymCodeAck], some zeroBlock, false⟩] := by
    rw [Receiver.doTrans_cons (by decide), Receiver.doTrans_cons (by decide)]
    rfl
  refine ⟨⟨[], [], 0, 0, 0⟩, true, [zeroPacket 1, zeroPacket 1], fun heq => ?_, hreceived, rfl⟩
  rw [Receiver.trans, hreceived] at heq
  cases heq

end RtKernel.Ymodem

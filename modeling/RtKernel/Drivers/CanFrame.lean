import Mathlib.Data.BitVec

/-!
# Frames on the CAN bus

A message is sent as a frame, with the length in the four bits of the DLC. A frame that comes
in has a DLC of up to 15; the data field of a message has eight bytes. There is no result where
something is written outside its bounds.
-/

namespace RtKernel.CanFrame

/-- `struct rt_can_msg`. -/
structure RtCanMsg where
  id : BitVec 29
  ide : BitVec 1
  rtr : BitVec 1
  len : BitVec 8
  hdr : BitVec 8
  data : Fin 8 → UInt8

/-- The fields of `stc_can_tx_frame_t` and of `stc_can_rx_frame_t` that the driver uses. -/
structure Frame where
  u32ID : BitVec 32
  dlc : BitVec 4
  rtr : BitVec 1
  ide : BitVec 1
  au8Data : Fin 8 → UInt8

/-- The transmit buffer or the receive buffer of the controller, with the bytes of its words. -/
structure Buf where
  u32ID : BitVec 32
  dlc : BitVec 4
  rtr : BitVec 1
  ide : BitVec 1
  data : Nat → UInt8

/-- What the calls of the vendor library return. -/
inductive LlRet
  | ok
  | errInvdParam
  | errBusy
  deriving DecidableEq

/-- `RT_ERROR`. -/
def rtError : Int := 1

/-- The frame that `_can_sendmsg` sets up. -/
def txFrame (pmsg : RtCanMsg) : Frame :=
  { u32ID := pmsg.id.setWidth 32
    rtr := if pmsg.rtr = 0 then 0 else 1
    dlc := (pmsg.len &&& 0x0F).setWidth 4
    ide := pmsg.ide
    au8Data := pmsg.data }

/-- The words of data that are moved for a DLC. -/
def wordLen (dlc : BitVec 4) : Nat := (dlc.toNat + 3) / 4

/-- `CAN_WriteTxBuf`; what lies behind the data of the frame is not known. -/
def canWriteTxBuf (frame : Frame) (behind : Nat → UInt8) (tbuf : Buf) : Buf :=
  { u32ID := frame.u32ID
    dlc := frame.dlc
    rtr := frame.rtr
    ide := frame.ide
    data := fun i =>
      if i < 4 * wordLen frame.dlc then
        if h : i < 8 then frame.au8Data ⟨i, h⟩ else behind i
      else tbuf.data i }

/-- `CAN_FillTxFrame` of the primary buffer, which may be being transmitted. -/
def canFillTxFrame (busy : Bool) (frame : Frame) (behind : Nat → UInt8) (tbuf : Buf) :
    Buf × LlRet :=
  if frame.rtr = 1 ∧ frame.dlc = 0 then (tbuf, .errInvdParam)
  else if busy = true then (tbuf, .errBusy)
  else (canWriteTxBuf frame behind tbuf, .ok)

/-- `_can_sendmsg`. -/
def canSendmsg (busy : Bool) (pmsg : RtCanMsg) (behind : Nat → UInt8) (tbuf : Buf) : Buf × Int :=
  match canFillTxFrame busy (txFrame pmsg) behind tbuf with
  | (tbuf, .ok) => (tbuf, 0)
  | (tbuf, _) => (tbuf, rtError)

/-- `CAN_ReadRxBuf`, into a frame on the stack. -/
def canReadRxBuf (rbuf : Buf) (au8Data : Fin 8 → UInt8) : Option Frame :=
  if 4 * wordLen rbuf.dlc ≤ 8 then
    some
      { u32ID := rbuf.u32ID
        dlc := rbuf.dlc
        rtr := rbuf.rtr
        ide := rbuf.ide
        au8Data := fun i => if i.val < 4 * wordLen rbuf.dlc then rbuf.data i.val else au8Data i }
  else none

/-- `_can_recvmsg`; the receive buffer may be empty. -/
def canRecvmsg (rbuf : Option Buf) (au8Data : Fin 8 → UInt8) (pmsg : RtCanMsg) :
    Option (RtCanMsg × Int) :=
  match rbuf with
  | none => some (pmsg, -rtError)
  | some rbuf =>
    (canReadRxBuf rbuf au8Data).bind fun frame =>
      if frame.dlc.toNat ≤ 8 then
        some
          ({ ide := if frame.ide = 0 then 0 else 1
             id := frame.u32ID.setWidth 29
             rtr := if frame.rtr = 0 then 0 else 1
             len := frame.dlc.setWidth 8
             hdr := 0
             data := fun i => if i.val < frame.dlc.toNat then frame.au8Data i else pmsg.data i }, 0)
      else none

/-- The controller has received this frame. -/
structure Presents (rbuf : Buf) (frame : Frame) : Prop where
  u32ID : rbuf.u32ID = frame.u32ID
  dlc : rbuf.dlc = frame.dlc
  rtr : rbuf.rtr = frame.rtr
  ide : rbuf.ide = frame.ide
  data : ∀ i : Fin 8, i.val < frame.dlc.toNat → rbuf.data i.val = frame.au8Data i

/-- What a message carries. -/
structure SameMsg (msg msg' : RtCanMsg) : Prop where
  id : msg'.id = msg.id
  ide : msg'.ide = msg.ide
  rtr : msg'.rtr = msg.rtr
  len : msg'.len = msg.len
  data : ∀ i : Fin 8, i.val < msg.len.toNat → msg'.data i = msg.data i

variable {msg pmsg : RtCanMsg} {rbuf tbuf : Buf} {frame : Frame} {au8Data : Fin 8 → UInt8}

/-- What is transmitted is what the transmit buffer has. -/
theorem presents_canWriteTxBuf (frame : Frame) (behind : Nat → UInt8) (tbuf : Buf) :
    Presents (canWriteTxBuf frame behind tbuf) frame := by
  refine ⟨rfl, rfl, rfl, rfl, fun i hi => ?_⟩
  have hword : i.val < 4 * wordLen frame.dlc := by
    unfold wordLen
    omega
  simp only [canWriteTxBuf]
  rw [if_pos hword, dif_pos i.isLt]

/-- A frame is received within the bounds just when its DLC is at most eight. -/
theorem isSome_canRecvmsg_iff (rbuf : Buf) (au8Data : Fin 8 → UInt8) (pmsg : RtCanMsg) :
    (canRecvmsg (some rbuf) au8Data pmsg).isSome = true ↔ rbuf.dlc.toNat ≤ 8 := by
  unfold canRecvmsg canReadRxBuf
  dsimp only
  by_cases hdlc : rbuf.dlc.toNat ≤ 8
  · have hwords : 4 * wordLen rbuf.dlc ≤ 8 := by
      unfold wordLen
      omega
    rw [if_pos hwords, Option.bind_some, if_pos hdlc]
    exact iff_of_true rfl hdlc
  · have hwords : ¬ 4 * wordLen rbuf.dlc ≤ 8 := by
      unfold wordLen
      omega
    rw [if_neg hwords]
    exact iff_of_false Bool.false_ne_true hdlc

theorem bit_cases (b : BitVec 1) : (if b = 0 then 0 else 1) = b := by
  revert b
  decide

theorem toNat_dlc (hlen : msg.len.toNat ≤ 8) : (txFrame msg).dlc.toNat = msg.len.toNat := by
  have hand : (msg.len &&& 0x0F).toNat = msg.len.toNat % 16 := by
    exact Nat.and_two_pow_sub_one_eq_mod _ 4
  show ((msg.len &&& 0x0F).setWidth 4).toNat = msg.len.toNat
  rw [BitVec.toNat_setWidth]
  omega

/-- A message of up to eight bytes comes back as it was. -/
theorem canRecvmsg_txFrame (hlen : msg.len.toNat ≤ 8) (hrbuf : Presents rbuf (txFrame msg))
    (au8Data : Fin 8 → UInt8) (pmsg : RtCanMsg) :
    ∃ msg', canRecvmsg (some rbuf) au8Data pmsg = some (msg', 0) ∧ SameMsg msg msg' := by
  have hdlc : rbuf.dlc.toNat = msg.len.toNat := by rw [hrbuf.dlc, toNat_dlc hlen]
  have hshort : rbuf.dlc.toNat ≤ 8 := hdlc ▸ hlen
  have hwords : 4 * wordLen rbuf.dlc ≤ 8 := by
    unfold wordLen
    omega
  unfold canRecvmsg canReadRxBuf
  dsimp only
  rw [if_pos hwords, Option.bind_some, if_pos hshort]
  refine ⟨_, rfl, ?_, ?_, ?_, ?_, fun i hi => ?_⟩
  · show rbuf.u32ID.setWidth 29 = msg.id
    rw [hrbuf.u32ID]
    exact BitVec.setWidth_setWidth_of_le msg.id (by decide)
  · show (if rbuf.ide = 0 then 0 else 1) = msg.ide
    rw [hrbuf.ide, bit_cases]
    rfl
  · show (if rbuf.rtr = 0 then 0 else 1) = msg.rtr
    rw [hrbuf.rtr, bit_cases]
    exact bit_cases msg.rtr
  · apply BitVec.eq_of_toNat_eq
    rw [BitVec.toNat_setWidth, hdlc, Nat.mod_eq_of_lt msg.len.isLt]
  · have hin : i.val < rbuf.dlc.toNat := hdlc ▸ hi
    have hword : i.val < 4 * wordLen rbuf.dlc := by
      unfold wordLen
      omega
    dsimp only
    rw [if_pos hin, if_pos hword]
    exact hrbuf.data i (hrbuf.dlc ▸ hin)

/-- What `_can_sendmsg` puts into the transmit buffer is the frame, unless it is refused. -/
theorem presents_canSendmsg {busy : Bool} {behind : Nat → UInt8} {tbuf tbuf' : Buf}
    (h : canSendmsg busy msg behind tbuf = (tbuf', 0)) : Presents tbuf' (txFrame msg) := by
  unfold canSendmsg canFillTxFrame at h
  split_ifs at h with hremote hbusy
  · cases h
  · cases h
  · cases h
    exact presents_canWriteTxBuf _ _ _

/-- Messages of up to eight bytes come back as they were, and a frame is received within the bounds
just when its DLC is at most eight. -/
theorem canMsg_frames (au8Data : Fin 8 → UInt8) (pmsg : RtCanMsg) :
    (∀ msg rbuf, msg.len.toNat ≤ 8 → Presents rbuf (txFrame msg) →
      ∃ msg', canRecvmsg (some rbuf) au8Data pmsg = some (msg', 0) ∧ SameMsg msg msg') ∧
    ∀ rbuf, (canRecvmsg (some rbuf) au8Data pmsg).isSome = true ↔ rbuf.dlc.toNat ≤ 8 :=
  ⟨fun _ _ hlen hrbuf => canRecvmsg_txFrame hlen hrbuf au8Data pmsg,
    fun rbuf => isSome_canRecvmsg_iff rbuf au8Data pmsg⟩

/-- A message of three bytes. -/
def three : RtCanMsg :=
  { id := 0x123, ide := 0, rtr := 0, len := 3, hdr := 0, data := fun i => UInt8.ofNat i.val }

/-- A receive buffer with this frame. -/
def received (frame : Frame) : Buf :=
  canWriteTxBuf frame (fun _ => 0) { u32ID := 0, dlc := 0, rtr := 0, ide := 0, data := fun _ => 0 }

/-- A data frame of three bytes. -/
theorem canMsg_frames_three :
    ∃ msg', canRecvmsg (some (received (txFrame three))) (fun _ => 0) three = some (msg', 0) ∧
      SameMsg three msg' :=
  (canMsg_frames (fun _ => 0) three).1 three _ (by decide) (presents_canWriteTxBuf _ _ _)

/-- A frame of another node with a DLC of 15 is written behind the data of the message. -/
theorem dlc15_outside :
    ¬ ∀ rbuf au8Data pmsg, (canRecvmsg (some rbuf) au8Data pmsg).isSome = true := by
  intro hall
  have hsome := hall { u32ID := 0, dlc := 15, rtr := 0, ide := 0, data := fun _ => 0 }
    (fun _ => 0) three
  exact absurd ((isSome_canRecvmsg_iff ..).mp hsome) (by decide)

/-- A message that is sent is received by another node as it was, whatever the transmit buffer had
before; it is refused just when the buffer is busy or it is a remote frame without data, and then
the buffer stays. -/
theorem canRecvmsg_canSendmsg {busy : Bool} {behind : Nat → UInt8} {tbuf' : Buf} {ret : Int}
    (hlen : msg.len.toNat ≤ 8) (hsend : canSendmsg busy msg behind tbuf = (tbuf', ret)) :
    (ret = rtError ↔ busy = true ∨ msg.rtr = 1 ∧ msg.len = 0) ∧
    (busy = true ∨ msg.rtr = 1 ∧ msg.len = 0 → tbuf' = tbuf) ∧
    (ret = 0 ∨ ret = rtError) ∧
    (ret = 0 → ∀ au8Data pmsg, ∃ msg', canRecvmsg (some tbuf') au8Data pmsg = some (msg', 0) ∧
      SameMsg msg msg') := by
  have hrtr : (txFrame msg).rtr = msg.rtr := bit_cases msg.rtr
  have hzero : (txFrame msg).dlc = 0 ↔ msg.len = 0 := by
    rw [← BitVec.toNat_inj, toNat_dlc hlen, ← BitVec.toNat_inj]
    exact Iff.rfl
  have hsent := hsend
  unfold canSendmsg canFillTxFrame at hsend
  rw [hrtr] at hsend
  split_ifs at hsend with hremote hbusy
  · cases hsend
    exact ⟨iff_of_true rfl (.inr (hremote.imp_right hzero.mp)), fun _ => rfl, .inr rfl,
      fun h => absurd h (by decide)⟩
  · cases hsend
    exact ⟨iff_of_true rfl (.inl hbusy), fun _ => rfl, .inr rfl, fun h => absurd h (by decide)⟩
  · cases hsend
    have hsends : ¬ (busy = true ∨ msg.rtr = 1 ∧ msg.len = 0) :=
      not_or.mpr ⟨hbusy, fun h => hremote (h.imp_right hzero.mpr)⟩
    refine ⟨iff_of_false (by decide) hsends, fun h => absurd h hsends, .inl rfl, fun _ => ?_⟩
    exact fun au8Data pmsg => canRecvmsg_txFrame hlen (presents_canSendmsg hsent) au8Data pmsg

/-- Three bytes, sent from a buffer that has held another frame. -/
theorem canRecvmsg_canSendmsg_three : ∃ tbuf' msg',
    canSendmsg false three (fun _ => 0) ⟨5, 8, 1, 1, fun _ => 255⟩ = (tbuf', 0) ∧
      canRecvmsg (some tbuf') (fun _ => 0) three = some (msg', 0) ∧ SameMsg three msg' := by
  obtain ⟨tbuf', hsend⟩ : ∃ tbuf',
      canSendmsg false three (fun _ => 0) ⟨5, 8, 1, 1, fun _ => 255⟩ = (tbuf', 0) := ⟨_, rfl⟩
  obtain ⟨msg', hmsg'⟩ := (canRecvmsg_canSendmsg (by decide) hsend).2.2.2 rfl (fun _ => 0) three
  exact ⟨tbuf', msg', hsend, hmsg'⟩

end RtKernel.CanFrame

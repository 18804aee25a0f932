import Mathlib.Algebra.Group.Nat.Defs
import Mathlib.Data.List.Basic

/-!
# Frames of rt-link

The receive buffer of `rtlink_hw.c` and the parser of `rt_link_frame_check`. Pointers are
indices into the buffer, and a write into it has no result where it would be outside.
Timers are left out here, and what a frame carries, but where it lies.
-/

open List

namespace RtKernel.Link

def maxDataLength : Nat := 1012
def framesMax : Nat := 3
def receiveBufferLength : Nat := 3080
def serviceMax : Nat := 5
def headLength : Nat := 4
def extendLength : Nat := 4
def crcLength : Nat := 4

/-- `rt_link_frame_attr_e`. -/
inductive FrameAttr
  | resend
  | confirm
  | handshake
  | detach
  | sessionEnd
  | longData
  | shortData
  | reserve
  deriving DecidableEq

/-- The attribute of a number; `reserve` and more are no attributes. -/
def frameAttr : Nat → FrameAttr
  | 0 => .resend
  | 1 => .confirm
  | 2 => .handshake
  | 3 => .detach
  | 4 => .sessionEnd
  | 5 => .longData
  | 6 => .shortData
  | _ => .reserve

/-- `rt_link_frame_parse_t`. -/
inductive FrameParse
  | findFrameHead
  | parseFrameHead
  | parseFrameExtend
  | parseFrameSeq
  | checkFrameCrc
  | headleFrameData
  deriving DecidableEq

/-- `receive_frame`: its head, the fields of the extension, and what is made of them. -/
structure Frame where
  extend : Bool
  crc : Bool
  ack : Bool
  sequence : Nat
  service : Nat
  length : Nat
  parameter : UInt16
  attr : FrameAttr
  dataLen : Nat
  /-- `real_data`: where what the frame carries begins in the buffer. -/
  realData : Nat

/-- `rt_link_frame_init`. -/
def Frame.init : Frame where
  extend := false
  crc := false
  ack := false
  sequence := 0
  service := 0
  length := 0
  parameter := 0
  attr := .reserve
  dataLen := 0
  realData := 0

/-- The head as it lies in four bytes. -/
def Frame.setHead (frame : Frame) (bytes : List UInt8) : Frame :=
  let config := (bytes.getD 0 0).toNat
  let tail := (bytes.getD 2 0).toNat + 256 * (bytes.getD 3 0).toNat
  { frame with
    extend := config.testBit 5
    crc := config.testBit 6
    ack := config.testBit 7
    sequence := (bytes.getD 1 0).toNat
    service := tail % 32
    length := tail / 32
    dataLen := tail / 32 }

def checkSeq (new used : Nat) : Nat := if used ≤ new then new - used else new + 256 - used

/-- The index of a data frame, a byte: the distance from the last sequence received, less one. -/
def seqIndex (new used : Nat) : Nat := (checkSeq new used + 255) % 256

/-- The receive buffer and what `rt_link_frame_check` keeps. -/
structure Rx where
  data : Nat → UInt8
  readPoint : Nat
  writePoint : Nat
  analysisStatus : FrameParse
  receiveFrame : Frame
  /-- `data` in `rt_link_frame_check`. -/
  point : Nat
  buffLen : Nat

namespace Rx

/-- `rt_memcpy` to the buffer. -/
def copyIn (data : Nat → UInt8) (dst : Nat) (bytes : List UInt8) : Option (Nat → UInt8) :=
  if dst + bytes.length ≤ receiveBufferLength then
    some fun i => if dst ≤ i ∧ i < dst + bytes.length then bytes.getD (i - dst) 0 else data i
  else none

/-- `rt_link_hw_buffer_write`. -/
def hwBufferWrite (rx : Rx) (bytes : List UInt8) : Option Rx :=
  if rx.readPoint ≤ rx.writePoint then
    let w2end := receiveBufferLength - rx.writePoint
    let surplus := receiveBufferLength - (rx.writePoint - rx.readPoint)
    let bytes := bytes.take surplus
    if w2end ≤ bytes.length then
      (copyIn rx.data rx.writePoint (bytes.take w2end)).bind fun data =>
        (copyIn data 0 (bytes.drop w2end)).map fun data =>
          { rx with data := data, writePoint := bytes.length - w2end }
    else
      (copyIn rx.data rx.writePoint bytes).map fun data =>
        { rx with data := data, writePoint := rx.writePoint + bytes.length }
  else
    let bytes := bytes.take (rx.readPoint - rx.writePoint)
    (copyIn rx.data rx.writePoint bytes).map fun data =>
      { rx with data := data, writePoint := rx.writePoint + bytes.length }

/-- `rt_link_hw_buffer_point_shift`. -/
def shift (rx : Rx) (point length : Nat) : Nat :=
  if rx.readPoint ≤ rx.writePoint then
    if rx.writePoint ≤ point + length then rx.writePoint else point + length
  else if receiveBufferLength ≤ point + length then
    if rx.writePoint ≤ point + length - receiveBufferLength then rx.writePoint
    else point + length - receiveBufferLength
  else point + length

/-- `rt_link_hw_copy` from the buffer. -/
def hwCopy (rx : Rx) (src count : Nat) : List UInt8 :=
  (List.range count).map fun i =>
    if src + i < receiveBufferLength then rx.data (src + i)
    else rx.data (src + i - receiveBufferLength)

/-- `rt_link_hw_recv_len`. -/
def recvLen (rx : Rx) : Nat :=
  if rx.readPoint ≤ rx.writePoint then rx.writePoint - rx.readPoint
  else receiveBufferLength - (rx.readPoint - rx.writePoint)

def skip (rx : Rx) (length : Nat) : Rx :=
  { rx with readPoint := rx.shift rx.readPoint length }

end Rx

/-- How a pass of the loop ends: it waits or goes on, it looks for a new head, or the frame is
handled. -/
inductive Pass
  | stop (rx : Rx)
  | findHead (rx : Rx)
  | handle (rx : Rx)

/-- What the parser reads of the rest: `rx_seq`, `tx_seq`, and `total` of the first frame that is to be
sent, if any; and how a CRC is calculated. -/
structure Context where
  rxSeq : Nat
  txSeq : Nat
  txFirst : Option Nat
  calculateCrc : List UInt8 → Nat

namespace Rx

variable (c : Context)

def headleFrameData (rx : Rx) : Pass :=
  if rx.recvLen < rx.buffLen then .stop rx else .handle (rx.skip rx.buffLen)

def checkFrameCrc (rx : Rx) : Pass :=
  if rx.receiveFrame.crc then
    if rx.recvLen < rx.buffLen then .stop rx
    else
      let rx := { rx with point := rx.shift rx.point rx.receiveFrame.dataLen }
      let crc := rx.hwCopy rx.point crcLength
      let frameCrc := (crc.getD 0 0).toNat + 2 ^ 8 * (crc.getD 1 0).toNat +
        2 ^ 16 * (crc.getD 2 0).toNat + 2 ^ 24 * (crc.getD 3 0).toNat
      if frameCrc ≠ c.calculateCrc (rx.hwCopy rx.readPoint (rx.buffLen - crcLength)) then
        .findHead (rx.skip 1)
      else headleFrameData { rx with analysisStatus := .headleFrameData }
  else headleFrameData { rx with analysisStatus := .headleFrameData }

/-- The sequence of a frame is out of range. -/
def seqFails (frame : Frame) : Bool :=
  match frame.attr with
  | .confirm | .resend =>
    match c.txFirst with
    | some total => total < checkSeq frame.sequence c.txSeq
    | none => false
  | .longData | .shortData | .sessionEnd => framesMax < seqIndex frame.sequence c.rxSeq
  | .handshake | .detach => false
  | .reserve => true

def parseFrameSeq (rx : Rx) : Pass :=
  if seqFails c rx.receiveFrame then .findHead (rx.skip 1)
  else
    let buffLen := rx.buffLen + rx.receiveFrame.dataLen
    let rx := { rx with receiveFrame := { rx.receiveFrame with realData := rx.point } }
    if rx.receiveFrame.crc then
      checkFrameCrc c { rx with buffLen := buffLen + crcLength, analysisStatus := .checkFrameCrc }
    else checkFrameCrc c { rx with buffLen := buffLen, analysisStatus := .headleFrameData }

def parseFrameExtend (rx : Rx) : Pass :=
  if rx.receiveFrame.extend then
    if rx.recvLen < rx.buffLen then .stop rx
    else
      let extend := rx.hwCopy rx.point extendLength
      let attr := frameAttr ((extend.getD 0 0).toNat + 256 * (extend.getD 1 0).toNat)
      let parameter := UInt16.ofNat ((extend.getD 2 0).toNat + 256 * (extend.getD 3 0).toNat)
      let point := rx.shift rx.point extendLength
      if attr = .reserve then .findHead (rx.skip 1)
      else
        parseFrameSeq c { rx with
          point := point
          receiveFrame := { rx.receiveFrame with attr := attr, parameter := parameter }
          analysisStatus := .parseFrameSeq }
  else parseFrameSeq c { rx with analysisStatus := .parseFrameSeq }

def parseFrameHead (rx : Rx) : Pass :=
  if rx.recvLen < rx.buffLen then .stop rx
  else
    let frame := Frame.init.setHead (rx.hwCopy rx.readPoint headLength)
    let rx := { rx with receiveFrame := frame, point := rx.shift rx.readPoint headLength }
    if serviceMax ≤ frame.service then .findHead (rx.skip 1)
    else if frame.extend then
      parseFrameExtend c { rx with
        buffLen := rx.buffLen + extendLength
        analysisStatus := .parseFrameExtend }
    else
      parseFrameExtend c { rx with
        receiveFrame := { frame with attr := .shortData }
        analysisStatus := .parseFrameSeq }

def findFrameHead (rx : Rx) : Pass :=
  if (rx.data rx.readPoint).toNat % 32 = 0x15 then .stop { rx with analysisStatus := .parseFrameHead }
  else .stop (rx.skip 1)

/-- One pass of the loop of `rt_link_frame_check`, up to `rt_link_parse_frame`. -/
def frameCheck (rx : Rx) : Pass :=
  if rx.recvLen = 0 then .stop rx
  else
    match rx.analysisStatus with
    | .findFrameHead => rx.findFrameHead
    | .parseFrameHead => rx.parseFrameHead c
    | .parseFrameExtend => rx.parseFrameExtend c
    | .parseFrameSeq => rx.parseFrameSeq c
    | .checkFrameCrc => rx.checkFrameCrc c
    | .headleFrameData => rx.headleFrameData

/-- The parser begins again. -/
def restart (rx : Rx) : Rx := { rx with buffLen := headLength, analysisStatus := .findFrameHead }

/-- The pointers are in the buffer. -/
structure Inside (rx : Rx) : Prop where
  readPoint : rx.readPoint < receiveBufferLength
  writePoint : rx.writePoint < receiveBufferLength

variable {c : Context} {rx : Rx}

theorem copyIn_of_le (data : Nat → UInt8) (dst : Nat) (bytes : List UInt8)
    (h : dst + bytes.length ≤ receiveBufferLength) : ∃ data', copyIn data dst bytes = some data' :=
  ⟨_, if_pos h⟩

/-- Bytes are written inside the buffer, and what the parser keeps stays. -/
theorem Inside.hwBufferWrite (h : Inside rx) (bytes : List UInt8) : ∃ data writePoint,
    rx.hwBufferWrite bytes = some { rx with data := data, writePoint := writePoint } ∧
    writePoint < receiveBufferLength := by
  have hread := h.readPoint
  have hwrite := h.writePoint
  unfold Rx.hwBufferWrite
  dsimp only
  by_cases horder : rx.readPoint ≤ rx.writePoint
  · rw [if_pos horder]
    have hlen := length_take_le (receiveBufferLength - (rx.writePoint - rx.readPoint)) bytes
    generalize bytes.take (receiveBufferLength - (rx.writePoint - rx.readPoint)) = bytes at hlen
    by_cases hend : receiveBufferLength - rx.writePoint ≤ bytes.length
    · have hfirst := length_take_le (receiveBufferLength - rx.writePoint) bytes
      have hsecond : (bytes.drop (receiveBufferLength - rx.writePoint)).length =
          bytes.length - (receiveBufferLength - rx.writePoint) := length_drop
      obtain ⟨data, hdata⟩ := copyIn_of_le rx.data rx.writePoint
        (bytes.take (receiveBufferLength - rx.writePoint)) (by omega)
      obtain ⟨data', hdata'⟩ := copyIn_of_le data 0
        (bytes.drop (receiveBufferLength - rx.writePoint)) (by omega)
      rw [if_pos hend, hdata, Option.bind_some, hdata']
      exact ⟨_, _, rfl, by omega⟩
    · obtain ⟨data, hdata⟩ := copyIn_of_le rx.data rx.writePoint bytes (by omega)
      rw [if_neg hend, hdata]
      exact ⟨_, _, rfl, by omega⟩
  · have hlen := length_take_le (rx.readPoint - rx.writePoint) bytes
    obtain ⟨data, hdata⟩ := copyIn_of_le rx.data rx.writePoint
      (bytes.take (rx.readPoint - rx.writePoint)) (by omega)
    rw [if_neg horder, hdata]
    exact ⟨_, _, rfl, by omega⟩

theorem Inside.shift (h : Inside rx) (point length : Nat) : rx.shift point length < receiveBufferLength := by
  have hwrite := h.writePoint
  unfold Rx.shift
  split_ifs <;> omega

theorem Inside.skip (h : Inside rx) (length : Nat) : Inside (rx.skip length) :=
  ⟨h.shift _ _, h.writePoint⟩

/-- A data frame, or the end of a session, is among the next ones. -/
def Fresh (rxSeq : Nat) (frame : Frame) : Prop :=
  frame.attr = .longData ∨ frame.attr = .shortData ∨ frame.attr = .sessionEnd →
    seqIndex frame.sequence rxSeq ≤ framesMax

/-- The frame that is waited for has passed the check of its sequence. -/
def Accepted (rxSeq : Nat) (rx : Rx) : Prop :=
  rx.analysisStatus = .checkFrameCrc ∨ rx.analysisStatus = .headleFrameData →
    Fresh rxSeq rx.receiveFrame

end Rx

/-- What holds after a pass. -/
def Pass.Kept (rxSeq : Nat) : Pass → Prop
  | .stop rx => rx.Inside ∧ rx.Accepted rxSeq
  | .findHead rx => rx.Inside
  | .handle rx => rx.Inside ∧ Rx.Fresh rxSeq rx.receiveFrame

namespace Rx

variable {c : Context} {rx : Rx}

theorem Inside.headleFrameData (h : Inside rx) (hfresh : Fresh c.rxSeq rx.receiveFrame) :
    rx.headleFrameData.Kept c.rxSeq := by
  unfold Rx.headleFrameData
  split_ifs
  · exact ⟨h, fun _ => hfresh⟩
  · exact ⟨h.skip _, hfresh⟩

theorem Inside.checkFrameCrc (h : Inside rx) (hfresh : Fresh c.rxSeq rx.receiveFrame) :
    (rx.checkFrameCrc c).Kept c.rxSeq := by
  unfold Rx.checkFrameCrc
  dsimp only
  split_ifs
  · exact ⟨h, fun _ => hfresh⟩
  · exact ⟨h.shift _ _, h.writePoint⟩
  all_goals exact Inside.headleFrameData ⟨h.readPoint, h.writePoint⟩ hfresh

theorem fresh_of_seqFails {frame : Frame} (h : ¬ seqFails c frame = true) : Fresh c.rxSeq frame := by
  intro hattr
  unfold seqFails at h
  rcases hattr with hattr | hattr | hattr <;> rw [hattr] at h <;> simpa using h

section

variable (h : Inside rx)
include h

theorem Inside.parseFrameSeq : (rx.parseFrameSeq c).Kept c.rxSeq := by
  unfold Rx.parseFrameSeq
  dsimp only
  split_ifs with hfails
  · exact h.skip 1
  all_goals exact Inside.checkFrameCrc ⟨h.readPoint, h.writePoint⟩ (fresh_of_seqFails hfails)

theorem Inside.parseFrameExtend (haccepted : Accepted c.rxSeq rx) :
    (rx.parseFrameExtend c).Kept c.rxSeq := by
  unfold Rx.parseFrameExtend
  dsimp only
  split_ifs
  · exact ⟨h, haccepted⟩
  · exact h.skip 1
  all_goals exact Inside.parseFrameSeq ⟨h.readPoint, h.writePoint⟩

theorem Inside.parseFrameHead (haccepted : Accepted c.rxSeq rx) :
    (rx.parseFrameHead c).Kept c.rxSeq := by
  unfold Rx.parseFrameHead
  dsimp only
  split_ifs
  · exact ⟨h, haccepted⟩
  · exact ⟨h.shift _ _, h.writePoint⟩
  all_goals
    refine Inside.parseFrameExtend ⟨h.readPoint, h.writePoint⟩ ?_
    rintro (heq | heq) <;> cases heq

theorem Inside.findFrameHead (hstatus : rx.analysisStatus = .findFrameHead) :
    rx.findFrameHead.Kept c.rxSeq := by
  unfold Rx.findFrameHead
  split_ifs
  · exact ⟨⟨h.readPoint, h.writePoint⟩, by rintro (heq | heq) <;> cases heq⟩
  · refine ⟨h.skip 1, ?_⟩
    rintro (heq | heq) <;> exact absurd (hstatus.symm.trans heq) (by decide)

theorem Inside.frameCheck (haccepted : Accepted c.rxSeq rx) : (rx.frameCheck c).Kept c.rxSeq := by
  unfold Rx.frameCheck
  split_ifs
  · exact ⟨h, haccepted⟩
  cases hstatus : rx.analysisStatus with
  | findFrameHead => exact h.findFrameHead hstatus
  | parseFrameHead => exact h.parseFrameHead haccepted
  | parseFrameExtend => exact h.parseFrameExtend haccepted
  | parseFrameSeq => exact h.parseFrameSeq
  | checkFrameCrc => exact h.checkFrameCrc (haccepted (.inl hstatus))
  | headleFrameData => exact h.headleFrameData (haccepted (.inr hstatus))

end

end Rx

end RtKernel.Link

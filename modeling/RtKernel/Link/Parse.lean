import RtKernel.Core.Incremental
import RtKernel.Link.Frames

/-!
# What frames of rt-link read as

A frame as it is sent, and what the bytes at the read pointer begin with: the same checks as those of
`rt_link_frame_check`, on a list. A parser that has looked at the sequence does not do it again.
-/

open List

namespace RtKernel.Link

/-- The number of an attribute. -/
def FrameAttr.number : FrameAttr → Nat
  | .resend => 0
  | .confirm => 1
  | .handshake => 2
  | .detach => 3
  | .sessionEnd => 4
  | .longData => 5
  | .shortData => 6
  | .reserve => 7

/-- A frame that is filled in: a short one has no extension, and only data frames carry data. -/
structure SendFrame where
  crc : Bool
  ack : Bool
  sequence : UInt8
  service : Nat
  attr : FrameAttr
  parameter : UInt16
  data : List UInt8
  service_lt : service < serviceMax
  attr_ne : attr ≠ .reserve
  parameter_eq : attr = .shortData → parameter = 0
  length_le : data.length ≤ maxDataLength
  data_eq : attr ≠ .shortData → attr ≠ .longData → data = []

/-- The bytes of a number, the lowest first. -/
def leBytes (count n : Nat) : List UInt8 := (List.range count).map fun i => UInt8.ofNat (n / 256 ^ i)

namespace SendFrame

def extend (f : SendFrame) : Bool := f.attr ≠ .shortData

/-- `head`. -/
def headBytes (f : SendFrame) : List UInt8 :=
  [UInt8.ofNat (0x15 + 32 * f.extend.toNat + 64 * f.crc.toNat + 128 * f.ack.toNat), f.sequence] ++
    leBytes 2 (f.service + 32 * f.data.length)

/-- `extend`. -/
def extendBytes (f : SendFrame) : List UInt8 := leBytes 2 f.attr.number ++ leBytes 2 f.parameter.toNat

/-- The bytes before the CRC. -/
def sendbuffer (f : SendFrame) : List UInt8 :=
  f.headBytes ++ (if f.extend then f.extendBytes else []) ++
    (if f.attr = .shortData ∨ f.attr = .longData then f.data else [])

/-- `frame_send`, and `rt_link_command_frame_send` where nothing is carried. -/
def frameSend (calculateCrc : List UInt8 → UInt32) (f : SendFrame) : List UInt8 :=
  if f.crc then f.sendbuffer ++ leBytes crcLength (calculateCrc f.sendbuffer).toNat else f.sendbuffer

/-- The frame as it is received. -/
def received (f : SendFrame) : Frame where
  extend := f.extend
  crc := f.crc
  ack := f.ack
  sequence := f.sequence.toNat
  service := f.service
  length := f.data.length
  parameter := f.parameter
  attr := f.attr
  dataLen := f.data.length
  realData := 0

end SendFrame

/-- The extension as it lies in four bytes. -/
def Frame.setExtend (frame : Frame) (bytes : List UInt8) : Frame :=
  { frame with
    attr := frameAttr ((bytes.getD 0 0).toNat + 256 * (bytes.getD 1 0).toNat)
    parameter := UInt16.ofNat ((bytes.getD 2 0).toNat + 256 * (bytes.getD 3 0).toNat) }

/-- A head and its extension, with their length. -/
def parseHead (l : List UInt8) : Parsed (Frame × Nat) :=
  (Parsed.need headLength l).bind fun head =>
    let frame := Frame.init.setHead head
    if serviceMax ≤ frame.service then .reject
    else if frame.extend then
      (Parsed.need (headLength + extendLength) l).bind fun bytes =>
        let frame := frame.setExtend (bytes.drop headLength)
        if frame.attr = .reserve then .reject else .done (frame, headLength + extendLength)
    else .done ({ frame with attr := .shortData }, headLength)

/-- The CRC as it lies in four bytes. -/
def crcOf (crc : List UInt8) : Nat :=
  (crc.getD 0 0).toNat + 2 ^ 8 * (crc.getD 1 0).toNat + 2 ^ 16 * (crc.getD 2 0).toNat +
    2 ^ 24 * (crc.getD 3 0).toNat

/-- The length of a frame whose data are at `offset`. -/
def Frame.size (frame : Frame) (offset : Nat) : Nat :=
  offset + frame.dataLen + if frame.crc then crcLength else 0

variable (c : Context)

/-- The rest of a frame: it is decoded with its data and its length. -/
def parseData (frame : Frame) (offset : Nat) (l : List UInt8) : Parsed (Frame × List UInt8 × Nat) :=
  (Parsed.need (frame.size offset) l).bind fun bytes =>
    let body := bytes.take (offset + frame.dataLen)
    if frame.crc ∧ crcOf (bytes.drop (offset + frame.dataLen)) ≠ c.calculateCrc body then .reject
    else .done (frame, body.drop offset, frame.size offset)

/-- What the bytes begin with; `checked` where the sequence was looked at. -/
def parse (checked : Bool) (l : List UInt8) : Parsed (Frame × List UInt8 × Nat) :=
  (parseHead l).bind fun head =>
    if ¬ checked ∧ Rx.seqFails c head.1 then .reject else parseData c head.1 head.2 l

theorem final_parseHead : Parsed.Final parseHead := by
  refine (Parsed.final_need headLength).bind fun head => ?_
  refine (Parsed.final_const _).ite _ (Parsed.Final.ite _ ?_ (Parsed.final_const _))
  exact (Parsed.final_need _).bind fun bytes => (Parsed.final_const _)

theorem final_parseData (frame : Frame) (offset : Nat) : Parsed.Final (parseData c frame offset) :=
  (Parsed.final_need _).bind fun _ => Parsed.final_const _

theorem final_parse (checked : Bool) : Parsed.Final (parse c checked) :=
  final_parseHead.bind fun head => (Parsed.final_const _).ite _ (final_parseData c head.1 head.2)

variable {c} {n : Nat}

/-- A frame is not longer than what it was decoded from. -/
theorem length_le_of_parse {checked : Bool} {l data : List UInt8} {frame : Frame} {length : Nat}
    (h : parse c checked l = .done (frame, data, length)) : length ≤ l.length := by
  obtain ⟨head, -, hrest⟩ := Parsed.bind_eq_done h
  split_ifs at hrest
  obtain ⟨bytes, hneed, hdone⟩ := Parsed.bind_eq_done hrest
  dsimp only at hdone
  split_ifs at hdone
  cases hdone
  exact (Parsed.need_eq_done hneed).1

theorem leBytes_two (h : n < 2 ^ 16) :
    ((leBytes 2 n).getD 0 0).toNat + 256 * ((leBytes 2 n).getD 1 0).toNat = n := by
  simp [leBytes, range_succ]
  omega

theorem crcOf_leBytes (h : n < 2 ^ 32) : crcOf (leBytes crcLength n) = n := by
  simp [crcOf, leBytes, crcLength, range_succ]
  omega

namespace SendFrame

variable (f : SendFrame) {calculateCrc : List UInt8 → UInt32} {checked : Bool}

theorem setHead_headBytes :
    Frame.init.setHead f.headBytes = { f.received with attr := .reserve, parameter := 0 } := by
  have hservice := f.service_lt
  have hlength := f.length_le
  have htail := leBytes_two (n := f.service + 32 * f.data.length) (by
    unfold serviceMax maxDataLength at *
    omega)
  have hconfig : ∀ e c a : Bool, ((0x15 + 32 * e.toNat + 64 * c.toNat + 128 * a.toNat) % 256).testBit 5 = e ∧
      ((0x15 + 32 * e.toNat + 64 * c.toNat + 128 * a.toNat) % 256).testBit 6 = c ∧
      ((0x15 + 32 * e.toNat + 64 * c.toNat + 128 * a.toNat) % 256).testBit 7 = a := by decide
  obtain ⟨hextend, hcrc, hack⟩ := hconfig f.extend f.crc f.ack
  have hmod : (f.service + 32 * f.data.length) % 32 = f.service := by
    unfold serviceMax at hservice
    omega
  have hdiv : (f.service + 32 * f.data.length) / 32 = f.data.length := by
    omega
  simp only [headBytes, Frame.setHead, cons_append, nil_append, getD_cons_zero,
    getD_cons_succ, UInt8.toNat_ofNat', htail, hextend, hcrc, hack, hmod, hdiv]
  rfl

theorem setExtend_extendBytes (frame : Frame) :
    frame.setExtend f.extendBytes = { frame with attr := f.attr, parameter := f.parameter } := by
  have hattr := leBytes_two (n := f.attr.number) (by cases f.attr <;> decide)
  have hparameter := leBytes_two f.parameter.toNat_lt
  have hnumber : ∀ attr : FrameAttr, frameAttr attr.number = attr := fun attr => by cases attr <;> rfl
  have hfields : frame.setExtend f.extendBytes = { frame with
      attr := frameAttr (((leBytes 2 f.attr.number).getD 0 0).toNat +
        256 * ((leBytes 2 f.attr.number).getD 1 0).toNat)
      parameter := UInt16.ofNat (((leBytes 2 f.parameter.toNat).getD 0 0).toNat +
        256 * ((leBytes 2 f.parameter.toNat).getD 1 0).toNat) } := rfl
  rw [hfields, hattr, hparameter, hnumber, UInt16.ofNat_toNat]

/-- The length of a head and its extension. -/
def offset : Nat := headLength + if f.extend then extendLength else 0

theorem parseHead_frameSend (rest : List UInt8) :
    parseHead (f.headBytes ++ (if f.extend then f.extendBytes else []) ++ rest) =
      .done (f.received, f.offset) := by
  have hhead : f.headBytes.length = headLength := rfl
  have hservice : (Frame.init.setHead f.headBytes).service < serviceMax := by
    rw [f.setHead_headBytes]
    exact f.service_lt
  have hext : (Frame.init.setHead f.headBytes).extend = f.extend := by
    rw [f.setHead_headBytes]
    rfl
  unfold parseHead offset
  rw [← hhead, append_assoc, Parsed.need_append, Parsed.bind_done]
  rw [if_neg (Nat.not_le_of_lt hservice), hext]
  by_cases hextend : f.extend = true
  · have hlen : f.headBytes.length + extendLength = (f.headBytes ++ f.extendBytes).length := rfl
    rw [if_pos hextend, if_pos hextend, if_pos hextend, hlen, ← append_assoc, Parsed.need_append,
      Parsed.bind_done, drop_left, f.setHead_headBytes, f.setExtend_extendBytes, if_neg f.attr_ne]
    rfl
  · have hshort : f.attr = .shortData := by simpa [SendFrame.extend] using hextend
    rw [if_neg hextend, if_neg hextend, f.setHead_headBytes, received, f.parameter_eq hshort, hshort]
    rfl

theorem carried : (if f.attr = .shortData ∨ f.attr = .longData then f.data else []) = f.data := by
  split_ifs with h
  · rfl
  · exact (f.data_eq (fun heq => h (.inl heq)) fun heq => h (.inr heq)).symm

theorem length_sendbuffer : f.sendbuffer.length = f.offset + f.data.length := by
  unfold sendbuffer offset
  rw [f.carried, length_append]
  split_ifs <;> rfl

theorem length_frameSend : (f.frameSend calculateCrc).length = f.received.size f.offset := by
  have hlen := f.length_sendbuffer
  unfold frameSend Frame.size
  cases hcrc : f.crc <;> simp [received, hcrc, leBytes, hlen]

/-- A frame is received as it was sent, whatever follows it. -/
theorem parse_frameSend (rest : List UInt8)
    (hcrc : c.calculateCrc = fun l => (calculateCrc l).toNat)
    (hseq : checked = true ∨ Rx.seqFails c f.received = false) :
    parse c checked (f.frameSend calculateCrc ++ rest) =
      .done (f.received, f.data, (f.frameSend calculateCrc).length) := by
  obtain ⟨behind, hbehind⟩ : ∃ behind, f.frameSend calculateCrc ++ rest =
      f.headBytes ++ (if f.extend then f.extendBytes else []) ++ behind := by
    obtain ⟨behind, hbehind⟩ : f.sendbuffer <+: f.frameSend calculateCrc := by
      unfold frameSend
      split_ifs
      · exact prefix_append _ _
      · exact prefix_rfl
    exact ⟨_, by rw [← hbehind, sendbuffer, append_assoc, append_assoc]⟩
  have hlen := f.length_sendbuffer
  have hseq' : ¬ (¬ checked = true ∧ Rx.seqFails c f.received = true) := by
    rcases hseq with hseq | hseq <;> simp [hseq]
  have hdata : f.sendbuffer.drop f.offset = f.data := by
    have hfront : (f.headBytes ++ if f.extend then f.extendBytes else []).length = f.offset := by
      unfold offset
      split_ifs <;> rfl
    rw [sendbuffer, f.carried, ← hfront, drop_left]
  unfold parse
  rw [hbehind, f.parseHead_frameSend, Parsed.bind_done, if_neg hseq', ← hbehind, parseData,
    ← f.length_frameSend, Parsed.need_append, Parsed.bind_done]
  have hbody : (f.frameSend calculateCrc).take (f.offset + f.received.dataLen) = f.sendbuffer := by
    rw [show f.received.dataLen = f.data.length from rfl, ← hlen, frameSend]
    split_ifs
    · exact take_left
    · exact take_length
  dsimp only
  rw [hbody, hdata, if_neg]
  rintro ⟨hhas, hne⟩
  rw [show f.received.dataLen = f.data.length from rfl, ← hlen, frameSend, if_pos (show f.crc = true from hhas),
    drop_left, crcOf_leBytes (calculateCrc f.sendbuffer).toNat_lt, hcrc] at hne
  exact hne rfl

/-- While a frame arrives the parser waits, until its last byte has come; it then decodes the frame, and what
has come behind it does not matter. -/
theorem parse_take_frameSend (rest : List UInt8) (n : Nat)
    (hcrc : c.calculateCrc = fun l => (calculateCrc l).toNat)
    (hseq : checked = true ∨ Rx.seqFails c f.received = false) :
    parse c checked ((f.frameSend calculateCrc ++ rest).take n) =
      if n < (f.frameSend calculateCrc).length then .wait
      else .done (f.received, f.data, (f.frameSend calculateCrc).length) := by
  split_ifs with hn
  · have hwhole := f.parse_frameSend [] hcrc hseq
    rw [append_nil, ← take_append_drop n (f.frameSend calculateCrc)] at hwhole
    rw [take_append_of_le_length (Nat.le_of_lt hn)]
    rcases (final_parse c checked).of_append hwhole with hwait | hdone
    · exact hwait
    · have hle := length_le_of_parse hdone
      rw [take_append_drop, length_take] at hle
      omega
  · rw [take_append, take_of_length_le (Nat.le_of_not_lt hn)]
    exact f.parse_frameSend _ hcrc hseq

end SendFrame

/-- A short frame for service 1. -/
def shortFour (crc : Bool) (sequence : UInt8) : SendFrame where
  crc := crc
  ack := true
  sequence := sequence
  service := 1
  attr := .shortData
  parameter := 0
  data := [5, 6, 7, 8]
  service_lt := by decide
  attr_ne := by decide
  parameter_eq := fun _ => rfl
  length_le := by decide
  data_eq := fun h => absurd rfl h

end RtKernel.Link

import RtKernel.Link.Parse
import RtKernel.Link.ReceiveBuffer

/-!
# Passes of the parser of rt-link

Wherever the bytes lie in the receive buffer, and whatever the parser has looked at before, a pass does
what the bytes that are held begin with.
-/

open List

namespace RtKernel.Link

namespace Rx

/-- The buffer holds these bytes. -/
def Held (rx : Rx) (q : List UInt8) : Prop := ∃ trace, ReceiveBuffer.Refines ⟨rx, q, trace⟩

/-- The buffers are the same. -/
structure SameBuffer (rx rx' : Rx) : Prop where
  data : rx'.data = rx.data
  readPoint : rx'.readPoint = rx.readPoint
  writePoint : rx'.writePoint = rx.writePoint

/-- The cell `o` bytes behind the read pointer. -/
def cell (rx : Rx) (o : Nat) : Nat := (rx.readPoint + o) % receiveBufferLength

variable {rx rx' : Rx} {q : List UInt8} {o n : Nat}

theorem SameBuffer.held (h : SameBuffer rx rx') (hq : Held rx q) : Held rx' q := by
  obtain ⟨trace, hq⟩ := hq
  obtain ⟨data, readPoint, writePoint, status, frame, point, buffLen⟩ := rx'
  obtain ⟨rfl, rfl, rfl⟩ := h
  exact ⟨trace, ⟨hq.inside.readPoint, hq.inside.writePoint⟩, hq.answers, hq.recvLen, hq.copy⟩

section

variable (h : Held rx q)
include h

theorem Held.inside : rx.Inside := h.elim fun _ h => h.inside

theorem Held.recvLen : rx.recvLen = q.length := h.elim fun _ h => h.recvLen

theorem Held.skip (hn : n ≤ q.length) : Held (rx.skip n) (q.drop n) := by
  obtain ⟨trace, hq⟩ := h
  have hle : n ≤ rx.recvLen := hq.recvLen.symm ▸ hn
  obtain ⟨t, ht, hrefines⟩ := hq.consume hle
  rw [ReceiveBuffer.consume, if_pos hle] at ht
  cases ht
  exact ⟨_, hrefines⟩

theorem Held.hwBufferWrite {bytes : List UInt8}
    (hroom : q.length + bytes.length < receiveBufferLength) : ∃ data writePoint,
    rx.hwBufferWrite bytes = some { rx with data := data, writePoint := writePoint } ∧
    Held { rx with data := data, writePoint := writePoint } (q ++ bytes) := by
  obtain ⟨trace, hq⟩ := h
  obtain ⟨data, writePoint, hwrite, -⟩ := hq.inside.hwBufferWrite bytes
  have hfree : rx.recvLen + bytes.length < receiveBufferLength := by
    rw [show rx.recvLen = q.length from hq.recvLen]
    exact hroom
  obtain ⟨t, ht, hrefines⟩ := hq.writeCb hfree
  have hcount : rx.hwBufferCount bytes = bytes.length := by
    rw [hq.inside.hwBufferCount_eq, show rx.recvLen = q.length from hq.recvLen]
    omega
  rw [ReceiveBuffer.writeCb, hwWriteCb, hwrite, hcount] at ht
  cases ht
  dsimp only at hrefines
  rw [take_length] at hrefines
  exact ⟨data, writePoint, hwrite, _, hrefines⟩

/-- Bytes are copied from behind the read pointer. -/
theorem Held.hwCopy (hn : o + n ≤ q.length) : rx.hwCopy (rx.cell o) n = (q.drop o).take n := by
  obtain ⟨trace, hq⟩ := h
  have hlt : rx.recvLen < receiveBufferLength := hq.inside.recvLen_lt
  have hlen : rx.recvLen = q.length := hq.recvLen
  have hin : Inside { rx with readPoint := rx.cell o } :=
    ⟨Nat.mod_lt _ (by decide), hq.inside.writePoint⟩
  have hcopy := hin.hwCopy_eq (show n ≤ receiveBufferLength by omega)
  have hitems := hq.items
  dsimp only at hcopy hitems
  rw [show rx.hwCopy (rx.cell o) n = _ from hcopy, cell, ringItems_mod]
  conv_rhs => rw [← hitems, drop_ringItems, take_ringItems (by omega)]

theorem Held.shift (hn : o + n ≤ q.length) : rx.shift (rx.cell o) n = rx.cell (o + n) := by
  have hwrite := h.inside.writePoint
  rw [← h.recvLen] at hn
  unfold Rx.recvLen at hn
  unfold Rx.shift cell
  unfold receiveBufferLength at *
  split_ifs at hn ⊢ <;> omega

end

theorem Inside.cell_zero (h : Inside rx) : rx.cell 0 = rx.readPoint := Nat.mod_eq_of_lt h.readPoint

/-- A frame whose head has been read, and whose data are waited for. -/
def Waits (rx : Rx) (q : List UInt8) (crc : Bool) : Prop :=
  ∃ frame offset, parseHead q = .done (frame, offset) ∧ frame.crc = crc ∧
    rx.receiveFrame = { frame with realData := rx.cell offset } ∧ rx.point = rx.cell offset ∧
    rx.buffLen = frame.size offset

/-- What the parser keeps belongs to the bytes that are held. -/
def Tracks (rx : Rx) (q : List UInt8) : Prop :=
  match rx.analysisStatus with
  | .findFrameHead | .parseFrameHead => rx.buffLen = headLength
  | .parseFrameExtend =>
    headLength ≤ q.length ∧ rx.receiveFrame = Frame.init.setHead (q.take headLength) ∧
      rx.receiveFrame.extend = true ∧ rx.receiveFrame.service < serviceMax ∧
      rx.point = rx.cell headLength ∧ rx.buffLen = headLength + extendLength
  | .parseFrameSeq => False
  | .checkFrameCrc => rx.Waits q true
  | .headleFrameData => rx.Waits q false

/-- The sequence has been looked at. -/
def checked (rx : Rx) : Bool :=
  rx.analysisStatus = .checkFrameCrc ∨ rx.analysisStatus = .headleFrameData

/-- A frame that is handled, without the place of its data, and these. -/
def decoded (rx : Rx) : Frame × List UInt8 :=
  ({ rx.receiveFrame with realData := 0 },
    rx.hwCopy rx.receiveFrame.realData rx.receiveFrame.dataLen)

/-- A pass does what has been parsed. -/
inductive Makes (rx : Rx) (q : List UInt8) : Parsed (Frame × List UInt8 × Nat) → Pass → Prop
  | wait {after : Rx} (same : SameBuffer rx after) (tracks : Tracks after q)
      (status : after.analysisStatus ≠ .findFrameHead) : Makes rx q .wait (.stop after)
  | reject {after : Rx} (same : SameBuffer (rx.skip 1) after) : Makes rx q .reject (.findHead after)
  | done {after : Rx} {frame data length} (same : SameBuffer (rx.skip length) after)
      (hdecoded : after.decoded = (frame, data)) :
      Makes rx q (.done (frame, data, length)) (.handle after)

variable {c : Context} {frame : Frame} {offset : Nat}

theorem parseHead_spec (h : parseHead q = .done (frame, offset)) :
    frame.realData = 0 ∧ offset ≤ headLength + extendLength ∧ offset ≤ q.length := by
  obtain ⟨head, hneed, hrest⟩ := Parsed.bind_eq_done h
  have hlen := (Parsed.need_eq_done hneed).1
  dsimp only at hrest
  split_ifs at hrest
  · obtain ⟨bytes, hneed, hdone⟩ := Parsed.bind_eq_done hrest
    have hlen := (Parsed.need_eq_done hneed).1
    split_ifs at hdone
    cases hdone
    exact ⟨rfl, le_rfl, hlen⟩
  · cases hrest
    exact ⟨rfl, by decide, hlen⟩

theorem Held.decoded (h : Held rx q) (hframe : frame.realData = 0)
    (hreceive : rx.receiveFrame = { frame with realData := rx.cell offset })
    (hlen : offset + frame.dataLen ≤ q.length) :
    rx.decoded = (frame, (q.drop offset).take frame.dataLen) := by
  have hcopy := h.hwCopy hlen
  rw [Rx.decoded, hreceive, ← hframe]
  exact congrArg (Prod.mk frame) hcopy

theorem Held.headleFrameData (h : Held rx q) (hwaits : rx.Waits q false)
    (hstatus : rx.analysisStatus = .headleFrameData) (hhead : parseHead q = .done (frame, offset)) :
    Makes rx q (parseData c frame offset q) rx.headleFrameData := by
  obtain ⟨frame', offset', hhead', hcrc, hreceive, hpoint, hbuff⟩ := hwaits
  cases hhead.symm.trans hhead'
  have hsize : frame.size offset = offset + frame.dataLen := by simp [Frame.size, hcrc]
  unfold Rx.headleFrameData parseData
  rw [h.recvLen, hbuff]
  split_ifs with hlt
  · rw [Parsed.need_of_lt hlt]
    refine .wait ⟨rfl, rfl, rfl⟩ ?_ (by rw [hstatus]; decide)
    rw [Tracks, hstatus]
    exact ⟨frame, offset, hhead, hcrc, hreceive, hpoint, hbuff⟩
  · rw [Parsed.need_of_le (Nat.le_of_not_lt hlt), Parsed.bind_done]
    rw [if_neg (by simp [hcrc]), take_take, hsize, Nat.min_self, drop_take,
      Nat.add_sub_cancel_left]
    exact .done ⟨rfl, rfl, rfl⟩ (h.decoded (parseHead_spec hhead).1 hreceive (by omega))

/-- Only what the parser keeps has changed before. -/
theorem Held.of_same {p : Parsed (Frame × List UInt8 × Nat)} {pass : Pass} {status : FrameParse} {receive : Frame}
    {point buffLen : Nat} (h : Held rx q)
    (hmakes : Held ⟨rx.data, rx.readPoint, rx.writePoint, status, receive, point, buffLen⟩ q →
      Makes ⟨rx.data, rx.readPoint, rx.writePoint, status, receive, point, buffLen⟩ q p pass) :
    Makes rx q p pass := by
  have hsame : SameBuffer rx ⟨rx.data, rx.readPoint, rx.writePoint, status, receive, point, buffLen⟩ :=
    ⟨rfl, rfl, rfl⟩
  cases hmakes (hsame.held h) with
  | wait same tracks status => exact .wait ⟨same.data, same.readPoint, same.writePoint⟩ tracks status
  | reject same => exact .reject ⟨same.data, same.readPoint, same.writePoint⟩
  | done same hdecoded => exact .done ⟨same.data, same.readPoint, same.writePoint⟩ hdecoded

theorem checkFrameCrc_whole (hcrc : rx.receiveFrame.crc = true) (hlen : ¬ rx.recvLen < rx.buffLen) :
    let behind := { rx with point := rx.shift rx.point rx.receiveFrame.dataLen }
    rx.checkFrameCrc c =
      if crcOf (rx.hwCopy behind.point crcLength) ≠
          c.calculateCrc (rx.hwCopy rx.readPoint (rx.buffLen - crcLength)) then
        .findHead (behind.skip 1)
      else .handle ({ behind with analysisStatus := .headleFrameData }.skip rx.buffLen) := by
  intro behind
  unfold Rx.checkFrameCrc
  rw [if_pos hcrc, if_neg hlen]
  exact if_congr Iff.rfl rfl (if_neg hlen)

theorem Held.checkFrameCrc (h : Held rx q) (hwaits : rx.Waits q frame.crc)
    (hstatus : frame.crc = true → rx.analysisStatus = .checkFrameCrc)
    (hhead : parseHead q = .done (frame, offset)) :
    Makes rx q (parseData c frame offset q) (rx.checkFrameCrc c) := by
  obtain ⟨frame', offset', hhead', hcrc', hreceive, hpoint, hbuff⟩ := hwaits
  cases hhead.symm.trans hhead'
  have hhas : rx.receiveFrame.crc = frame.crc := by rw [hreceive]
  cases hcrc : frame.crc with
  | false =>
    rw [Rx.checkFrameCrc, hhas, hcrc]
    exact h.of_same fun h => h.headleFrameData ⟨frame, offset, hhead, hcrc, hreceive, hpoint, hbuff⟩ rfl hhead
  | true =>
    have hsize : frame.size offset = offset + frame.dataLen + crcLength := by simp [Frame.size, hcrc]
    unfold parseData
    by_cases hlt : q.length < frame.size offset
    · rw [Parsed.need_of_lt hlt, Rx.checkFrameCrc, hhas, hcrc, h.recvLen, hbuff, if_pos hlt]
      refine .wait ⟨rfl, rfl, rfl⟩ ?_ (by rw [hstatus hcrc]; decide)
      rw [Tracks, hstatus hcrc]
      exact ⟨frame, offset, hhead, hcrc, hreceive, hpoint, hbuff⟩
    · have hlen : offset + frame.dataLen + crcLength ≤ q.length := hsize ▸ Nat.le_of_not_lt hlt
      have hdata : offset + frame.dataLen ≤ q.length := by omega
      have hbody : rx.hwCopy rx.readPoint (frame.size offset - crcLength) =
          q.take (offset + frame.dataLen) := by
        have hcopy := h.hwCopy (o := 0) (n := offset + frame.dataLen) (by omega)
        rw [h.inside.cell_zero, drop_zero] at hcopy
        rw [hsize, Nat.add_sub_cancel, hcopy]
      have hshift : rx.shift rx.point rx.receiveFrame.dataLen = rx.cell (offset + frame.dataLen) := by
        rw [hpoint, hreceive]
        exact h.shift hdata
      rw [checkFrameCrc_whole (hhas.trans hcrc) (by rwa [h.recvLen, hbuff]),
        Parsed.need_of_le (Nat.le_of_not_lt hlt), Parsed.bind_done]
      rw [hshift, hbuff, h.hwCopy hlen, hbody, take_take, drop_take, hsize,
        Nat.min_eq_left (Nat.le_add_right _ _), Nat.add_sub_cancel_left, hcrc]
      simp only [true_and]
      split_ifs
      · exact .reject ⟨rfl, rfl, rfl⟩
      · rw [drop_take, Nat.add_sub_cancel_left]
        exact .done ⟨rfl, rfl, rfl⟩ (h.decoded (parseHead_spec hhead).1 hreceive hdata)

theorem Held.parseFrameSeq (h : Held rx q) (hhead : parseHead q = .done (frame, offset))
    (hreceive : rx.receiveFrame = frame) (hpoint : rx.point = rx.cell offset)
    (hbuff : rx.buffLen = offset) : Makes rx q (parse c false q) (rx.parseFrameSeq c) := by
  subst hreceive
  unfold parse Rx.parseFrameSeq
  rw [hhead, Parsed.bind_done, hpoint, hbuff]
  by_cases hseq : seqFails c rx.receiveFrame = true
  · rw [if_pos hseq, if_pos (by simpa using hseq)]
    exact .reject ⟨rfl, rfl, rfl⟩
  · rw [if_neg hseq, if_neg (by simpa using hseq)]
    by_cases hcrc : rx.receiveFrame.crc = true
    · rw [if_pos hcrc]
      refine h.of_same fun h => h.checkFrameCrc ⟨_, offset, hhead, rfl, rfl, rfl, ?_⟩ ?_ hhead
      · simp [Frame.size, hcrc]
      · exact fun _ => rfl
    · rw [if_neg hcrc]
      refine h.of_same fun h => h.checkFrameCrc ⟨_, offset, hhead, rfl, rfl, rfl, ?_⟩ ?_ hhead
      · simp [Frame.size, hcrc]
      · exact fun heq => absurd heq hcrc

theorem parseHead_extend (hlen : headLength ≤ q.length)
    (hservice : (Frame.init.setHead (q.take headLength)).service < serviceMax)
    (hextend : (Frame.init.setHead (q.take headLength)).extend = true) :
    parseHead q = (Parsed.need (headLength + extendLength) q).bind fun bytes =>
      let frame := (Frame.init.setHead (q.take headLength)).setExtend (bytes.drop headLength)
      if frame.attr = .reserve then .reject else .done (frame, headLength + extendLength) := by
  unfold parseHead
  rw [Parsed.need_of_le hlen, Parsed.bind_done]
  rw [if_neg (Nat.not_le_of_lt hservice), if_pos hextend]

theorem Held.parseFrameExtend (h : Held rx q) (htracks : rx.Tracks q)
    (hstatus : rx.analysisStatus = .parseFrameExtend) :
    Makes rx q (parse c false q) (rx.parseFrameExtend c) := by
  have htracks' := htracks
  rw [Tracks, hstatus] at htracks'
  obtain ⟨hlen, hreceive, hextend, hservice, hpoint, hbuff⟩ := htracks'
  have hhead := parseHead_extend hlen (hreceive ▸ hservice) (hreceive ▸ hextend)
  rw [← hreceive] at hhead
  unfold Rx.parseFrameExtend
  rw [if_pos hextend, h.recvLen, hbuff]
  by_cases hlt : q.length < headLength + extendLength
  · rw [if_pos hlt, parse, hhead, Parsed.need_of_lt hlt]
    exact .wait ⟨rfl, rfl, rfl⟩ htracks (by rw [hstatus]; decide)
  · have hle : headLength + extendLength ≤ q.length := Nat.le_of_not_lt hlt
    rw [Parsed.need_of_le hle, Parsed.bind_done, drop_take, Nat.add_sub_cancel_left,
      ← h.hwCopy hle, ← hpoint] at hhead
    rw [if_neg hlt]
    by_cases hattr : (rx.receiveFrame.setExtend (rx.hwCopy rx.point extendLength)).attr = .reserve
    · rw [if_pos hattr] at hhead
      rw [parse, hhead, if_pos (by exact hattr)]
      exact .reject ⟨rfl, rfl, rfl⟩
    · rw [if_neg hattr] at hhead
      rw [if_neg (by exact hattr)]
      exact h.of_same fun h' => h'.parseFrameSeq hhead rfl (by rw [hpoint]; exact h.shift hle) rfl

theorem Held.parseFrameHead (h : Held rx q) (hbuff : rx.buffLen = headLength)
    (hstatus : rx.analysisStatus = .parseFrameHead) :
    Makes rx q (parse c false q) (rx.parseFrameHead c) := by
  unfold Rx.parseFrameHead
  rw [h.recvLen, hbuff]
  by_cases hlt : q.length < headLength
  · rw [if_pos hlt, parse, parseHead, Parsed.need_of_lt hlt]
    refine .wait ⟨rfl, rfl, rfl⟩ ?_ (by rw [hstatus]; decide)
    rwa [Tracks, hstatus]
  · have hle : headLength ≤ q.length := Nat.le_of_not_lt hlt
    have hcopy : rx.hwCopy rx.readPoint headLength = q.take headLength := by
      have hcopy := h.hwCopy (o := 0) (n := headLength) (by omega)
      rwa [h.inside.cell_zero, drop_zero] at hcopy
    have hpoint : rx.shift rx.readPoint headLength = rx.cell headLength := by
      have hshift := h.shift (o := 0) (n := headLength) (by omega)
      rwa [h.inside.cell_zero, Nat.zero_add] at hshift
    rw [if_neg hlt, hcopy, hpoint]
    generalize hframe : Frame.init.setHead (q.take headLength) = frame
    by_cases hservice : serviceMax ≤ frame.service
    · rw [if_pos hservice, parse, parseHead, Parsed.need_of_le hle, Parsed.bind_done, hframe]
      dsimp only
      rw [if_pos hservice]
      exact .reject ⟨rfl, rfl, rfl⟩
    · rw [if_neg hservice]
      by_cases hextend : frame.extend = true
      · rw [if_pos hextend]
        exact h.of_same fun h => h.parseFrameExtend
          ⟨hle, hframe.symm, hextend, Nat.lt_of_not_le hservice, rfl, rfl⟩ rfl
      · have hhead : parseHead q = .done ({ frame with attr := .shortData }, headLength) := by
          rw [parseHead, Parsed.need_of_le hle, Parsed.bind_done, hframe]
          rw [if_neg hservice, if_neg hextend]
        rw [if_neg hextend, Rx.parseFrameExtend, if_neg (by exact hextend)]
        exact h.of_same fun h => h.parseFrameSeq hhead rfl rfl rfl

/-- A pass does what the bytes that are held begin with. -/
theorem Held.frameCheck (h : Held rx q) (htracks : rx.Tracks q) (hq : q ≠ [])
    (hstatus : rx.analysisStatus ≠ .findFrameHead) :
    Makes rx q (parse c rx.checked q) (rx.frameCheck c) := by
  have hlen : rx.recvLen ≠ 0 := by
    rw [h.recvLen]
    exact fun hzero => hq (length_eq_zero_iff.mp hzero)
  have hkeeps := htracks
  unfold Rx.frameCheck checked
  rw [if_neg hlen]
  cases heq : rx.analysisStatus with
  | findFrameHead => exact absurd heq hstatus
  | parseFrameHead =>
    rw [Tracks, heq] at hkeeps
    exact h.parseFrameHead hkeeps heq
  | parseFrameExtend => exact h.parseFrameExtend htracks heq
  | parseFrameSeq =>
    rw [Tracks, heq] at hkeeps
    exact hkeeps.elim
  | checkFrameCrc =>
    rw [Tracks, heq] at hkeeps
    have hwaits := hkeeps
    obtain ⟨frame, offset, hhead, hcrc, -⟩ := hwaits
    rw [← hcrc] at hkeeps
    rw [parse, hhead]
    exact h.checkFrameCrc hkeeps (fun _ => heq) hhead
  | headleFrameData =>
    rw [Tracks, heq] at hkeeps
    have hwaits := hkeeps
    obtain ⟨frame, offset, hhead, -⟩ := hwaits
    rw [parse, hhead]
    exact h.headleFrameData hkeeps heq hhead

/-- While a frame arrives the pass waits, wherever the bytes lie and however far it has parsed them, until the
last one has come; it then handles the frame that was sent, and leaves what has come behind it. -/
theorem Held.frameCheck_frameSend {calculateCrc : List UInt8 → UInt32} (f : SendFrame) (rest : List UInt8) {n : Nat}
    (h : Held rx ((f.frameSend calculateCrc ++ rest).take n)) (hn : 0 < n)
    (htracks : rx.Tracks ((f.frameSend calculateCrc ++ rest).take n)) (hstatus : rx.analysisStatus ≠ .findFrameHead)
    (hcrc : c.calculateCrc = fun l => (calculateCrc l).toNat)
    (hseq : rx.checked = true ∨ Rx.seqFails c f.received = false) :
    if n < (f.frameSend calculateCrc).length then
      ∃ after, rx.frameCheck c = .stop after ∧ SameBuffer rx after ∧
        after.Tracks ((f.frameSend calculateCrc ++ rest).take n) ∧ after.analysisStatus ≠ .findFrameHead
    else
      ∃ after, rx.frameCheck c = .handle after ∧ after.decoded = (f.received, f.data) ∧
        Held after (((f.frameSend calculateCrc ++ rest).take n).drop (f.frameSend calculateCrc).length) := by
  have hq : (f.frameSend calculateCrc ++ rest).take n ≠ [] := by
    intro hnil
    have hlen := congrArg List.length hnil
    rw [List.length_take, List.length_append, f.length_frameSend, Frame.size, SendFrame.offset, headLength,
      List.length_nil] at hlen
    omega
  have hmakes := h.frameCheck (c := c) htracks hq hstatus
  rw [f.parse_take_frameSend rest n hcrc hseq] at hmakes
  split_ifs at hmakes ⊢ with hlt
  · generalize rx.frameCheck c = pass at hmakes
    cases hmakes with
    | wait same tracks status => exact ⟨_, rfl, same, tracks, status⟩
  · generalize rx.frameCheck c = pass at hmakes
    cases hmakes with
    | done same hdecoded =>
      refine ⟨_, rfl, hdecoded, same.held (h.skip ?_)⟩
      rw [List.length_take, List.length_append]
      omega

/-- A frame with a CRC in the buffer. -/
theorem frameCheck_frameSend_four : ∃ rx after : Rx,
    rx.frameCheck ⟨255, 129, none, fun _ => 7⟩ = .handle after ∧
    after.decoded = ((shortFour true 0).received, [5, 6, 7, 8]) := by
  have hempty : Held ⟨fun _ => 0, 0, 0, .parseFrameHead, Frame.init, 0, headLength⟩ [] :=
    ⟨[], ReceiveBuffer.refines_of_items ⟨by decide, by decide⟩ .start rfl ringItems_zero⟩
  obtain ⟨data, writePoint, -, hheld⟩ := hempty.hwBufferWrite
    (show (([] : List UInt8).length + (((shortFour true 0).frameSend (fun _ => 7) ++ []).take 12).length <
      receiveBufferLength) by decide)
  obtain ⟨after, hpass, hdecoded, -⟩ := hheld.frameCheck_frameSend (c := ⟨255, 129, none, fun _ => 7⟩)
    (shortFour true 0) [] (by decide) rfl (by simp) rfl (.inr (by decide))
  exact ⟨_, after, hpass, hdecoded⟩

end Rx

end RtKernel.Link

import RtKernel.Link.Passes
import RtKernel.Link.Receive

/-!
# Frames that come over a line of rt-link

Frames and other bytes are on the line and arrive in pieces, while the parser runs and the timeout of a
frame may empty the buffer. Frames are decoded in the order in which they were sent.
-/

open List

namespace RtKernel.Link

/-- What is on the line: a frame, or bytes that are none, such as a part of one. -/
inductive Item
  | frame (f : SendFrame)
  | bad (bytes : List UInt8)

/-- What becomes of a frame: it is decoded, with its data, or a timeout discards bytes of it. -/
inductive Event
  | decoded (frame : Frame) (data : List UInt8)
  | discarded (f : SendFrame)

def Event.data : Event → Option (List UInt8)
  | .decoded _ data => some data
  | .discarded _ => none

/-- The receiver, what has not been consumed, and what has happened. -/
structure Line where
  session : Session
  items : List Item
  sent : List SendFrame
  log : List Event

def Pass.stops : Pass → Bool
  | .stop _ => true
  | .findHead _ | .handle _ => false

variable (calculateCrc : List UInt8 → UInt32)

namespace Item

def bytes : Item → List UInt8
  | frame f => f.frameSend calculateCrc
  | bad bytes => bytes

def frames : Item → List SendFrame
  | frame f => [f]
  | bad _ => []

end Item

/-- The bytes of items. -/
def wire (items : List Item) : List UInt8 := items.flatMap (Item.bytes calculateCrc)

/-- What is left behind the first `n` bytes; of a frame that has lost some, other bytes. -/
def cut : List Item → Nat → List Item
  | [], _ => []
  | item :: items, n =>
    if n = 0 then item :: items
    else if (item.bytes calculateCrc).length ≤ n then
      cut items (n - (item.bytes calculateCrc).length)
    else .bad ((item.bytes calculateCrc).drop n) :: items

/-- The frames that have some of the first `n` bytes. -/
def touched : List Item → Nat → List SendFrame
  | [], _ => []
  | item :: items, n =>
    if n = 0 then [] else item.frames ++ touched items (n - (item.bytes calculateCrc).length)

/-- The bytes before the next frame. -/
def junk : List Item → List UInt8
  | .bad bytes :: items => bytes ++ junk items
  | _ => []

def nextFrame : List Item → Option SendFrame
  | [] => none
  | .frame f :: _ => some f
  | .bad _ :: items => nextFrame items

namespace Line

def context (line : Line) : Context := line.session.context fun l => (calculateCrc l).toNat

/-- The bytes that have arrived. -/
def queue (line : Line) : List UInt8 := (wire calculateCrc line.items).take line.session.rx.recvLen

/-- The next bytes that arrive. -/
def coming (line : Line) (count : Nat) : List UInt8 :=
  ((wire calculateCrc line.items).drop line.session.rx.recvLen).take count

/-- What a pass decodes. -/
def handled (line : Line) : List Event :=
  match line.session.rx.frameCheck (line.context calculateCrc) with
  | .stop _ | .findHead _ => []
  | .handle rx => [.decoded rx.decoded.1 rx.decoded.2]

/-- What may happen. -/
inductive Act
  | emit (f : SendFrame)
  | disturb (bytes : List UInt8)
  /-- `rt_link_hw_write_cb` is called. -/
  | arrive (count : Nat)
  /-- A pass of `rt_link_frame_check`. -/
  | check (mem : Bool)
  | recvTimeout
  /-- Something else happens to the session. -/
  | other (a : Session.Act)

def exec (line : Line) : Act → Option Line
  | .emit f => some { line with items := line.items ++ [.frame f], sent := line.sent ++ [f] }
  | .disturb bytes => some { line with items := line.items ++ [.bad bytes] }
  | .arrive count =>
    (line.session.rx.hwBufferWrite (line.coming calculateCrc count)).map fun rx =>
      { line with session := { line.session with rx := rx } }
  | .check mem =>
    let s := line.session.frameCheck (fun l => (calculateCrc l).toNat) mem
    some { line with
      session := s
      items := cut calculateCrc line.items (line.session.rx.recvLen - s.rx.recvLen)
      log := line.log ++ line.handled calculateCrc }
  | .recvTimeout =>
    let rx := line.session.rx
    some { line with
      session := { line.session with rx := rx.skip rx.recvLen }
      items := cut calculateCrc line.items rx.recvLen
      log := line.log ++ (touched calculateCrc line.items rx.recvLen).map .discarded }
  | .other (.write _) | .other (.check _) | .other .recvTimeout => none
  | .other a =>
    (line.session.exec (fun l => (calculateCrc l).toNat) a).map fun s => { line with session := s }

/-- Nothing is on the line, and the parser looks for a head, anywhere in the buffer. -/
structure Initial (line : Line) : Prop where
  inside : line.session.rx.Inside
  recvLen : line.session.rx.recvLen = 0
  status : line.session.rx.analysisStatus = .findFrameHead
  buffLen : line.session.rx.buffLen = headLength
  empty : line.items = [] ∧ line.sent = [] ∧ line.log = []

/-- The frame that comes first has a sequence that is accepted, where it is still looked at. -/
def InWindow (line : Line) : Prop :=
  junk line.items = [] → ∀ f ∈ nextFrame line.items,
    line.session.rx.checked = true ∨ Rx.seqFails (line.context calculateCrc) f.received = false

/-- Bytes that are no frame are not taken for one, and not waited behind once the next frame is there. -/
def Skips (line : Line) : Prop :=
  junk line.items ≠ [] → line.session.rx.analysisStatus ≠ .findFrameHead →
    match parse (line.context calculateCrc) line.session.rx.checked (line.queue calculateCrc) with
    | .reject => True
    | .done _ => False
    | .wait => ∀ f ∈ nextFrame line.items, line.session.rx.recvLen <
        (junk line.items).length + (f.frameSend calculateCrc).length

/-- The buffer is not filled, and the timeout of a frame comes where no head has been read. -/
def Careful (line : Line) : Act → Prop
  | .arrive count =>
    line.session.rx.recvLen + (line.coming calculateCrc count).length < receiveBufferLength
  | .check _ => line.InWindow calculateCrc ∧ line.Skips calculateCrc
  | .recvTimeout => line.session.rx.analysisStatus = .findFrameHead ∨
      line.session.rx.analysisStatus = .parseFrameHead
  | .emit _ | .disturb _ | .other _ => True

/-- What became of a frame is right. -/
def Answers (f : SendFrame) : Event → Prop
  | .decoded frame data => frame = f.received ∧ data = f.data
  | .discarded g => g = f

/-- Of the frames that were sent, in their order, each was decoded as it was sent, or discarded by a
timeout, or is still to come. -/
def Settled (line : Line) : Prop :=
  ∃ done, line.sent = done ++ line.items.flatMap Item.frames ∧ List.Forall₂ Answers done line.log

variable {calculateCrc : List UInt8 → UInt32} {line : Line}

variable (calculateCrc) in
theorem length_frameSend_pos (f : SendFrame) : 0 < (f.frameSend calculateCrc).length := by
  rw [f.length_frameSend]
  unfold Frame.size SendFrame.offset headLength
  omega

@[simp] theorem touched_zero (items : List Item) : touched calculateCrc items 0 = [] := by
  cases items <;> simp [touched]

theorem wire_cut (items : List Item) (n : Nat) :
    wire calculateCrc (cut calculateCrc items n) = (wire calculateCrc items).drop n := by
  induction items generalizing n with
  | nil => simp [cut, wire]
  | cons item items ih =>
    unfold wire at *
    rw [cut, flatMap_cons, drop_append]
    split_ifs with hzero hle
    · simp [hzero]
    · rw [ih, drop_eq_nil_of_le hle, nil_append]
    · rw [Nat.sub_eq_zero_of_le (Nat.le_of_not_le hle)]
      rfl

theorem touched_append_cut (items : List Item) (n : Nat) :
    touched calculateCrc items n ++ (cut calculateCrc items n).flatMap Item.frames =
      items.flatMap Item.frames := by
  induction items generalizing n with
  | nil => rfl
  | cons item items ih =>
    unfold cut touched
    split_ifs with hzero hle
    · rfl
    · rw [append_assoc, ih, flatMap_cons]
    · rw [Nat.sub_eq_zero_of_le (Nat.le_of_not_le hle), touched_zero, append_nil,
        flatMap_cons, flatMap_cons]
      rfl

variable {items : List Item} {f : SendFrame} {fs : List SendFrame}

theorem touched_one (h : junk items ≠ []) : touched calculateCrc items 1 = [] := by
  induction items with
  | nil => rfl
  | cons item items ih =>
    cases item with
    | frame f => exact absurd rfl h
    | bad bytes =>
      unfold touched
      rw [if_neg Nat.one_ne_zero]
      cases bytes with
      | nil => exact ih h
      | cons b bytes => simp [Item.frames, Item.bytes]

variable (calculateCrc) in
theorem wire_next (h : junk items = [])
    (hnext : nextFrame items = some f) : (∃ rest, wire calculateCrc items =
      f.frameSend calculateCrc ++ rest) ∧
      touched calculateCrc items (f.frameSend calculateCrc).length = [f] := by
  induction items with
  | nil => cases hnext
  | cons item items ih =>
    have hpos : (f.frameSend calculateCrc).length ≠ 0 := (length_frameSend_pos calculateCrc f).ne'
    unfold touched
    rw [if_neg hpos]
    cases item with
    | frame g =>
      cases hnext
      exact ⟨⟨_, rfl⟩, by simp [Item.frames, Item.bytes]⟩
    | bad bytes =>
      obtain ⟨rfl, hjunk⟩ := append_eq_nil_iff.mp h
      exact ih hjunk hnext

theorem wire_of_none (h : junk items = []) (hnext : nextFrame items = none) :
    wire calculateCrc items = [] := by
  induction items with
  | nil => rfl
  | cons item items ih =>
    cases item with
    | frame g => cases hnext
    | bad bytes =>
      obtain ⟨rfl, hjunk⟩ := append_eq_nil_iff.mp h
      exact ih hjunk hnext

/-- The parser has read what is held, and no frame has been lost. -/
structure Good (calculateCrc : List UInt8 → UInt32) (line : Line) : Prop where
  held : line.session.rx.Held (line.queue calculateCrc)
  tracks : line.session.rx.Tracks (line.queue calculateCrc)
  settled : line.Settled

theorem Settled.consume {sent : List SendFrame} {log events : List Event}
    (h : ∃ done, sent = done ++ items.flatMap Item.frames ∧
      List.Forall₂ Answers done log) (n : Nat) (htouched : touched calculateCrc items n = fs)
    (hevents : List.Forall₂ Answers fs events) :
    ∃ done, sent = done ++ (cut calculateCrc items n).flatMap Item.frames ∧
      List.Forall₂ Answers done (log ++ events) := by
  obtain ⟨done, hsent, hlog⟩ := h
  refine ⟨done ++ fs, ?_, rel_append hlog hevents⟩
  rw [hsent, ← htouched, append_assoc, touched_append_cut]

theorem tracks_append {rx rx' : Rx} {q l : List UInt8} (h : rx.Tracks q)
    (hsame : rx'.analysisStatus = rx.analysisStatus ∧ rx'.receiveFrame = rx.receiveFrame ∧
      rx'.point = rx.point ∧ rx'.buffLen = rx.buffLen ∧ rx'.readPoint = rx.readPoint) :
    rx'.Tracks (q ++ l) := by
  obtain ⟨hstatus, hreceive, hpoint, hbuff, hread⟩ := hsame
  have hcell : rx'.cell = rx.cell := by
    funext o
    rw [Rx.cell, hread, Rx.cell]
  have hwaits : ∀ crc, rx.Waits q crc → rx'.Waits (q ++ l) crc := by
    rintro crc ⟨frame, offset, hhead, hwaits⟩
    refine ⟨frame, offset, ?_, by rwa [hreceive, hpoint, hbuff, hcell]⟩
    rw [final_parseHead q l (by rw [hhead]; exact fun h => by cases h), hhead]
  unfold Rx.Tracks at h ⊢
  rw [hstatus]
  cases heq : rx.analysisStatus with
  | findFrameHead | parseFrameHead => rw [heq] at h; exact hbuff.trans h
  | parseFrameExtend =>
    rw [heq] at h
    obtain ⟨hlen, hrest⟩ := h
    rw [hreceive, hpoint, hbuff, hcell, take_append_of_le_length hlen]
    exact ⟨hlen.trans (by simp), hrest⟩
  | parseFrameSeq => rw [heq] at h; exact h
  | checkFrameCrc | headleFrameData => rw [heq] at h; exact hwaits _ h

section

variable (h : Good calculateCrc line)
include h

theorem Good.length_queue : line.session.rx.recvLen ≤ (wire calculateCrc line.items).length := by
  have hlen := h.held.recvLen
  rw [queue, length_take] at hlen
  omega

theorem Good.emit (item : Item) : Good calculateCrc { line with
      items := line.items ++ [item], sent := line.sent ++ item.frames } := by
  have hqueue : queue calculateCrc { line with
      items := line.items ++ [item], sent := line.sent ++ item.frames } =
      line.queue calculateCrc := by
    unfold queue wire
    rw [flatMap_append]
    exact take_append_of_le_length h.length_queue
  obtain ⟨done, hsent, hlog⟩ := h.settled
  refine ⟨hqueue ▸ h.held, hqueue ▸ h.tracks, done, ?_, hlog⟩
  rw [hsent, flatMap_append, append_assoc, flatMap_singleton]

theorem Good.arrive {count : Nat} (hcareful : line.Careful calculateCrc (.arrive count)) :
    ∃ t, line.exec calculateCrc (.arrive count) = some t ∧ Good calculateCrc t := by
  have hlen := h.held.recvLen
  have hroom : (line.queue calculateCrc).length + (line.coming calculateCrc count).length <
      receiveBufferLength := by
    rw [← hlen]
    exact hcareful
  obtain ⟨data, writePoint, hwrite, hheld⟩ := h.held.hwBufferWrite hroom
  refine ⟨_, by rw [exec, hwrite]; rfl, ?_⟩
  have hqueue : queue calculateCrc { line with session := { line.session with rx := { line.session.rx with
      data := data, writePoint := writePoint } } } =
      line.queue calculateCrc ++ line.coming calculateCrc count := by
    have hnew := hheld.recvLen
    unfold queue at hnew ⊢
    dsimp only at hnew ⊢
    rw [hnew, length_append, length_take_of_le h.length_queue, take_add, coming,
      length_take, ← take_eq_take_min]
  exact ⟨hqueue ▸ hheld, hqueue ▸ tracks_append h.tracks ⟨rfl, rfl, rfl, rfl, rfl⟩, h.settled⟩

end

variable {s : Session}

theorem Good.consume {n : Nat} {events : List Event}
    (h : Good calculateCrc line) (hn : n ≤ line.session.rx.recvLen)
    (hheld : s.rx.Held ((line.queue calculateCrc).drop n))
    (htracks : s.rx.Tracks ((line.queue calculateCrc).drop n))
    (htouched : touched calculateCrc line.items n = fs) (hevents : List.Forall₂ Answers fs events) :
    Good calculateCrc { line with
      session := s, items := cut calculateCrc line.items n, log := line.log ++ events } ∧
      line.session.rx.recvLen - s.rx.recvLen = n := by
  have hlen := hheld.recvLen
  rw [length_drop, ← h.held.recvLen] at hlen
  have hqueue : queue calculateCrc { line with
      session := s, items := cut calculateCrc line.items n, log := line.log ++ events } =
      (line.queue calculateCrc).drop n := by
    unfold queue
    dsimp only
    rw [wire_cut, hlen, drop_take]
  exact ⟨⟨hqueue ▸ hheld, hqueue ▸ htracks, Settled.consume h.settled n htouched hevents⟩, by omega⟩

theorem parseFrame_same (s : Session) (mem : Bool) : s.rx.SameBuffer (s.parseFrame mem).rx := by
  obtain ⟨hread, hwrite⟩ := Session.parseFrame_rx s mem
  refine ⟨?_, hread, hwrite⟩
  unfold Session.parseFrame
  cases s.rx.receiveFrame.attr with
  | resend | confirm | detach | reserve | handshake | sessionEnd => rfl
  | shortData =>
    dsimp only
    rw [Session.shortHandle_rx]
  | longData =>
    dsimp only
    rw [Session.longHandle_eq]
    split_ifs
    · rw [Session.longHandleSecond_rx, Session.started_rx]
    · rw [Session.started_rx]

/-- What was decided is decided for what has arrived, or it is waited for. -/
theorem parse_next (hwindow : line.InWindow calculateCrc)
    (hjunk : junk line.items = []) (hqueue : line.queue calculateCrc ≠ []) :
    ∃ f, nextFrame line.items = some f ∧
      (parse (line.context calculateCrc) line.session.rx.checked (line.queue calculateCrc) = .wait ∧
        line.session.rx.recvLen < (f.frameSend calculateCrc).length ∨
      parse (line.context calculateCrc) line.session.rx.checked (line.queue calculateCrc) =
        .done (f.received, f.data, (f.frameSend calculateCrc).length)) := by
  cases hnext : nextFrame line.items with
  | none =>
    rw [queue, wire_of_none hjunk hnext, take_nil] at hqueue
    exact absurd rfl hqueue
  | some f =>
    refine ⟨f, rfl, ?_⟩
    obtain ⟨⟨rest, hwire⟩, -⟩ := wire_next calculateCrc hjunk hnext
    have hparse : ∀ rest, parse (line.context calculateCrc) line.session.rx.checked
        (f.frameSend calculateCrc ++ rest) = .done (f.received, f.data, (f.frameSend calculateCrc).length) :=
      fun rest => f.parse_frameSend rest rfl (hwindow hjunk f hnext)
    by_cases hlen : (f.frameSend calculateCrc).length ≤ line.session.rx.recvLen
    · right
      rw [queue, hwire, take_append, take_of_length_le hlen]
      exact hparse _
    · have hwhole := hparse rest
      rw [← hwire, ← take_append_drop line.session.rx.recvLen (wire calculateCrc line.items)] at hwhole
      rcases (final_parse _ _).of_append hwhole with hwait | hdone
      · exact .inl ⟨hwait, Nat.lt_of_not_le hlen⟩
      · exact .inr hdone

variable {rx : Rx} {crc : List UInt8 → Nat} {mem : Bool} {t : Line} {a : Act}

theorem frameCheck_found (mem : Bool) (hpass : s.rx.frameCheck (s.context crc) = .findHead rx ∨
      s.rx.frameCheck (s.context crc) = .handle rx) : rx.SameBuffer (s.frameCheck crc mem).rx ∧
      (s.frameCheck crc mem).rx.analysisStatus = .findFrameHead ∧
      (s.frameCheck crc mem).rx.buffLen = headLength := by
  unfold Session.frameCheck
  rcases hpass with hpass | hpass
  · rw [hpass]
    exact ⟨⟨rfl, rfl, rfl⟩, rfl, rfl⟩
  · rw [hpass]
    obtain ⟨hdata, hread, hwrite⟩ := parseFrame_same { s with rx := rx } mem
    exact ⟨⟨hdata, hread, hwrite⟩, rfl, rfl⟩

theorem tracks_found (q : List UInt8) (hstatus : rx.analysisStatus = .findFrameHead)
    (hbuff : rx.buffLen = headLength) : rx.Tracks q := by
  rw [Rx.Tracks, hstatus]
  exact hbuff

theorem frameCheck_stop (mem : Bool)
    (hpass : s.rx.frameCheck (s.context crc) = .stop rx) : (s.frameCheck crc mem).rx = rx := by
  rw [Session.frameCheck, hpass]

variable (calculateCrc) in
theorem frameSend_magic (f : SendFrame) : ∃ b behind, f.frameSend calculateCrc = b :: behind ∧
    b.toNat % 32 = 0x15 := by
  have hmagic : ∀ e c a : Bool,
      (UInt8.ofNat (0x15 + 32 * e.toNat + 64 * c.toNat + 128 * a.toNat)).toNat % 32 = 0x15 := by decide
  refine ⟨_, (f.frameSend calculateCrc).tail, ?_, hmagic f.extend f.crc f.ack⟩
  unfold SendFrame.frameSend
  split_ifs <;> rfl

/-- A byte that is skipped while a head is looked for belongs to no frame. -/
theorem junk_of_skipped {b : UInt8} {behind : List UInt8} (hqueue : line.queue calculateCrc = b :: behind)
    (hb : b.toNat % 32 ≠ 0x15) : junk line.items ≠ [] := by
  intro hjunk
  cases hnext : nextFrame line.items with
  | none =>
    rw [queue, wire_of_none hjunk hnext, take_nil] at hqueue
    cases hqueue
  | some f =>
    obtain ⟨⟨rest, hwire⟩, -⟩ := wire_next calculateCrc hjunk hnext
    obtain ⟨b', behind', hframe, hmagic⟩ := frameSend_magic calculateCrc f
    have hpos : 0 < line.session.rx.recvLen := by
      refine Nat.pos_of_ne_zero fun hzero => ?_
      rw [queue, hzero] at hqueue
      cases hqueue
    rw [queue, hwire, hframe, cons_append, take_cons hpos] at hqueue
    obtain ⟨rfl, -⟩ := cons_eq_cons.mp hqueue
    exact hb hmagic

/-- The frame that a pass consumes is decoded, and otherwise bytes are consumed that are no frame. -/
theorem Good.passes (h : Good calculateCrc line)
    (hcareful : line.Careful calculateCrc (.check mem)) :
    let rx := (line.session.frameCheck (fun l => (calculateCrc l).toNat) mem).rx
    ∃ n ≤ line.session.rx.recvLen, rx.Held ((line.queue calculateCrc).drop n) ∧
      rx.Tracks ((line.queue calculateCrc).drop n) ∧
      List.Forall₂ Answers (touched calculateCrc line.items n) (line.handled calculateCrc) := by
  obtain ⟨hwindow, hskips⟩ := hcareful
  have hlen := h.held.recvLen
  have hskip : (line.queue calculateCrc) ≠ [] → 1 ≤ (line.queue calculateCrc).length :=
    length_pos_of_ne_nil
  intro rx
  unfold handled
  by_cases hqueue : line.queue calculateCrc = []
  · have hpass : line.session.rx.frameCheck (line.context calculateCrc) = .stop line.session.rx :=
      if_pos (by rw [hlen, hqueue, length_nil])
    have hrx : rx = line.session.rx := frameCheck_stop mem hpass
    rw [hrx, hpass]
    exact ⟨0, Nat.zero_le _, h.held, h.tracks, by simp⟩
  by_cases hstatus : line.session.rx.analysisStatus = .findFrameHead
  · have hpos := hskip hqueue
    obtain ⟨b, behind, hcons⟩ := exists_cons_of_ne_nil hqueue
    have hfirst := h.held.hwCopy (o := 0) (n := 1) (by omega)
    rw [h.held.inside.cell_zero, hcons] at hfirst
    have hb : line.session.rx.data line.session.rx.readPoint = b := by
      simpa [Rx.hwCopy, h.held.inside.readPoint] using hfirst
    have hcheck : line.session.rx.frameCheck (line.context calculateCrc) =
        line.session.rx.findFrameHead := by
      rw [Rx.frameCheck, if_neg (by omega), hstatus]
    have hbuff := h.tracks
    rw [Rx.Tracks, hstatus] at hbuff
    by_cases hmagic : b.toNat % 32 = 0x15
    · have hpass := hcheck.trans (if_pos (hb ▸ hmagic))
      have hrx : rx = _ := frameCheck_stop mem hpass
      have same : line.session.rx.SameBuffer
          { line.session.rx with analysisStatus := .parseFrameHead } := ⟨rfl, rfl, rfl⟩
      rw [hrx, hpass]
      exact ⟨0, Nat.zero_le _, same.held h.held, hbuff, by simp⟩
    · have hpass := hcheck.trans (if_neg (hb ▸ hmagic))
      have hrx : rx = _ := frameCheck_stop mem hpass
      rw [hrx, hpass]
      refine ⟨1, hlen ▸ hpos, h.held.skip hpos, tracks_found _ hstatus hbuff, ?_⟩
      rw [touched_one (junk_of_skipped hcons hmagic)]
      exact .nil
  · have hmakes := h.held.frameCheck (c := line.context calculateCrc) h.tracks hqueue hstatus
    generalize hpass : line.session.rx.frameCheck (line.context calculateCrc) = pass at hmakes
    generalize hparse : parse (line.context calculateCrc) line.session.rx.checked
      (line.queue calculateCrc) = p at hmakes
    cases hmakes with
    | @wait after same tracks status =>
      have hrx : rx = after := frameCheck_stop mem hpass
      rw [hrx]
      exact ⟨0, Nat.zero_le _, same.held h.held, tracks, by simp⟩
    | @reject after same =>
      obtain ⟨hsame, hfind, hbuff⟩ := frameCheck_found mem (.inl hpass)
      have hjunk : junk line.items ≠ [] := by
        intro hjunk
        obtain ⟨f, -, ⟨hwait, -⟩ | hdone⟩ := parse_next hwindow hjunk hqueue
        · cases hparse.symm.trans hwait
        · cases hparse.symm.trans hdone
      refine ⟨1, hlen ▸ hskip hqueue, hsame.held (same.held (h.held.skip (hskip hqueue))),
        tracks_found _ hfind hbuff, ?_⟩
      rw [touched_one hjunk]
      exact .nil
    | @done after frame data length same hdecoded =>
      obtain ⟨hsame, hfind, hbuff⟩ := frameCheck_found mem (.inr hpass)
      have hle := length_le_of_parse hparse
      have hjunk : junk line.items = [] := by
        by_contra hne
        have hnot := hskips hne hstatus
        rw [hparse] at hnot
        exact hnot
      obtain ⟨f, hnext, ⟨hwait, -⟩ | hdone⟩ := parse_next hwindow hjunk hqueue
      · cases hparse.symm.trans hwait
      · cases hparse.symm.trans hdone
        refine ⟨_, hlen ▸ hle, hsame.held (same.held (h.held.skip hle)), tracks_found _ hfind hbuff, ?_⟩
        rw [(wire_next calculateCrc hjunk hnext).2]
        have hanswers : Answers f (.decoded after.decoded.1 after.decoded.2) := by
          rw [hdecoded]
          exact ⟨rfl, rfl⟩
        exact .cons hanswers .nil

theorem Good.recvTimeout (h : Good calculateCrc line)
    (hcareful : line.Careful calculateCrc .recvTimeout) :
    ∃ t, line.exec calculateCrc .recvTimeout = some t ∧ Good calculateCrc t := by
  have hlen := h.held.recvLen
  have htracks : Rx.Tracks (line.session.rx.skip line.session.rx.recvLen)
      ((line.queue calculateCrc).drop line.session.rx.recvLen) := by
    have hbuff := h.tracks
    unfold Rx.Tracks at hbuff ⊢
    rcases hcareful with hstatus | hstatus <;> rw [hstatus] at hbuff <;>
      exact (show (line.session.rx.skip _).analysisStatus = _ from hstatus) ▸ hbuff
  have hevents : ∀ fs : List SendFrame, List.Forall₂ Answers fs (fs.map .discarded) := by
    intro fs
    rw [List.forall₂_map_right_iff]
    exact List.forall₂_same.mpr fun f _ => rfl
  exact ⟨_, rfl, (h.consume (s := { line.session with rx := _ }) le_rfl (h.held.skip hlen.le) htracks rfl
    (hevents _)).1⟩

theorem other_rx {a : Session.Act} (hexec : line.exec calculateCrc (.other a) = some t) :
    t.session.rx = line.session.rx ∧ t.session.rxSeq = line.session.rxSeq ∧
      t = { line with session := t.session } := by
  cases a with
  | write bytes | check mem | recvTimeout => cases hexec
  | longTimeout =>
    cases hexec
    refine ⟨?_, ?_, rfl⟩ <;> unfold Session.longRecvTimeout Session.stopRecvLong Session.freeDataspace <;>
      dsimp only <;> split_ifs <;> first | rfl | (split <;> rfl)
  | longTimer | send | attach | detach =>
    cases hexec
    exact ⟨rfl, rfl, rfl⟩

theorem Good.exec (h : Good calculateCrc line)
    (hcareful : line.Careful calculateCrc a) (hexec : line.exec calculateCrc a = some t) :
    Good calculateCrc t := by
  cases a with
  | emit f =>
    cases hexec
    exact h.emit (.frame f)
  | disturb bytes =>
    cases hexec
    have hemit := h.emit (.bad bytes)
    rwa [show (Item.bad bytes).frames = [] from rfl, append_nil] at hemit
  | arrive count =>
    obtain ⟨t', hexec', hgood⟩ := h.arrive hcareful
    cases hexec.symm.trans hexec'
    exact hgood
  | check mem =>
    cases hexec
    obtain ⟨n, hn, hheld, htracks, hevents⟩ := h.passes hcareful
    obtain ⟨hgood, hcount⟩ := h.consume hn hheld htracks rfl hevents
    rwa [hcount]
  | recvTimeout =>
    obtain ⟨t', hexec', hgood⟩ := h.recvTimeout hcareful
    cases hexec.symm.trans hexec'
    exact hgood
  | other a =>
    obtain ⟨hrx, -, heq⟩ := other_rx hexec
    have hqueue : t.queue calculateCrc = line.queue calculateCrc := by
      rw [heq, queue, queue, ← hrx]
    exact ⟨by rw [hqueue, hrx]; exact h.held, by rw [hqueue, hrx]; exact h.tracks, by
      rw [heq]
      exact h.settled⟩

variable (calculateCrc) in
theorem Initial.good (h : line.Initial) : Good calculateCrc line := by
  obtain ⟨hitems, hsent, hlog⟩ := h.empty
  have hqueue : line.queue calculateCrc = [] := by rw [queue, h.recvLen, take_zero]
  refine ⟨hqueue ▸ ⟨[], ReceiveBuffer.refines_of_items h.inside .start h.recvLen ringItems_zero⟩,
    tracks_found _ h.status h.buffLen, [], ?_, hlog ▸ .nil⟩
  rw [hsent, hitems]
  rfl

/-- The pass is the last of a call. -/
def returns (calculateCrc : List UInt8 → UInt32) (s : Session) : Bool :=
  s.rx.recvLen == 0 || s.rx.analysisStatus != .findFrameHead &&
    (s.rx.frameCheck (s.context fun l => (calculateCrc l).toNat)).stops

/-- A call of `rt_link_frame_check`, in which something may arrive before each pass; it is not over where
`fuel` is spent. -/
def call (calculateCrc : List UInt8 → UInt32) (arrive : Nat → Option (List UInt8)) (mem : Nat → Bool) :
    Nat → Nat → Session → Option Session
  | 0, _, _ => none
  | fuel + 1, k, s =>
    (match arrive k with
      | none => some s.rx
      | some bytes => s.rx.hwBufferWrite bytes).bind fun rx =>
      let s := { s with rx := rx }
      let t := s.frameCheck (fun l => (calculateCrc l).toNat) (mem k)
      if returns calculateCrc s then some t else call calculateCrc arrive mem fuel (k + 1) t

/-- Where a call returns, the next frame has not come whole. -/
theorem Good.waits (h : Good calculateCrc line)
    (hcareful : line.Careful calculateCrc (.check mem)) (hreturns : returns calculateCrc line.session = true)
    (hnext : nextFrame line.items = some f) :
    line.session.rx.recvLen < (junk line.items).length + (f.frameSend calculateCrc).length := by
  have hpos := length_frameSend_pos calculateCrc f
  by_cases hqueue : line.queue calculateCrc = []
  · have hlen := h.held.recvLen
    rw [hqueue, length_nil] at hlen
    omega
  have hlen : line.session.rx.recvLen ≠ 0 := by
    rw [h.held.recvLen]
    exact (length_pos_of_ne_nil hqueue).ne'
  simp only [returns, beq_eq_false_iff_ne.mpr hlen, Bool.false_or, Bool.and_eq_true, bne_iff_ne] at hreturns
  obtain ⟨hstatus, hstops⟩ := hreturns
  have hmakes := h.held.frameCheck (c := line.context calculateCrc) h.tracks hqueue hstatus
  generalize hparse : parse (line.context calculateCrc) line.session.rx.checked
    (line.queue calculateCrc) = p at hmakes
  unfold context at hmakes
  generalize line.session.rx.frameCheck _ = pass at hstops hmakes
  cases hmakes with
  | reject | done => cases hstops
  | wait =>
    by_cases hjunk : junk line.items = []
    · obtain ⟨g, hg, ⟨-, hlt⟩ | hdone⟩ := parse_next hcareful.1 hjunk hqueue
      · cases hnext.symm.trans hg
        exact Nat.lt_add_left _ hlt
      · cases hparse.symm.trans hdone
    · have hskips := hcareful.2 hjunk hstatus
      rw [hparse] at hskips
      exact hskips f hnext

/-- The pointers are in the buffer, and a head is waited for. -/
def Sane (rx : Rx) : Prop := rx.Inside ∧ headLength ≤ rx.buffLen

/-- What is left to do for a call: each byte is looked at twice at most. -/
def left (rx : Rx) : Nat := 2 * rx.recvLen + (rx.analysisStatus == .findFrameHead).toNat

/-- What a pass has done that began with `rx`. -/
def Progress (rx : Rx) : Pass → Prop
  | .stop after => Sane after
  | .findHead after | .handle after => after.Inside ∧ after.recvLen < rx.recvLen

section Progress

variable {c : Context} {n : Nat}

theorem recvLen_skip_lt (h : rx.Inside) (hlen : rx.recvLen ≠ 0) (hn : n ≠ 0) :
    (rx.skip n).recvLen < rx.recvLen := by
  have hread := h.readPoint
  have hwrite := h.writePoint
  unfold Rx.skip Rx.recvLen Rx.shift receiveBufferLength at *
  dsimp only
  split_ifs at hlen ⊢ <;> omega

theorem progress_skip {after : Rx} (h : after.Inside) (hlen : rx.recvLen ≠ 0)
    (hsame : after.recvLen = rx.recvLen) (hn : n ≠ 0) : Progress rx (.findHead (after.skip n)) :=
  ⟨h.skip n, hsame ▸ recvLen_skip_lt h (hsame ▸ hlen) hn⟩

section

variable (h : Sane rx)
include h

section

variable (hlen : rx.recvLen ≠ 0)
include hlen

theorem progress_headle : Progress rx rx.headleFrameData := by
  unfold Rx.headleFrameData
  split_ifs
  · exact h
  · exact progress_skip h.1 hlen rfl (Nat.lt_of_lt_of_le (by decide) h.2).ne'

theorem progress_crc : Progress rx (rx.checkFrameCrc c) := by
  unfold Rx.checkFrameCrc
  dsimp only
  split_ifs
  · exact h
  · apply progress_skip _ hlen _ Nat.one_ne_zero
    · exact ⟨h.1.1, h.1.2⟩
    · rfl
  all_goals exact progress_headle ⟨⟨h.1.1, h.1.2⟩, h.2⟩ hlen

theorem progress_seq : Progress rx (rx.parseFrameSeq c) := by
  have hbuff := h.2
  unfold Rx.parseFrameSeq
  dsimp only
  split_ifs
  · exact progress_skip h.1 hlen rfl Nat.one_ne_zero
  all_goals exact progress_crc ⟨⟨h.1.1, h.1.2⟩, by dsimp only; omega⟩ hlen

theorem progress_extend : Progress rx (rx.parseFrameExtend c) := by
  unfold Rx.parseFrameExtend
  dsimp only
  split_ifs
  · exact h
  · exact progress_skip h.1 hlen rfl Nat.one_ne_zero
  all_goals exact progress_seq ⟨⟨h.1.1, h.1.2⟩, h.2⟩ hlen

theorem progress_head : Progress rx (rx.parseFrameHead c) := by
  have hbuff := h.2
  unfold Rx.parseFrameHead
  dsimp only
  split_ifs
  · exact h
  · apply progress_skip _ hlen _ Nat.one_ne_zero
    · exact ⟨h.1.1, h.1.2⟩
    · rfl
  · exact progress_extend ⟨⟨h.1.1, h.1.2⟩, by dsimp only; omega⟩ hlen
  · exact progress_extend ⟨⟨h.1.1, h.1.2⟩, h.2⟩ hlen

theorem progress_frameCheck (hstatus : rx.analysisStatus ≠ .findFrameHead) :
    Progress rx (rx.frameCheck c) := by
  rw [Rx.frameCheck, if_neg hlen]
  cases heq : rx.analysisStatus with
  | findFrameHead => exact absurd heq hstatus
  | parseFrameHead => exact progress_head h hlen
  | parseFrameExtend => exact progress_extend h hlen
  | parseFrameSeq => exact progress_seq h hlen
  | checkFrameCrc => exact progress_crc h hlen
  | headleFrameData => exact progress_headle h hlen

end

end

theorem left_found {after now : Rx} (h : after.Inside ∧ after.recvLen < rx.recvLen) (hsame : after.SameBuffer now)
    (hbuff : now.buffLen = headLength) : Sane now ∧ left now < left rx := by
  obtain ⟨-, hread, hwrite⟩ := hsame
  have hlen : now.recvLen = after.recvLen := by rw [Rx.recvLen, hread, hwrite, Rx.recvLen]
  refine ⟨⟨⟨hread ▸ h.1.1, hwrite ▸ h.1.2⟩, hbuff.ge⟩, ?_⟩
  have hone := Bool.toNat_le (now.analysisStatus == .findFrameHead)
  unfold left
  omega

end Progress

variable (calculateCrc) in
/-- A pass that does not return has done something. -/
theorem left_frameCheck (h : Sane s.rx) (mem : Bool) :
    Sane (s.frameCheck (fun l => (calculateCrc l).toNat) mem).rx ∧
      (returns calculateCrc s = false →
        left (s.frameCheck (fun l => (calculateCrc l).toNat) mem).rx < left s.rx) := by
  by_cases hlen : s.rx.recvLen = 0
  · rw [frameCheck_stop mem (if_pos hlen)]
    exact ⟨h, fun hreturns => by simp [returns, hlen] at hreturns⟩
  by_cases hstatus : s.rx.analysisStatus = .findFrameHead
  · have hpass : s.rx.frameCheck (s.context fun l => (calculateCrc l).toNat) = s.rx.findFrameHead := by
      rw [Rx.frameCheck, if_neg hlen, hstatus]
    unfold Rx.findFrameHead at hpass
    split_ifs at hpass
    · rw [frameCheck_stop mem hpass]
      refine ⟨⟨⟨h.1.1, h.1.2⟩, h.2⟩, fun _ => ?_⟩
      unfold left
      rw [hstatus]
      exact Nat.lt_succ_self _
    · rw [frameCheck_stop mem hpass]
      refine ⟨⟨h.1.skip 1, h.2⟩, fun _ => ?_⟩
      have hlt := recvLen_skip_lt h.1 hlen Nat.one_ne_zero
      have hsame : (s.rx.skip 1).analysisStatus = s.rx.analysisStatus := rfl
      unfold left
      rw [hsame]
      omega
  have hprogress := progress_frameCheck (c := s.context fun l => (calculateCrc l).toNat) h hlen hstatus
  cases hpass : s.rx.frameCheck (s.context fun l => (calculateCrc l).toNat) with
  | stop after =>
    rw [hpass] at hprogress
    rw [frameCheck_stop mem hpass]
    refine ⟨hprogress, fun hreturns => ?_⟩
    simp [returns, hlen, hstatus, hpass, Pass.stops] at hreturns
  | findHead after =>
    rw [hpass] at hprogress
    obtain ⟨hsame, -, hbuff⟩ := frameCheck_found mem (.inl hpass)
    exact (left_found hprogress hsame hbuff).imp_right fun h _ => h
  | handle after =>
    rw [hpass] at hprogress
    obtain ⟨hsame, -, hbuff⟩ := frameCheck_found mem (.inr hpass)
    exact (left_found hprogress hsame hbuff).imp_right fun h _ => h

theorem Sane.hwBufferWrite (h : Sane rx) (bytes : List UInt8) :
    ∃ after, rx.hwBufferWrite bytes = some after ∧ Sane after := by
  obtain ⟨data, writePoint, hwrite, hinside⟩ := h.1.hwBufferWrite bytes
  exact ⟨_, hwrite, ⟨h.1.readPoint, hinside⟩, h.2⟩

theorem Sane.exec (h : Sane line.session.rx) (hexec : line.exec calculateCrc a = some t) :
    Sane t.session.rx := by
  cases a with
  | emit f | disturb bytes => cases hexec; exact h
  | arrive count =>
    obtain ⟨after, hwrite, hsane⟩ := h.hwBufferWrite (line.coming calculateCrc count)
    rw [Line.exec, hwrite] at hexec
    cases hexec
    exact hsane
  | check mem => cases hexec; exact (left_frameCheck calculateCrc h mem).1
  | recvTimeout => cases hexec; exact ⟨h.1.skip _, h.2⟩
  | other a => exact (other_rx hexec).1 ▸ h

theorem left_le (h : Sane rx) : left rx ≤ 2 * receiveBufferLength + 1 := by
  have hread := h.1.readPoint
  have hwrite := h.1.writePoint
  have hone := Bool.toNat_le (rx.analysisStatus == .findFrameHead)
  unfold left Rx.recvLen
  split_ifs <;> omega

theorem call_ends {arrive : Nat → Option (List UInt8)} {mem : Nat → Bool} (fuel later k : Nat) (s : Session)
    (h : Sane s.rx) (hlast : ∀ j, k + later ≤ j → arrive j = none)
    (hfuel : later * (2 * receiveBufferLength + 2) + left s.rx < fuel) :
    ∃ t, call calculateCrc arrive mem fuel k s = some t := by
  induction fuel generalizing later k s with
  | zero => exact absurd hfuel (Nat.not_lt_zero _)
  | succ fuel ih =>
    unfold call
    cases harrive : arrive k with
    | none =>
      obtain ⟨hsane, hleft⟩ := left_frameCheck calculateCrc h (mem k)
      rw [Option.bind_some]
      dsimp only
      split_ifs with hreturns
      · exact ⟨_, rfl⟩
      · have hlt := hleft (Bool.eq_false_of_not_eq_true hreturns)
        have hends := ih later (k + 1) _ hsane (fun j hj => hlast j (by omega)) (by omega)
        exact hends
    | some bytes =>
      obtain ⟨after, hwrite, hafter⟩ := h.hwBufferWrite bytes
      cases later with
      | zero => cases (hlast k le_rfl).symm.trans harrive
      | succ later =>
        obtain ⟨hsane, -⟩ := left_frameCheck calculateCrc (show Sane { s with rx := after }.rx from hafter) (mem k)
        have hle := left_le hsane
        rw [Nat.succ_mul] at hfuel
        dsimp only
        rw [hwrite, Option.bind_some]
        split_ifs
        · exact ⟨_, rfl⟩
        · exact ih later _ _ hsane (fun j hj => hlast j (by omega)) (by omega)

/-- Each call ends, when nothing arrives any more; and while every step is careful, the frames are decoded
as they were sent, and no call returns behind a frame that is there. -/
theorem reachable_framesKept (h : Reachable Initial (fun s a t => s.exec calculateCrc a = some t) line) :
    (∀ arrive mem last, (∀ k, last ≤ k → arrive k = none) →
      ∃ fuel t, call calculateCrc arrive mem fuel 0 line.session = some t) ∧
    (Reachable Initial (Within (fun s a t => s.exec calculateCrc a = some t) (Careful calculateCrc)) line →
      line.Settled ∧ ∀ mem, line.Careful calculateCrc (.check mem) →
        returns calculateCrc line.session = true → ∀ f ∈ nextFrame line.items,
        line.session.rx.recvLen < (junk line.items).length + (f.frameSend calculateCrc).length) := by
  constructor
  · intro arrive mem last hlast
    have hsane := h.invariant (I := fun s => Sane s.session.rx) (fun _ h₀ => ⟨h₀.inside, h₀.buffLen.ge⟩)
      fun _ _ _ _ ih hstep => ih.exec hstep
    exact ⟨_, call_ends _ last 0 line.session hsane (fun j hj => hlast j (Nat.zero_add last ▸ hj))
      (Nat.lt_succ_self _)⟩
  · intro hwithin
    have hgood := hwithin.invariant (fun _ h₀ => h₀.good calculateCrc) fun _ _ _ _ ih hstep =>
      ih.exec hstep.1 hstep.2
    exact ⟨hgood.settled, fun mem hcareful hreturns f hf => hgood.waits hcareful hreturns hf⟩

instance decidableInWindow : Decidable (line.InWindow calculateCrc) :=
  inferInstanceAs (Decidable (junk line.items = [] → ∀ f ∈ nextFrame line.items, _ ∨ _))

instance decidableSkips : Decidable (line.Skips calculateCrc) :=
  have : Decidable (match parse (line.context calculateCrc) line.session.rx.checked
      (line.queue calculateCrc) with
    | .reject => True
    | .done _ => False
    | .wait => ∀ f ∈ nextFrame line.items, line.session.rx.recvLen <
        (junk line.items).length + (f.frameSend calculateCrc).length) :=
    match parse (line.context calculateCrc) line.session.rx.checked (line.queue calculateCrc) with
    | .reject => .isTrue trivial
    | .done _ => .isFalse id
    | .wait => inferInstanceAs (Decidable (∀ f ∈ nextFrame line.items, _ < _))
  inferInstanceAs (Decidable (_ → _ → _))

instance decidableCareful (line : Line) : (a : Act) → Decidable (line.Careful calculateCrc a)
  | .arrive _ => inferInstanceAs (Decidable (_ < _))
  | .check _ => inferInstanceAs (Decidable (_ ∧ _))
  | .recvTimeout => inferInstanceAs (Decidable (_ ∨ _))
  | .emit _ | .disturb _ | .other _ => .isTrue trivial

/-- Nothing has been sent. -/
def first : Line := ⟨Session.init, [], [], []⟩

theorem first_initial : Initial first := ⟨⟨by decide, by decide⟩, rfl, rfl, rfl, rfl, rfl, rfl⟩

/-- A frame comes in two pieces, and another one behind bytes of which some look like a head. -/
def careful : List Act :=
  [.other (.attach 1 true), .emit (shortFour true 0), .disturb [9, 0x15, 3, 0xff, 0xff],
    .emit (shortFour false 1), .arrive 6, .check true, .check true, .arrive 100] ++
    List.replicate 10 (.check true)

/-- Two frames are handed over. -/
theorem reachable_framesKept_two : ∃ line : Line, line.session.handed = [(0, 4), (1, 4)] ∧
    line.items.length = 0 ∧ line.Settled ∧
    ∃ fuel t, call (fun _ => 7) (fun _ => none) (fun _ => true) fuel 0 line.session = some t := by
  have hrun : ∃ s ∈ runWithin (exec fun _ => 7) (Careful fun _ => 7) first careful,
      s.session.handed = [(0, 4), (1, 4)] ∧ s.items.length = 0 := by decide +kernel
  obtain ⟨line, hline, hhanded, hitems⟩ := Reachable.of_runWithin first_initial hrun
  obtain ⟨hends, hkept⟩ := reachable_framesKept hline.of_within
  exact ⟨line, hhanded, hitems, (hkept hline).1, hends _ _ 0 fun _ _ => rfl⟩

/-- The timeout comes amid a frame, of which six bytes were sent; the next frame is whole. -/
def timesOut : List Act :=
  [.disturb [0x95, 0, 0x81, 0, 1, 2], .arrive 6, .check true, .check true, .recvTimeout,
    .emit (shortFour false 0), .arrive 8, .check true]

/-- The next frame is decoded with bytes of the frame that was discarded, and of its own head. -/
theorem timedOut_not_settled : ∃ line : Line,
    Reachable Initial (fun s a t => s.exec (fun _ => 7) a = some t) line ∧ line.items.length = 0 ∧
    (∃ frame, line.log = [.decoded frame [1, 2, 0x95, 0]]) ∧ ¬ line.Settled := by
  have hrun : ∃ s ∈ runAll (exec fun _ => 7) first timesOut,
      s.sent.map SendFrame.data = [[5, 6, 7, 8]] ∧ s.items.length = 0 ∧
      s.log.map Event.data = [some [1, 2, 0x95, 0]] := by decide +kernel
  obtain ⟨line, hline, hsent, hitems, hlog⟩ := Reachable.of_runAll first_initial hrun
  obtain ⟨e, hlog, hdata⟩ := List.map_eq_singleton_iff.mp hlog
  cases e with
  | discarded f => cases hdata
  | decoded frame data =>
    cases hdata
    refine ⟨line, hline, hitems, ⟨frame, hlog⟩, ?_⟩
    rintro ⟨done, hdone, hanswers⟩
    rw [hlog] at hanswers
    cases hanswers with
    | cons hfirst hrest =>
      cases hrest
      rw [List.length_eq_zero_iff.mp hitems, List.flatMap_nil, List.append_nil] at hdone
      rw [hdone, List.map_singleton, ← hfirst.2] at hsent
      exact absurd hsent (by decide)

end Line

end RtKernel.Link

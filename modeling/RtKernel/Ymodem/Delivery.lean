import RtKernel.Ymodem.Session

/-!
# What a YMODEM session delivers

As long as no wait of the receiver runs out, the two sides take turns: what is in the channels
is what the side that reads next is waiting for. Then a session delivers the blocks of the file,
and it ends.
-/

open List
open Option

namespace RtKernel.Ymodem

namespace Session

/-- Every handshake character but the first is one too many for the sender, so the receiver gets
its first packet before it sends another, and no later packet takes too long. The rest is that
there is memory, that the files open, that the sender does not give up, and that the clock is
read before a tenth of a second has passed. -/
def Careful (c : Setup) (s : Session) : Act → Prop
  | .startSend mallocs => mallocs
  | .startRecv mallocs => mallocs
  | .arriveUp _ | .arriveDown _ => True
  | .send opens => opens
  | .sendTimeout => s.sender.tries + 1 < c.sendTimeout
  | .recv tick now opens => (s.receiver.begins → now ≤ tick + c.ms100) ∧ opens
  | .recvTimeout => False

instance (c : Setup) (s : Session) (a : Act) : Decidable (Careful c s a) :=
  match a with
  | .startSend mallocs | .startRecv mallocs => inferInstanceAs (Decidable (mallocs = true))
  | .arriveUp _ | .arriveDown _ => .isTrue trivial
  | .send opens => inferInstanceAs (Decidable (opens = true))
  | .sendTimeout => inferInstanceAs (Decidable (_ < _))
  | .recv _ _ _ => inferInstanceAs (Decidable (_ ∧ _))
  | .recvTimeout => .isFalse id

/-- Both sides have returned without an error. -/
def Over (s : Session) : Prop := s.sender = .returned 0 ∧ s.receiver = .returned 0

instance (s : Session) : Decidable s.Over := inferInstanceAs (Decidable (_ ∧ _))

/-- A side that returns has no error to report, `on_data` was given the first blocks of the file
so far, and all of them when the receiver returns. -/
structure Delivers (c : Setup) (s : Session) : Prop where
  sender : ∀ err, s.sender = .returned err → err = 0
  receiver : ∀ err, s.receiver = .returned err → err = 0
  received : s.received <+: blocks c.file
  all : (∃ err, s.receiver = .returned err) → s.received = blocks c.file

/-- Where the two sides are, with what is in the channels, and the number of blocks received. -/
inductive Turn (c : Setup) : Sender → Receiver → List UInt8 → List UInt8 → Nat → Prop
  | begins {tx : Sender} {rx : Receiver} {up : List UInt8}
      (htx : tx = .idle ∨ ∃ i < c.sendTimeout, tx = .handshake i)
      (hrx : rx = .idle ∧ up = [] ∨ rx = .handshake 0 ∧ up = [rymCodeC]) : Turn c tx rx up [] 0
  | offered : Turn c .ack (.handshake 0) []
      (packet rymCodeSoh 0 (beginBlock c.name c.file.length)) 0
  | opening : Turn c .ack (.begin 128) []
      (packet rymCodeSoh 0 (beginBlock c.name c.file.length)).tail 0
  | opened : Turn c .ack (.code true) [rymCodeAck, rymCodeC] [] 0
  | asked : Turn c .c (.code true) [rymCodeC] [] 0
  | sent {k : Nat} {established : Bool} (hk : k < (blocks c.file).length)
      (hfirst : established = decide (k = 0)) :
      Turn c (.data (UInt32.ofNat (k + 1)) (c.file.drop (128 * (k + 1)))
          (k + 1 = (blocks c.file).length)) (.code established) []
        (packet rymCodeSoh (UInt32.ofNat (k + 1)).toUInt8 (blocks c.file)[k]) k
  | taking {k : Nat} {established : Bool} (hk : k < (blocks c.file).length)
      (hfirst : established = decide (k = 0)) :
      Turn c (.data (UInt32.ofNat (k + 1)) (c.file.drop (128 * (k + 1)))
          (k + 1 = (blocks c.file).length)) (.data established 128) []
        (packet rymCodeSoh (UInt32.ofNat (k + 1)).toUInt8 (blocks c.file)[k]).tail k
  | taken {k : Nat} (hk : k < (blocks c.file).length) :
      Turn c (.data (UInt32.ofNat (k + 1)) (c.file.drop (128 * (k + 1)))
          (k + 1 = (blocks c.file).length)) (.code false) [rymCodeAck] [] (k + 1)
  | ended : Turn c .nak (.code false) [] [rymCodeEot] (blocks c.file).length
  | refused : Turn c .nak .eot [rymCodeNak] [] (blocks c.file).length
  | again : Turn c .finAck .eot [] [rymCodeEot] (blocks c.file).length
  | agreed : Turn c .finAck .finCode [rymCodeAck, rymCodeC] [] (blocks c.file).length
  | closing : Turn c .finC .finCode [rymCodeC] [] (blocks c.file).length
  | closed : Turn c (.returned 0) .finCode [] (packet rymCodeSoh 0 zeroBlock)
      (blocks c.file).length
  | closingTaken : Turn c (.returned 0) .fin [] (packet rymCodeSoh 0 zeroBlock).tail
      (blocks c.file).length
  | finished : Turn c (.returned 0) (.returned 0) [rymCodeAck] [] (blocks c.file).length

/-- The sides are at a turn, and the blocks received are the first of the file. -/
structure Sound (c : Setup) (s : Session) (k : Nat) : Prop where
  turn : Turn c s.sender s.receiver s.up.bytes s.down.bytes k
  received : s.received = (blocks c.file).take k

/-- The reads that the sender has to do. -/
def Setup.sends (c : Setup) : Sender → Nat
  | .idle => (blocks c.file).length + c.sendTimeout + 8
  | .handshake i => (blocks c.file).length + (c.sendTimeout - i) + 7
  | .ack => (blocks c.file).length + 6
  | .c => (blocks c.file).length + 5
  | .data _ rest finishing => (if finishing then 0 else (blocks rest).length) + 4
  | .nak => 3
  | .finAck => 2
  | .finC => 1
  | .returned _ => 0

/-- The reads that the receiver has to do, with the blocks that it has. -/
def Setup.receives (c : Setup) (k : Nat) : Receiver → Nat
  | .idle => 2 * (blocks c.file).length + 7
  | .handshake _ => 2 * (blocks c.file).length + 6
  | .begin _ => 2 * (blocks c.file).length + 5
  | .code _ => 2 * ((blocks c.file).length - k) + 4
  | .data .. => 2 * ((blocks c.file).length - k) + 3
  | .eot => 3
  | .finCode => 2
  | .fin => 1
  | .returned _ => 0

/-- Every read is paid for with more than the bytes that are written then. -/
def left (c : Setup) (s : Session) : Nat :=
  200 * (Setup.sends c s.sender + Setup.receives c s.received.length s.receiver) +
    s.up.wire.length + s.down.wire.length

variable {c : Setup} {s s' : Session} {k : Nat}

theorem blocks_pos (file : List UInt8) : 0 < (blocks file).length := by
  rw [length_blocks]
  exact Nat.succ_pos _

theorem length_blocks_drop {file : List UInt8} {k : Nat} (h : k < (blocks file).length) :
    (blocks (file.drop (128 * k))).length = (blocks file).length - k := by
  rw [length_blocks] at h
  rw [length_blocks, length_blocks, length_drop]
  omega

theorem sends_block {k : Nat} (h : k < (blocks c.file).length) (index : UInt32) :
    Setup.sends c (.data index (c.file.drop (128 * (k + 1)))
      (decide (k + 1 = (blocks c.file).length))) + k = (blocks c.file).length + 3 := by
  unfold Setup.sends
  dsimp only
  by_cases hlast : k + 1 = (blocks c.file).length
  · simp only [hlast, decide_true, if_true]
    omega
  · rw [if_neg (by simpa using hlast), length_blocks_drop (by omega)]
    omega

variable {up down : List UInt8} {rx : Receiver}

variable {tx : Sender} {code : UInt8}

theorem Turn.read {r : Sender × List UInt8} (h : Turn c tx rx (code :: up) down k)
    (hread : tx.read c true code = some r) :
    Turn c r.1 rx up (down ++ r.2) k ∧ Setup.sends c r.1 < Setup.sends c tx ∧
      r.2.length ≤ 133 := by
  generalize hbytes : code :: up = bytes at h
  cases h with
  | begins htx hrx =>
    obtain ⟨-, rfl⟩ | ⟨rfl, rfl⟩ := hrx
    · cases hbytes
    · cases hbytes
      obtain rfl | ⟨i, hi, rfl⟩ := htx
      · cases hread
      · rw [Sender.read, if_pos rfl, if_pos rfl] at hread
        cases hread
        refine ⟨.offered, ?_, (length_packet (length_beginBlock)).le⟩
        simp only [Setup.sends]
        omega
  | offered => cases hbytes
  | opening => cases hbytes
  | opened =>
    cases hbytes
    cases hread
    exact ⟨.asked, Nat.lt_succ_self _, Nat.zero_le _⟩
  | asked =>
    cases hbytes
    have hblock := sendData_drop c.file (blocks_pos c.file)
    rw [Nat.mul_zero, drop_zero] at hblock
    rw [Sender.read, if_pos rfl, Sender.sendBlock, hblock] at hread
    cases hread
    have hsends := sends_block (blocks_pos c.file) 1
    refine ⟨.sent (blocks_pos c.file) rfl, ?_, (length_packet (length_block (getElem_mem _))).le⟩
    have hnow : Setup.sends c .c = (blocks c.file).length + 5 := rfl
    dsimp only at hsends ⊢
    omega
  | sent => cases hbytes
  | taking => cases hbytes
  | @taken k hk =>
    cases hbytes
    rw [Sender.read, if_pos rfl] at hread
    by_cases hlast : k + 1 = (blocks c.file).length
    · rw [if_pos (decide_eq_true hlast)] at hread
      cases hread
      refine ⟨?_, ?_, by decide⟩
      · rw [hlast]
        exact .ended
      · exact Nat.lt_of_lt_of_le (Nat.lt_succ_self 3) (Nat.le_add_left 4 _)
    · have hk' : k + 1 < (blocks c.file).length := Nat.lt_of_le_of_ne hk hlast
      have hindex : UInt32.ofNat (k + 1) + 1 = UInt32.ofNat (k + 1 + 1) := (UInt32.ofNat_add ..).symm
      rw [if_neg (by simpa using hlast), Sender.sendBlock, sendData_drop c.file hk', hindex] at hread
      cases hread
      refine ⟨.sent hk' (decide_eq_false (Nat.succ_ne_zero k)).symm, ?_,
        (length_packet (length_block (getElem_mem _))).le⟩
      have hnow := sends_block hk (UInt32.ofNat (k + 1))
      have hnext := sends_block hk' (UInt32.ofNat (k + 1 + 1))
      dsimp only at hnow hnext ⊢
      omega
  | ended => cases hbytes
  | refused =>
    cases hbytes
    cases hread
    exact ⟨.again, Nat.lt_succ_self 2, by decide⟩
  | again => cases hbytes
  | agreed =>
    cases hbytes
    cases hread
    exact ⟨.closing, Nat.lt_succ_self 1, by decide⟩
  | closing =>
    cases hbytes
    cases hread
    rw [nil_append]
    exact ⟨.closed, Nat.one_pos, (length_packet length_zeroBlock).le⟩
  | closed => cases hbytes
  | closingTaken => cases hbytes
  | finished => cases hread

theorem checkFirst_packet {block : List UInt8} (h : block.length = 128) :
    Receiver.checkFirst (packet rymCodeSoh 0 block).tail 128 = none := by
  unfold Receiver.checkFirst
  rw [recvCrc_packet h, payload_packet h,
    if_neg (fun hne => hne.elim (fun hzero => hzero rfl) fun hff => hff rfl),
    if_neg (fun hne => hne rfl)]

/-- What is read of a packet at first is its code, and then all of the rest. -/
theorem packet_split {code index : UInt8} {block data down : List UInt8}
    (h : data ++ down = packet code index block) (hlen : data.length = 1) :
    data = [code] ∧ down = (packet code index block).tail := by
  obtain ⟨b, rfl⟩ := length_eq_one_iff.mp hlen
  rw [← h]
  refine ⟨?_, rfl⟩
  have hhead := congrArg List.head? h
  exact congrArg (fun x => [x]) (some.inj hhead)

theorem tail_split {code index : UInt8} {block data down : List UInt8}
    (h : data ++ down = (packet code index block).tail) (hblock : block.length = 128)
    (hlen : data.length = 132) : data = (packet code index block).tail ∧ down = [] := by
  have htotal := congrArg List.length h
  rw [length_append, length_tail, length_packet hblock, hlen] at htotal
  have hnil : down = [] := length_eq_zero_iff.mp (by omega)
  rw [hnil, append_nil] at h
  exact ⟨h, hnil⟩

theorem single_split {data down : List UInt8} (h : data ++ down = [code])
    (hlen : data.length = 1) : data = [code] ∧ down = [] := by
  obtain ⟨b, rfl⟩ := length_eq_one_iff.mp hlen
  obtain ⟨rfl, hnil⟩ := cons_eq_cons.mp h
  exact ⟨rfl, hnil⟩

theorem Turn.recv {data up down : List UInt8}
    {r : (Receiver × List UInt8) × Option (List UInt8)} (h : Turn c tx rx up (data ++ down) k)
    (hlen : data.length = rx.wants) (hread : rx.read c true data = some r) :
    ∃ k', Turn c tx r.1.1 (up ++ r.1.2) down k' ∧
      (blocks c.file).take k ++ r.2.toList = (blocks c.file).take k' ∧
      Setup.receives c k' r.1.1 < Setup.receives c k rx ∧ r.1.2.length ≤ 2 := by
  generalize hbytes : data ++ down = bytes at h
  have hempty : ∀ rx : Receiver, rx.wants ≠ 0 := by
    intro rx
    cases rx <;> simp [Receiver.wants]
  have hnil : bytes ≠ [] := by
    rintro rfl
    obtain ⟨rfl, -⟩ := append_eq_nil_iff.mp hbytes
    exact hempty rx hlen.symm
  cases h with
  | begins | opened | asked | taken | refused | agreed | closing | finished => exact absurd rfl hnil
  | offered =>
    obtain ⟨rfl, rfl⟩ := packet_split hbytes hlen
    cases hread
    exact ⟨0, by rw [append_nil]; exact .opening, rfl, Nat.lt_succ_self _, Nat.zero_le 2⟩
  | opening =>
    obtain ⟨rfl, rfl⟩ := tail_split hbytes (length_beginBlock) hlen
    rw [Receiver.read, checkFirst_packet (length_beginBlock)] at hread
    cases hread
    exact ⟨0, .opened, rfl, Nat.lt_succ_self _, Nat.le_refl 2⟩
  | @sent k _ hk hfirst =>
    obtain ⟨rfl, rfl⟩ := packet_split hbytes hlen
    cases hread
    exact ⟨k, by rw [append_nil]; exact .taking hk hfirst, by simp, Nat.lt_succ_self _,
      Nat.zero_le 2⟩
  | @taking k established hk hfirst =>
    have hblock := length_block (getElem_mem hk)
    obtain ⟨rfl, rfl⟩ := tail_split hbytes hblock hlen
    have hrepeat : ¬ (established = true ∧
        (packet rymCodeSoh (UInt32.ofNat (k + 1)).toUInt8 (blocks c.file)[k]).tail.getD 0 0 = 0) := by
      rintro ⟨hest, hzero⟩
      obtain rfl : k = 0 := of_decide_eq_true (hfirst.symm.trans hest)
      cases hzero
    rw [Receiver.read, if_neg (fun hne => hne seqSum_packet), if_neg hrepeat,
      recvCrc_packet hblock, payload_packet hblock, if_neg (fun hne => hne rfl)] at hread
    cases hread
    refine ⟨k + 1, .taken hk, take_concat_get' _ k hk, ?_, Nat.le_succ 1⟩
    simp only [Setup.receives]
    omega
  | ended =>
    obtain ⟨rfl, rfl⟩ := single_split hbytes hlen
    cases hread
    exact ⟨_, .refused, by simp, by simp [Setup.receives], Nat.le_succ 1⟩
  | again =>
    obtain ⟨rfl, rfl⟩ := single_split hbytes hlen
    cases hread
    exact ⟨_, .agreed, by simp, Nat.lt_succ_self 2, Nat.le_refl 2⟩
  | closed =>
    obtain ⟨rfl, rfl⟩ := packet_split hbytes hlen
    cases hread
    exact ⟨_, by rw [append_nil]; exact .closingTaken, by simp, Nat.lt_succ_self 1,
      Nat.zero_le 2⟩
  | closingTaken =>
    obtain ⟨rfl, rfl⟩ := tail_split hbytes length_zeroBlock hlen
    have hzero : ¬ (packet rymCodeSoh 0 zeroBlock).tail.getD 2 0 ≠ 0 := fun hne => hne rfl
    rw [Receiver.read, checkFirst_packet length_zeroBlock] at hread
    cases hread
    exact ⟨_, .finished, by simp, Nat.one_pos, Nat.le_succ 1⟩

theorem Sound.length (h : Sound c s k) (hk : k ≤ (blocks c.file).length) :
    s.received.length = k := by
  rw [h.received, length_take, Nat.min_eq_left hk]

theorem Turn.le : Turn c tx rx up down k → k ≤ (blocks c.file).length := by
  intro h
  cases h with
  | sent hk | taking hk => exact Nat.le_of_lt hk
  | taken hk => exact hk
  | begins | offered | opening | opened | asked => exact Nat.zero_le _
  | _ => exact Nat.le_refl _

@[simp] theorem bytes_put (ch : Channel) (l : List UInt8) : (ch.put l).bytes = ch.bytes ++ l :=
  (append_assoc ..).symm

@[simp] theorem bytes_arrive (ch : Channel) (n : Nat) : (ch.arrive n).bytes = ch.bytes := by
  unfold Channel.bytes Channel.arrive
  rw [append_assoc, take_append_drop]

theorem bytes_drop (ch : Channel) (n : Nat) : ch.buffer.take n ++ (ch.drop n).bytes = ch.bytes := by
  unfold Channel.bytes Channel.drop
  rw [← append_assoc, take_append_drop]

theorem Turn.startSend (h : Turn c .idle rx up down k)
    (hsend : 0 < c.sendTimeout) : Turn c (.handshake 0) rx up down k := by
  cases h with
  | begins _ hrx => exact .begins (.inr ⟨0, hsend, rfl⟩) hrx

theorem Turn.startRecv (h : Turn c tx .idle up down k) :
    Turn c tx (.handshake 0) (up ++ [rymCodeC]) down k := by
  cases h with
  | begins htx hrx =>
    obtain ⟨-, rfl⟩ | ⟨hrx, -⟩ := hrx
    · exact .begins htx (.inr ⟨rfl, rfl⟩)
    · cases hrx

theorem Turn.sendTimeout {tx tx' : Sender}
    (h : Turn c tx rx up down k) (hcareful : tx.tries + 1 < c.sendTimeout)
    (htimeout : tx.timeout c = some tx') :
    Turn c tx' rx up down k ∧ Setup.sends c tx' < Setup.sends c tx := by
  cases h with
  | begins htx hrx =>
    obtain rfl | ⟨i, hi, rfl⟩ := htx
    · cases htimeout
    · have hlt : i + 1 < c.sendTimeout := hcareful
      rw [Sender.timeout, if_pos hlt] at htimeout
      cases htimeout
      refine ⟨.begins (.inr ⟨i + 1, hlt, rfl⟩) hrx, ?_⟩
      simp only [Setup.sends]
      omega
  | _ => cases htimeout

section

variable (h : Sound c s k) {a : Act}
include h

theorem Sound.startSend (hsend : 0 < c.sendTimeout) (hexec : exec c s (.startSend true) = some s') :
    Sound c s' k ∧ left c s' < left c s := by
  have hturn := h.turn
  unfold Session.exec at hexec
  dsimp only at hexec
  split at hexec
  · next hidle =>
    cases hexec
    rw [hidle] at hturn
    refine ⟨⟨hturn.startSend hsend, h.received⟩, ?_⟩
    unfold left
    rw [hidle]
    simp only [Setup.sends]
    omega
  · cases hexec

theorem Sound.startRecv (hrecv : 0 < c.recvTimeout) (hexec : exec c s (.startRecv true) = some s') :
    Sound c s' k ∧ left c s' < left c s := by
  have hturn := h.turn
  have hlen := h.length hturn.le
  unfold Session.exec at hexec
  dsimp only at hexec
  split at hexec
  · next hidle =>
    cases hexec
    rw [hidle] at hturn
    refine ⟨⟨?_, h.received⟩, ?_⟩
    · have hturn' := hturn.startRecv
      rw [← bytes_put] at hturn'
      exact hturn'
    · have hup : (s.up.put [rymCodeC]).wire.length = s.up.wire.length + 1 := length_append
      unfold left
      rw [hidle]
      simp only [Setup.receives]
      omega
  · cases hexec

theorem Sound.arrive {n : Nat} (ha : a = .arriveUp n ∨ a = .arriveDown n)
    (hexec : exec c s a = some s') : Sound c s' k ∧ left c s' < left c s := by
  have hturn := h.turn
  have hwire : ∀ ch : Channel, (ch.arrive n).wire.length = ch.wire.length - n := fun _ => length_drop
  have hup := hwire s.up
  have hdown := hwire s.down
  rcases ha with rfl | rfl
  all_goals
    unfold Session.exec at hexec
    dsimp only at hexec
    split at hexec
    · cases hexec
      refine ⟨⟨?_, h.received⟩, ?_⟩
      · dsimp only
        rwa [bytes_arrive]
      · unfold left
        dsimp only
        omega
    · cases hexec

/-- The sender reads a byte, and may answer. -/
theorem Sound.send (hexec : exec c s (.send true) = some s') :
    Sound c s' k ∧ left c s' < left c s := by
  have hturn := h.turn
  unfold Session.exec at hexec
  dsimp only at hexec
  split at hexec
  · cases hexec
  · next code rest hbuffer =>
    obtain ⟨r, hread, hsome⟩ := bind_eq_some_iff.mp hexec
    cases hsome
    have hbytes : s.up.bytes = code :: (s.up.drop 1).bytes := by
      unfold Channel.bytes Channel.drop
      rw [hbuffer]
      rfl
    rw [hbytes] at hturn
    obtain ⟨hturn', hless, hput⟩ := hturn.read hread
    refine ⟨⟨?_, h.received⟩, ?_⟩
    · rw [← bytes_put] at hturn'
      exact hturn'
    · have hup : (s.up.drop 1).wire.length = s.up.wire.length := rfl
      have hdown : (s.down.put r.2).wire.length = s.down.wire.length + r.2.length := length_append
      unfold left
      dsimp only
      omega

theorem Sound.sendTimeout (hcareful : s.sender.tries + 1 < c.sendTimeout)
    (hexec : exec c s .sendTimeout = some s') : Sound c s' k ∧ left c s' < left c s := by
  unfold Session.exec at hexec
  dsimp only at hexec
  split at hexec
  · obtain ⟨sender, htimeout, hsome⟩ := bind_eq_some_iff.mp hexec
    cases hsome
    obtain ⟨hturn', hless⟩ := h.turn.sendTimeout hcareful htimeout
    refine ⟨⟨hturn', h.received⟩, ?_⟩
    unfold left
    dsimp only
    omega
  · cases hexec

/-- The receiver reads what it waits for; a block may have come. -/
theorem Sound.recv {tick now : UInt32} (hcareful : s.Careful c (.recv tick now true))
    (hexec : exec c s (.recv tick now true) = some s') :
    (∃ k', Sound c s' k') ∧ left c s' < left c s := by
  have hturn := h.turn
  have hlen := h.length hturn.le
  unfold Session.exec at hexec
  dsimp only at hexec
  split at hexec
  · next hlate => exact absurd hlate.2 (UInt32.not_lt.mpr (hcareful.1 hlate.1))
  · split at hexec
    · next hwants =>
      obtain ⟨r, hread, hsome⟩ := bind_eq_some_iff.mp hexec
      cases hsome
      rw [← bytes_drop s.down s.receiver.wants] at hturn
      obtain ⟨k', hturn', hblocks, hless, hput⟩ :=
        hturn.recv (by rw [length_take, Nat.min_eq_left hwants]) hread
      have hreceived : (s.moveReceiver s.receiver.wants r.1 r.2).received =
          (blocks c.file).take k' := by
        rw [← hblocks, ← h.received]
        rfl
      have hlen' : (s.moveReceiver s.receiver.wants r.1 r.2).received.length = k' := by
        rw [hreceived, length_take, Nat.min_eq_left hturn'.le]
      refine ⟨⟨k', ?_, hreceived⟩, ?_⟩
      · rw [← bytes_put] at hturn'
        exact hturn'
      · have hdown : (s.down.drop s.receiver.wants).wire.length = s.down.wire.length := rfl
        have hup : (s.up.put r.1.2).wire.length = s.up.wire.length + r.1.2.length := length_append
        unfold left
        rw [hlen', hlen]
        dsimp only [moveReceiver]
        omega
    · cases hexec

/-- A step within the condition keeps the turns, and leaves less to do. -/
theorem Sound.exec (hsend : 0 < c.sendTimeout) (hrecv : 0 < c.recvTimeout)
    (hcareful : s.Careful c a) (hexec : exec c s a = some s') : (∃ k', Sound c s' k') ∧ left c s' < left c s := by
  cases a with
  | startSend mallocs =>
    obtain rfl : mallocs = true := hcareful
    exact (h.startSend hsend hexec).imp_left fun hsound => ⟨k, hsound⟩
  | startRecv mallocs =>
    obtain rfl : mallocs = true := hcareful
    exact (h.startRecv hrecv hexec).imp_left fun hsound => ⟨k, hsound⟩
  | arriveUp n => exact (h.arrive (.inl rfl) hexec).imp_left fun hsound => ⟨k, hsound⟩
  | arriveDown n => exact (h.arrive (.inr rfl) hexec).imp_left fun hsound => ⟨k, hsound⟩
  | send opens =>
    obtain rfl : opens = true := hcareful
    exact (h.send hexec).imp_left fun hsound => ⟨k, hsound⟩
  | sendTimeout => exact (h.sendTimeout hcareful hexec).imp_left fun hsound => ⟨k, hsound⟩
  | recv tick now opens =>
    obtain rfl : opens = true := hcareful.2
    exact h.recv hcareful hexec
  | recvTimeout => exact hcareful.elim

end

/-- What is in a channel comes to the side that waits for it. -/
theorem goes_up {l : List UInt8} (hbytes : s.up.bytes = code :: l)
    (hread : (s.sender.read c true code).isSome) :
    ∃ a s', Careful c s a ∧ exec c s a = some s' := by
  cases hbuffer : s.up.buffer with
  | nil =>
    have hwire : s.up.wire = code :: l := by
      rw [← hbytes]
      unfold Channel.bytes
      rw [hbuffer, nil_append]
    have hpos : 0 < s.up.wire.length := hwire ▸ Nat.succ_pos _
    exact ⟨.arriveUp s.up.wire.length, _, trivial, if_pos ⟨hpos, Nat.le_refl _⟩⟩
  | cons b rest =>
    have hcode : b = code := by
      unfold Channel.bytes at hbytes
      rw [hbuffer] at hbytes
      exact (cons_eq_cons.mp hbytes).1
    obtain ⟨r, hr⟩ := isSome_iff_exists.mp (hcode ▸ hread)
    refine ⟨.send true, { s with sender := r.1, up := s.up.drop 1, down := s.down.put r.2 }, rfl, ?_⟩
    unfold Session.exec
    rw [hbuffer]
    dsimp only
    rw [hr]
    rfl

theorem goes_down (hwants : s.receiver.wants ≤ s.down.bytes.length)
    (hread : ∀ data, (s.receiver.read c true data).isSome) :
    ∃ a s', Careful c s a ∧ exec c s a = some s' := by
  by_cases hbuffer : s.receiver.wants ≤ s.down.buffer.length
  · obtain ⟨r, hr⟩ := isSome_iff_exists.mp
      (hread (s.down.buffer.take s.receiver.wants))
    refine ⟨.recv 0 0 true, s.moveReceiver s.receiver.wants r.1 r.2,
      ⟨fun _ => UInt32.not_lt.mp (UInt32.not_lt_zero), rfl⟩, ?_⟩
    unfold Session.exec
    dsimp only
    rw [if_neg (fun hlate => UInt32.not_lt_zero hlate.2), if_pos hbuffer, hr]
    rfl
  · have hpos : 0 < s.down.wire.length := by
      unfold Channel.bytes at hwants
      rw [length_append] at hwants
      omega
    exact ⟨.arriveDown s.down.wire.length, _, trivial, if_pos ⟨hpos, Nat.le_refl _⟩⟩

theorem read_isSome {opens : Bool} {data : List UInt8} (hidle : rx ≠ .idle)
    (hreturned : ∀ err, rx ≠ .returned err) : (rx.read c opens data).isSome := by
  cases rx with
  | idle => exact absurd rfl hidle
  | returned err => exact absurd rfl (hreturned err)
  | _ =>
    unfold Receiver.read
    dsimp only
    repeat' split
    all_goals rfl

theorem Sound.goes (h : Sound c s k) (hsend : 0 < c.sendTimeout) (hrecv : 0 < c.recvTimeout) :
    s.Over ∨ ∃ a s', Careful c s a ∧ Session.exec c s a = some s' := by
  have hturn := h.turn
  generalize htx : s.sender = tx at hturn
  generalize hrx : s.receiver = rx at hturn
  generalize hup : s.up.bytes = up at hturn
  generalize hdown : s.down.bytes = down at hturn
  have hwants : rx.wants ≤ down.length → (∀ data, (rx.read c true data).isSome) →
      ∃ a s', Careful c s a ∧ Session.exec c s a = some s' := fun hlen hread =>
    goes_down (by rw [hrx, hdown]; exact hlen) (hrx ▸ hread)
  have hlen : ∀ {index : UInt8} (block : List UInt8), block.length = 128 →
      132 ≤ (packet rymCodeSoh index block).tail.length := fun block hblock => by
    rw [length_tail, length_packet hblock]
  cases hturn with
  | begins hbegin hend =>
    right
    obtain ⟨rfl, rfl⟩ | ⟨rfl, rfl⟩ := hend
    · have hexec : (Session.exec c s (.startRecv true)).isSome := by
        unfold Session.exec
        dsimp only
        rw [if_pos hrx, if_neg (fun hn => hn rfl), if_pos hrecv]
        rfl
      exact ⟨.startRecv true, _, rfl, (isSome_iff_exists.mp hexec).choose_spec⟩
    · obtain rfl | ⟨i, -, rfl⟩ := hbegin
      · have hexec : (Session.exec c s (.startSend true)).isSome := by
          unfold Session.exec
          dsimp only
          rw [if_pos htx, if_neg (fun hn => hn rfl), if_pos hsend]
          rfl
        exact ⟨.startSend true, _, rfl, (isSome_iff_exists.mp hexec).choose_spec⟩
      · exact goes_up hup (by rw [htx]; rfl)
  | opened | asked | refused | agreed | closing => exact .inr (goes_up hup (by rw [htx]; rfl))
  | taken hk =>
    refine .inr (goes_up hup ?_)
    rw [htx, Sender.read, if_pos rfl]
    split <;> rfl
  | finished => exact .inl ⟨htx, hrx⟩
  | offered =>
    exact .inr (hwants (by rw [length_packet (length_beginBlock)]; decide) fun data =>
      read_isSome nofun nofun)
  | opening => exact .inr (hwants (hlen _ (length_beginBlock)) fun data => read_isSome nofun nofun)
  | sent hk =>
    have hone : 1 ≤ 133 := by decide
    exact .inr (hwants (by rw [length_packet (length_block (getElem_mem _))]; exact hone)
      fun data => read_isSome nofun nofun)
  | taking hk =>
    exact .inr (hwants (hlen _ (length_block (getElem_mem _))) fun data =>
      read_isSome nofun nofun)
  | ended | again => exact .inr (hwants (Nat.le_refl 1) fun data => read_isSome nofun nofun)
  | closed =>
    exact .inr (hwants (by rw [length_packet length_zeroBlock]; decide) fun data =>
      read_isSome nofun nofun)
  | closingTaken => exact .inr (hwants (hlen _ length_zeroBlock) fun data => read_isSome nofun nofun)

/-- No run within the condition is longer than what is left to do. -/
theorem Sound.runWithin {acts : List Act} (h : Sound c s k) (hsend : 0 < c.sendTimeout)
    (hrecv : 0 < c.recvTimeout) (hrun : runWithin (Session.exec c) (Careful c) s acts = some s') :
    acts.length + left c s' ≤ left c s := by
  induction acts generalizing s k with
  | nil =>
    cases hrun
    exact (Nat.zero_add _).le
  | cons a acts ih =>
    obtain ⟨t, ht, hrest⟩ := bind_eq_some_iff.mp hrun
    dsimp only at ht
    by_cases hcareful : Careful c s a
    · rw [if_pos hcareful] at ht
      obtain ⟨⟨k', h'⟩, hless⟩ := h.exec hsend hrecv hcareful ht
      have hle := ih h' hrest
      rw [length_cons]
      omega
    · rw [if_neg hcareful] at ht
      cases ht

theorem Sound.delivers (h : Sound c s k) : s.Delivers c := by
  have hturn := h.turn
  generalize htx : s.sender = tx at hturn
  generalize hrx : s.receiver = rx at hturn
  refine ⟨fun err herr => ?_, fun err herr => ?_, h.received ▸ take_prefix _ _, ?_⟩
  · obtain rfl := htx.symm.trans herr
    generalize s.up.bytes = up at hturn
    generalize s.down.bytes = down at hturn
    cases hturn with
    | begins hbegin =>
      obtain hidle | ⟨i, -, hi⟩ := hbegin
      · cases hidle
      · cases hi
    | closed => rfl
    | closingTaken => rfl
    | finished => rfl
  · obtain rfl := hrx.symm.trans herr
    generalize s.up.bytes = up at hturn
    generalize s.down.bytes = down at hturn
    cases hturn with
    | begins _ hend =>
      obtain ⟨hidle, -⟩ | ⟨hi, -⟩ := hend
      · cases hidle
      · cases hi
    | finished => rfl
  · rintro ⟨err, herr⟩
    obtain rfl := hrx.symm.trans herr
    rw [h.received]
    generalize s.up.bytes = up at hturn
    generalize s.down.bytes = down at hturn
    cases hturn with
    | begins _ hend =>
      obtain ⟨hidle, -⟩ | ⟨hi, -⟩ := hend
      · cases hidle
      · cases hi
    | finished => exact take_length

/-- Neither side has begun. -/
def Initial (s : Session) : Prop := s = initial

theorem Initial.sound (h : Initial s) : Sound c s 0 := by
  obtain rfl : s = initial := h
  exact ⟨.begins (.inl rfl) (.inl ⟨rfl, rfl⟩), rfl⟩

theorem reachable_sound (hsend : 0 < c.sendTimeout) (hrecv : 0 < c.recvTimeout)
    (h : Reachable Initial (Within (fun s a s' => exec c s a = some s') (Careful c)) s) :
    ∃ k, Sound c s k := by
  refine h.invariant (I := fun s => ∃ k, Sound c s k) (fun s h₀ => ⟨0, h₀.sound⟩)
    fun s a s' _ ih hstep => ?_
  obtain ⟨k, hk⟩ := ih
  exact (hk.exec hsend hrecv hstep.1 hstep.2).1

/-- As long as no wait of the receiver runs out, a session delivers: neither side returns an error,
the blocks of the file are received in order, it can go on until both sides have returned, and it
does not go on for ever. -/
theorem reachable_delivers {c : Setup} {s : Session} (hsend : 0 < c.sendTimeout)
    (hrecv : 0 < c.recvTimeout)
    (h : Reachable Initial (Within (fun s a s' => exec c s a = some s') (Careful c)) s) :
    s.Delivers c ∧ (s.Over ∨ ∃ a s', s.Careful c a ∧ exec c s a = some s') ∧
      ∀ acts s', runWithin (exec c) (Careful c) s acts = some s' → acts.length ≤ left c s := by
  obtain ⟨k, hk⟩ := reachable_sound hsend hrecv h
  refine ⟨hk.delivers, hk.goes hsend hrecv, fun acts s' hrun => ?_⟩
  exact (Nat.le_add_right ..).trans (hk.runWithin hsend hrecv hrun)

/-- From wherever it is a session can be led to its end. -/
theorem exists_over (hsend : 0 < c.sendTimeout) (hrecv : 0 < c.recvTimeout)
    (h : Reachable Initial (Within (fun s a s' => exec c s a = some s') (Careful c)) s) :
    ∃ t, Reachable Initial (Within (fun s a s' => exec c s a = some s') (Careful c)) t ∧ t.Over := by
  induction hleft : left c s using Nat.strong_induction_on generalizing s with
  | _ n ih =>
    obtain ⟨k, hk⟩ := reachable_sound hsend hrecv h
    obtain hover | ⟨a, s', hcareful, hexec⟩ := hk.goes hsend hrecv
    · exact ⟨s, h, hover⟩
    · have hless := (hk.exec hsend hrecv hcareful hexec).2
      exact ih _ (hleft ▸ hless) (h.next ⟨hcareful, hexec⟩) rfl

/-- A file of three bytes. -/
def threeBytes : Setup := ⟨[0x66], [1, 2, 3], 3, 3, 100⟩

/-- A session comes to its end with the only block of the file delivered. -/
theorem reachable_delivers_first : ∃ s : Session, s.Over ∧ s.received.length = 1 ∧
    s.Delivers threeBytes ∧
    ∀ acts s', runWithin (exec threeBytes) (Careful threeBytes) s acts = some s' →
      acts.length ≤ left threeBytes s := by
  obtain ⟨s, hs, hover⟩ := exists_over (c := threeBytes) (by decide) (by decide) (.start rfl)
  obtain ⟨hdelivers, -, hends⟩ := reachable_delivers (c := threeBytes) (by decide) (by decide) hs
  refine ⟨s, hover, ?_, hdelivers, hends⟩
  rw [hdelivers.all ⟨0, hover.2⟩]
  rfl

/-- The receiver starts first, and sends another `C` before the sender has started. -/
def startsLate : List Act :=
  [.startRecv true, .recvTimeout, .startSend true, .arriveUp 2, .send true, .send true]

/-- The second `C` is taken for the answer to the first packet. -/
theorem waits_not_delivered :
    ∃ s, Reachable Initial (fun s a s' => exec threeBytes s a = some s') s ∧
      s.sender = .returned (-rymErrAck) ∧ ¬ s.Delivers threeBytes := by
  obtain ⟨s, hs, hsender⟩ : ∃ s ∈ runAll (exec threeBytes) initial startsLate,
      s.sender = .returned (-rymErrAck) := by decide +kernel
  have hstart : Reachable Initial (fun s a s' => exec threeBytes s a = some s') initial :=
    Reachable.start rfl
  refine ⟨s, hstart.runAll hs, hsender, fun h => ?_⟩
  exact absurd (h.sender _ hsender) (by decide)

end Session

end RtKernel.Ymodem

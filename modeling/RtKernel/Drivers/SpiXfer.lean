import Mathlib.Algebra.BigOperators.Group.List.Basic
import Mathlib.Algebra.GroupWithZero.Nat
import Mathlib.Data.Nat.Basic

/-!
# Transfers over SPI

A message is transferred in chunks of up to 65535. The place of a chunk is what of the length
of the message has been sent; an error makes the length zero and the loop goes on.
-/

open List

namespace RtKernel.SpiXfer

/-- The buffers of a message. -/
inductive Buffer
  | send
  | recv
  deriving DecidableEq

/-- What transfers a chunk. -/
inductive Transfer
  | dmaTrans (tx : Buffer) (rx : Option Buffer)
  | spiTransReceive
  | spiTrans
  | spiReceive
  deriving DecidableEq

/-- `struct rt_spi_message`, and whether its buffers are there. -/
structure Message where
  sendBuf : Bool
  recvBuf : Bool
  length : Nat

/-- `RT_DEVICE_FLAG_DMA_RX`. -/
def rtDeviceFlagDmaRx : Nat := 0x200

/-- `RT_DEVICE_FLAG_DMA_TX`. -/
def rtDeviceFlagDmaTx : Nat := 0x800

/-- A chunk, at an offset from the start of the buffers. -/
structure Chunk where
  transfer : Transfer
  offset : Int
  length : Nat
  deriving DecidableEq

/-- How the chunks of a message are transferred, with `spi_dma_flag`, an `rt_uint8_t`. -/
def transfer (flag : UInt8) (message : Message) : Transfer :=
  let dmaTx := flag.toNat &&& rtDeviceFlagDmaTx ≠ 0
  let dmaRx := flag.toNat &&& rtDeviceFlagDmaRx ≠ 0
  if message.sendBuf && message.recvBuf then
    if dmaTx ∧ dmaRx then .dmaTrans .send (some .recv) else .spiTransReceive
  else if message.sendBuf then
    if dmaTx then .dmaTrans .send none else .spiTrans
  else if dmaRx then .dmaTrans .recv (some .recv) else .spiReceive

/-- An error makes the length zero. -/
def Message.after (message : Message) (ok : Bool) : Message :=
  if ok then message else { message with length := 0 }

/-- The loop of `hc32_spi_xfer`, with what is left to be sent, and whether chunk `i` is transferred
without an error; the chunks and the length of the message at the end. -/
def xferLoop (ok : Nat → Bool) (flag : UInt8) (message : Message) (i messageLength : Nat) :
    List Chunk × Nat :=
  if messageLength = 0 then ([], message.length)
  else
    let sendLength := if messageLength > 65535 then 65535 else messageLength
    let messageLength' := if messageLength > 65535 then messageLength - 65535 else 0
    -- the difference of three `rt_size_t`
    let alreadySendLength := ((message.length : Int) - sendLength - messageLength') % 2 ^ 32
    let (chunks, length) := xferLoop ok flag (message.after (ok i)) (i + 1) messageLength'
    ({ transfer := transfer flag message
       offset := alreadySendLength
       length := sendLength } :: chunks, length)
termination_by messageLength
decreasing_by
  split <;> omega

/-- `hc32_spi_xfer`, with what it returns. -/
def hc32SpiXfer (ok : Nat → Bool) (flag : UInt8) (message : Message) : List Chunk × Nat :=
  xferLoop ok flag message 0 message.length

/-- The chunks follow each other from an offset on. -/
def Consecutive : Int → List Chunk → Prop
  | _, [] => True
  | offset, c :: chunks => c.offset = offset ∧ Consecutive (offset + c.length) chunks

/-- A message of this length is transferred. -/
structure Transferred (length : Nat) (ok : Nat → Bool) (result : List Chunk × Nat) : Prop where
  consecutive : Consecutive 0 result.1
  inside : ∀ c ∈ result.1, 0 ≤ c.offset ∧ c.offset + c.length ≤ length
  whole : (∀ i < result.1.length, ok i = true) →
    (result.1.map Chunk.length).sum = length ∧ result.2 = length
  failed : (∃ i < result.1.length, ok i = false) → result.2 = 0

variable {ok : Nat → Bool} {flag : UInt8} {message : Message}

theorem xferLoop_zero (i : Nat) : xferLoop ok flag message i 0 = ([], message.length) := by
  rw [xferLoop, if_pos rfl]

variable {rest : Nat}

/-- A turn transfers a chunk, which is a whole one unless it is the last, and the rest is
transferred with the length that it leaves. -/
theorem xferLoop_turn (ok : Nat → Bool) (flag : UInt8) (message : Message) (i : Nat)
    (hrest : 0 < rest) :
    ∃ sent rest', sent + rest' = rest ∧ 0 < sent ∧ sent ≤ 65535 ∧ (0 < rest' → sent = 65535) ∧
      xferLoop ok flag message i rest =
        ({ transfer := transfer flag message
           offset := ((message.length : Int) - rest) % 2 ^ 32
           length := sent } :: (xferLoop ok flag (message.after (ok i)) (i + 1) rest').1,
          (xferLoop ok flag (message.after (ok i)) (i + 1) rest').2) := by
  rw [xferLoop, if_neg hrest.ne']
  by_cases hlong : rest > 65535
  · have hdiff : (message.length : Int) - (65535 : Nat) - (rest - 65535 : Nat) =
        message.length - rest := by omega
    simp only [if_pos hlong, hdiff]
    exact ⟨65535, rest - 65535, by omega, by omega, le_rfl, fun _ => rfl, rfl⟩
  · have hdiff : (message.length : Int) - rest - (0 : Nat) = message.length - rest := by omega
    simp only [if_neg hlong, hdiff]
    exact ⟨rest, 0, by omega, hrest, by omega, fun hno => absurd hno (Nat.lt_irrefl 0), rfl⟩

/-- While the length is the one of the message, a chunk is where the rest begins. -/
theorem offset_eq (hrest : rest ≤ message.length) (hlength : message.length < 2 ^ 32) :
    ((message.length : Int) - rest) % 2 ^ 32 = message.length - rest :=
  Int.emod_eq_of_lt (by omega) (by omega)

/-- As long as only the last chunk fails, the chunks cover the rest. -/
theorem xferLoop_covers (flag : UInt8) (hlength : message.length < 2 ^ 32) (i : Nat)
    (hrest : rest ≤ message.length) (hok : ∀ j, 65535 * (j + 1) < rest → ok (i + j) = true) :
    Consecutive (message.length - rest) (xferLoop ok flag message i rest).1 ∧
      (∀ c ∈ (xferLoop ok flag message i rest).1,
        0 ≤ c.offset ∧ c.offset + c.length ≤ message.length) ∧
      ((xferLoop ok flag message i rest).1.map Chunk.length).sum = rest := by
  induction rest using Nat.strong_induction_on generalizing i with
  | h rest ih =>
    rcases Nat.eq_zero_or_pos rest with rfl | hpos
    · rw [xferLoop_zero]
      exact ⟨trivial, fun c hc => absurd hc not_mem_nil, rfl⟩
    · obtain ⟨sent, rest', hsum, hsent, -, hwhole, hturn⟩ := xferLoop_turn ok flag message i hpos
      rw [hturn, offset_eq hrest hlength]
      rcases Nat.eq_zero_or_pos rest' with rfl | hpos'
      · rw [xferLoop_zero]
        refine ⟨⟨rfl, trivial⟩, fun c hc => ?_, ?_⟩
        · rw [mem_singleton.mp hc]
          dsimp only
          omega
        · simpa using hsum
      · have hfull := hwhole hpos'
        have hfirst := hok 0 (by omega)
        rw [Nat.add_zero] at hfirst
        have hnext : ∀ j, 65535 * (j + 1) < rest' → ok (i + 1 + j) = true := by
          intro j hj
          have hj' := hok (j + 1) (by omega)
          rwa [Nat.add_assoc, Nat.add_comm 1]
        obtain ⟨hconsecutive, hinside, hchunks⟩ := ih rest' (by omega) (i + 1) (by omega) hnext
        have hoffset : (message.length : Int) - rest + sent = message.length - rest' := by omega
        rw [Message.after, hfirst, if_pos rfl]
        refine ⟨⟨rfl, ?_⟩, fun c hc => ?_, ?_⟩
        · dsimp only
          rw [hoffset]
          exact hconsecutive
        · rcases mem_cons.mp hc with rfl | hc
          · dsimp only
            omega
          · exact hinside c hc
        · rw [map_cons, sum_cons, hchunks]
          exact hsum

/-- What is returned is the length without an error, and zero after one. -/
theorem xferLoop_length (ok : Nat → Bool) (flag : UInt8) (message : Message) (i rest : Nat) :
    ((∀ j < (xferLoop ok flag message i rest).1.length, ok (i + j) = true) →
        (xferLoop ok flag message i rest).2 = message.length) ∧
      ((∃ j < (xferLoop ok flag message i rest).1.length, ok (i + j) = false) →
        (xferLoop ok flag message i rest).2 = 0) := by
  induction rest using Nat.strong_induction_on generalizing i message with
  | h rest ih =>
    rcases Nat.eq_zero_or_pos rest with rfl | hpos
    · rw [xferLoop_zero]
      refine ⟨fun _ => rfl, ?_⟩
      rintro ⟨j, hj, -⟩
      exact absurd hj (Nat.not_lt_zero j)
    · obtain ⟨sent, rest', hsum, hsent, -, -, hturn⟩ := xferLoop_turn ok flag message i hpos
      obtain ⟨hall, hbad⟩ := ih rest' (by omega) (message.after (ok i)) (i + 1)
      rw [hturn]
      constructor
      · intro h
        have hfirst := h 0 (Nat.succ_pos _)
        rw [Nat.add_zero] at hfirst
        have hrest := hall fun j hj => by
          rw [Nat.add_assoc, Nat.add_comm 1]
          exact h (j + 1) (Nat.succ_lt_succ hj)
        rw [hfirst] at hrest ⊢
        exact hrest
      · rintro ⟨j, hj, hfail⟩
        by_cases hlater : ∃ k < (xferLoop ok flag (message.after (ok i)) (i + 1) rest').1.length,
            ok (i + 1 + k) = false
        · exact hbad hlater
        · have hnone : ∀ k < (xferLoop ok flag (message.after (ok i)) (i + 1) rest').1.length,
              ok (i + 1 + k) = true := by
            intro k hk
            by_contra hno
            exact hlater ⟨k, hk, Bool.eq_false_iff.mpr hno⟩
          have hfirst : ok i = false := by
            cases j with
            | zero => exact hfail
            | succ j =>
              have hj' := hnone j (Nat.lt_of_succ_lt_succ hj)
              rw [Nat.add_assoc, Nat.add_comm 1, hfail] at hj'
              cases hj'
          rw [hall hnone, hfirst]
          rfl

/-- A chunk that fails before the last one puts the next one out of place. -/
theorem ok_first (hlength : message.length < 2 ^ 32) (i : Nat)
    (hrest : rest ≤ message.length) (hlong : 65535 < rest)
    (h : Consecutive (message.length - rest) (xferLoop ok flag message i rest).1) :
    ok i = true := by
  have hpos : 0 < rest := by omega
  obtain ⟨sent, rest', hsum, -, hsent, -, hturn⟩ := xferLoop_turn ok flag message i hpos
  have hpos' : 0 < rest' := by omega
  obtain ⟨sent', rest'', -, -, -, -, hnext⟩ :=
    xferLoop_turn ok flag (message.after (ok i)) (i + 1) hpos'
  rw [hturn] at h
  obtain ⟨-, hafter⟩ := h
  rw [hnext] at hafter
  obtain ⟨hplace, -⟩ := hafter
  by_contra hfail
  rw [Bool.not_eq_true] at hfail
  have hzero : (message.after (ok i)).length = 0 := by
    rw [hfail]
    rfl
  simp only [hzero] at hplace
  omega

/-- Chunks that follow each other have not failed before the last one. -/
theorem ok_of_consecutive (hlength : message.length < 2 ^ 32) (i : Nat)
    (hrest : rest ≤ message.length)
    (h : Consecutive (message.length - rest) (xferLoop ok flag message i rest).1) (j : Nat)
    (hj : 65535 * (j + 1) < rest) : ok (i + j) = true := by
  induction j generalizing i rest with
  | zero => exact ok_first hlength i hrest (by omega) h
  | succ j ih =>
    have hfirst := ok_first hlength i hrest (by omega) h
    have hpos : 0 < rest := by omega
    obtain ⟨sent, rest', hsum, -, hsent, hwhole, hturn⟩ := xferLoop_turn ok flag message i hpos
    rw [hturn, hfirst] at h
    obtain ⟨-, hafter⟩ := h
    have hoffset : (message.length : Int) - rest + sent = message.length - rest' := by omega
    rw [hoffset] at hafter
    have hlast := ih (i + 1) (by omega) hafter (by omega)
    rwa [Nat.add_assoc, Nat.add_comm 1] at hlast

/-- A message is transferred, whatever its chunks result in, just when no chunk fails before the
last one. -/
theorem hc32SpiXfer_transferred_iff (ok : Nat → Bool) (flag : UInt8) (message : Message)
    (hlength : message.length < 2 ^ 32) :
    Transferred message.length ok (hc32SpiXfer ok flag message) ↔
      ∀ i, 65535 * (i + 1) < message.length → ok i = true := by
  have hstart : (message.length : Int) - message.length = 0 := sub_self _
  constructor
  · intro h i hi
    have hconsecutive := h.consecutive
    rw [← hstart] at hconsecutive
    have hok := ok_of_consecutive hlength 0 le_rfl hconsecutive i hi
    rwa [Nat.zero_add] at hok
  · intro h
    have hok : ∀ j, 65535 * (j + 1) < message.length → ok (0 + j) = true := fun j hj => by
      rw [Nat.zero_add]
      exact h j hj
    obtain ⟨hconsecutive, hinside, hsum⟩ := xferLoop_covers flag hlength 0 le_rfl hok
    obtain ⟨hwhole, hfailed⟩ := xferLoop_length ok flag message 0 message.length
    rw [hstart] at hconsecutive
    simp only [Nat.zero_add] at hwhole hfailed
    exact ⟨hconsecutive, hinside, fun hall => ⟨hsum, hwhole hall⟩, hfailed⟩

/-- 70000 bytes to be sent. -/
def large : Message := { sendBuf := true, recvBuf := false, length := 70000 }

/-- The last one of two chunks fails. -/
theorem hc32SpiXfer_transferred_last :
    Transferred 70000 (fun i => i ≠ 1) (hc32SpiXfer (fun i => i ≠ 1) 0 large) := by
  refine (hc32SpiXfer_transferred_iff _ _ large (by decide)).mpr fun i hi => ?_
  have hfirst : i = 0 := by
    simp only [large] at hi
    omega
  rw [hfirst]
  rfl

/-- The first one of two chunks fails, and the other one is sent from below the buffer. -/
theorem firstFailed_not_transferred :
    ¬ ∀ ok flag message, message.length < 2 ^ 32 →
      Transferred message.length ok (hc32SpiXfer ok flag message) := by
  intro hall
  have hconsecutive := (hall (fun i => i ≠ 0) 0 large (by decide)).consecutive
  have hstart : (large.length : Int) - large.length = 0 := sub_self _
  rw [← hstart] at hconsecutive
  exact absurd (ok_first (by decide) 0 le_rfl (by decide) hconsecutive) (by decide)

end RtKernel.SpiXfer

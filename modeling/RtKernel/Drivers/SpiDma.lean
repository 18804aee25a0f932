import RtKernel.Drivers.SpiXfer

/-!
# SPI transfers by DMA

A bus is set up for two channels of the DMA unit, which `hc32_spi_dma_trans` is to arm for
each chunk. The field that is to say so has no room for the flags, so that every chunk is
polled; and the tests of the pointers in `hc32_spi_dma_trans` are the wrong way round.
-/

open List

namespace RtKernel.SpiXfer

/-- A place in a buffer; none is the null pointer. -/
abbrev Address := Option (Buffer × Int)

/-- Who moves the data. -/
inductive Means
  | dma
  | polled
  deriving DecidableEq

/-- What is transferred into the data register, or out of it. -/
inductive Programmed
  | transmit (means : Means) (source : Address) (length : Nat)
  | receive (means : Means) (destination : Address) (length : Nat)
  deriving DecidableEq

/-- The same transfer, made by the DMA unit. -/
def Programmed.viaDma : Programmed → Programmed
  | .transmit _ source length => .transmit .dma source length
  | .receive _ destination length => .receive .dma destination length

/-- `hc32_spi_dma_trans`: whether it returns `LL_OK`, and the channels it arms. -/
def hc32SpiDmaTrans (pvTxBuf pvRxBuf : Address) (u32Length : Nat) : Bool × List Programmed :=
  if pvTxBuf = none ∨ pvRxBuf = none then (false, [])
  else
    (true, (if pvTxBuf = none then [.transmit .dma pvTxBuf u32Length] else []) ++
      if pvRxBuf = none then [.receive .dma pvRxBuf u32Length] else [])

/-- A chunk: whether it results in `LL_OK`, and what is programmed; the polled functions wait for
the unit, and return `wait`. -/
def Chunk.run (wait : Bool) (c : Chunk) : Bool × List Programmed :=
  let place (b : Buffer) : Address := some (b, c.offset)
  let sent := Programmed.transmit .polled (place .send) c.length
  let received := Programmed.receive .polled (place .recv) c.length
  match c.transfer with
  | .dmaTrans tx rx => hc32SpiDmaTrans (place tx) (rx.bind place) c.length
  | .spiTransReceive => (wait, [sent, received])
  | .spiTrans => (wait, [sent])
  | .spiReceive => (wait, [received])

/-- The state of chunk `i`, which does not depend on where it is. -/
def chunkState (wait : Nat → Bool) (flag : UInt8) (message : Message) (i : Nat) : Bool :=
  (Chunk.run (wait i) { transfer := transfer flag message, offset := 0, length := 0 }).1

/-- A whole message: what is programmed for each chunk, and what is returned. -/
def program (wait : Nat → Bool) (flag : UInt8) (message : Message) :
    List (List Programmed) × Nat :=
  let (chunks, length) := hc32SpiXfer (chunkState wait flag message) flag message
  (chunks.map fun c => (c.run true).2, length)

/-- What a bus is built for: `BSP_SPIx_RX_USING_DMA` and `BSP_SPIx_TX_USING_DMA`. -/
structure Using where
  rx : Bool
  tx : Bool

/-- `spi_dma_flag |= mask`, which the field keeps eight bits of. -/
def setFlag (flag : UInt8) (mask : Nat) : UInt8 := UInt8.ofNat (flag.toNat ||| mask)

/-- The flags of a bus after `hc32_get_dma_info`. -/
def hc32GetDmaInfo (u : Using) : UInt8 :=
  let flag := if u.rx then setFlag 0 rtDeviceFlagDmaRx else 0
  if u.tx then setFlag flag rtDeviceFlagDmaTx else flag

/-- The message has a buffer, and the bus is built for DMA in the directions of those it has. -/
def Using.Covers (u : Using) (message : Message) : Prop :=
  (message.sendBuf ∨ message.recvBuf) ∧ (message.sendBuf → u.tx) ∧ (message.recvBuf → u.rx)

instance (u : Using) (message : Message) : Decidable (u.Covers message) :=
  inferInstanceAs (Decidable (_ ∧ _ ∧ _))

/-- What the polled path programs and returns, by the DMA unit where the bus is built for it. -/
def expected (wait : Nat → Bool) (u : Using) (message : Message) : List (List Programmed) × Nat :=
  let polled := program wait 0 message
  if u.Covers message then (polled.1.map (map Programmed.viaDma), polled.2) else polled

variable {wait : Nat → Bool} {flag : UInt8} {message : Message} {u : Using}

/-- No channel is armed, whatever the pointers are. -/
theorem hc32SpiDmaTrans_eq (pvTxBuf pvRxBuf : Address) (u32Length : Nat) :
    hc32SpiDmaTrans pvTxBuf pvRxBuf u32Length = (pvTxBuf.isSome && pvRxBuf.isSome, []) := by
  cases pvTxBuf with
  | none => rfl
  | some tx => cases pvRxBuf <;> rfl

/-- Eight bits have none of the flags. -/
theorem flags_eq_zero (flag : UInt8) : flag.toNat &&& rtDeviceFlagDmaTx = 0 ∧
    flag.toNat &&& rtDeviceFlagDmaRx = 0 := by
  have hall : ∀ n < 256, n &&& rtDeviceFlagDmaTx = 0 ∧ n &&& rtDeviceFlagDmaRx = 0 := by
    decide +kernel
  exact hall flag.toNat flag.toNat_lt

theorem hc32GetDmaInfo_eq_zero (u : Using) : hc32GetDmaInfo u = 0 := by
  obtain ⟨rx, tx⟩ := u
  cases rx <;> cases tx <;> decide

/-- Every chunk is polled, whatever the field holds. -/
theorem transfer_polled (flag : UInt8) (message : Message) :
    transfer flag message = if message.sendBuf && message.recvBuf then .spiTransReceive
      else if message.sendBuf then .spiTrans else .spiReceive := by
  obtain ⟨htx, hrx⟩ := flags_eq_zero flag
  simp [transfer, htx, hrx]

/-- What is polled is programmed from the first chunk on, and not for the DMA unit. -/
theorem program_polled (wait : Nat → Bool) (flag : UInt8) (message : Message)
    (hpos : 0 < message.length) :
    ∃ p ∈ (program wait flag message).1, map Programmed.viaDma p ≠ p := by
  obtain ⟨sent, rest', -, -, -, -, hturn⟩ :=
    xferLoop_turn (chunkState wait flag message) flag message 0 hpos
  unfold program hc32SpiXfer
  rw [hturn]
  refine ⟨_, .head _, ?_⟩
  unfold Chunk.run
  rw [transfer_polled]
  obtain ⟨send, recv, length⟩ := message
  cases send <;> cases recv <;> simp [Programmed.viaDma]

theorem program_short (wait : Nat → Bool) (flag : UInt8) (message : Message)
    (hpos : 0 < message.length) (hshort : message.length ≤ 65535) : program wait flag message =
      let c : Chunk := { transfer := transfer flag message, offset := 0, length := message.length }
      ([(c.run true).2], (message.after (chunkState wait flag message 0)).length) := by
  obtain ⟨sent, rest', hsum, -, -, hwhole, hturn⟩ :=
    xferLoop_turn (chunkState wait flag message) flag message 0 hpos
  obtain rfl : rest' = 0 := by omega
  obtain rfl : sent = message.length := hsum
  unfold program hc32SpiXfer
  rw [hturn, xferLoop_zero, sub_self]
  rfl

/-- Four bytes to be sent while four are received. -/
def fullDuplex : Message := { sendBuf := true, recvBuf := true, length := 4 }

/-- They are polled, though the bus is built for DMA in both directions. -/
theorem program_fullDuplex :
    program (fun _ => true) (hc32GetDmaInfo ⟨true, true⟩) fullDuplex =
        ([[.transmit .polled (some (.send, 0)) 4, .receive .polled (some (.recv, 0)) 4]], 4) ∧
      expected (fun _ => true) ⟨true, true⟩ fullDuplex =
        ([[.transmit .dma (some (.send, 0)) 4, .receive .dma (some (.recv, 0)) 4]], 4) ∧
      program (fun _ => true) (hc32GetDmaInfo ⟨true, true⟩) fullDuplex ≠
        expected (fun _ => true) ⟨true, true⟩ fullDuplex := by
  have hprogram : program (fun _ => true) 0 fullDuplex =
      ([[.transmit .polled (some (.send, 0)) 4, .receive .polled (some (.recv, 0)) 4]], 4) :=
    program_short _ _ _ (by decide) (by decide)
  have hexpected : expected (fun _ => true) ⟨true, true⟩ fullDuplex =
      ([[.transmit .dma (some (.send, 0)) 4, .receive .dma (some (.recv, 0)) 4]], 4) := by
    rw [expected, hprogram]
    rfl
  rw [hc32GetDmaInfo_eq_zero, hprogram, hexpected]
  exact ⟨rfl, rfl, by decide⟩

/-- On a bus that is built for DMA the DMA unit is programmed for what is polled otherwise just where
the bus is not built for it in the directions of the message, or there is nothing to transfer; and
`hc32_spi_dma_trans` would arm no channel, for whatever pointers. -/
theorem program_eq_expected_iff :
    (program wait (hc32GetDmaInfo u) message = expected wait u message ↔
      ¬ u.Covers message ∨ message.length = 0) ∧
    ∀ pvTxBuf pvRxBuf u32Length, (hc32SpiDmaTrans pvTxBuf pvRxBuf u32Length).2 = [] := by
  refine ⟨?_, fun pvTxBuf pvRxBuf u32Length => ?_⟩
  · rw [hc32GetDmaInfo_eq_zero]
    unfold expected
    constructor
    · intro heq
      by_contra hno
      obtain ⟨hcovers, hlength⟩ := not_or.mp hno
      obtain ⟨p, hp, hpolled⟩ := program_polled wait 0 message (Nat.pos_of_ne_zero hlength)
      rw [if_pos (not_not.mp hcovers)] at heq
      have hprogrammed := (congrArg Prod.fst heq).symm.trans (map_id _).symm
      exact hpolled (map_eq_map_iff.mp hprogrammed p hp)
    · rintro (hpolled | hzero)
      · rw [if_neg hpolled]
      · have hnil : program wait 0 message = ([], message.length) := by
          unfold program hc32SpiXfer
          rw [hzero, xferLoop_zero, hzero]
          rfl
        rw [hnil]
        split_ifs <;> rfl
  · rw [hc32SpiDmaTrans_eq]

end RtKernel.SpiXfer

import RtKernel.Core.Fifo
import RtKernel.Core.Ring
import RtKernel.Core.Run

/-!
# The receive buffer of a serial device

Characters are stored by interrupts and taken by threads that read. With interrupt
reception each character is stored by itself; with DMA reception the bytes are in the
buffer when an interrupt reports how many there are. Indices are 16 bits wide.

There is no result where an assertion fails or a copy leaves the buffer.
-/

namespace RtKernel.Serial

/-- `struct rt_serial_rx_fifo`, with the `bufsz` of the device. -/
structure RtSerialRxFifo where
  bufsz : Nat
  buffer : Nat → UInt8
  putIndex : Nat
  getIndex : Nat
  isFull : Bool

/-- What an index holds. -/
def index16 (x : Nat) : Nat := x % 2 ^ 16

/-- A receive buffer as `rt_serial_open` makes it. -/
def rxFifoInit (bufsz : Nat) : RtSerialRxFifo :=
  { bufsz := bufsz, buffer := fun _ => 0, putIndex := 0, getIndex := 0, isFull := false }

namespace RtSerialRxFifo

/-- One character in the loop of `RT_SERIAL_EVENT_RX_IND`. -/
def rxChar (rxFifo : RtSerialRxFifo) (ch : UInt8) : RtSerialRxFifo :=
  let f := { rxFifo with
    buffer := Function.update rxFifo.buffer rxFifo.putIndex ch
    putIndex := index16 (rxFifo.putIndex + 1) }
  let f := if f.putIndex ≥ f.bufsz then { f with putIndex := 0 } else f
  -- if the next position is read index, discard this 'read char'
  if f.putIndex = f.getIndex then
    let f := { f with getIndex := index16 (f.getIndex + 1), isFull := true }
    if f.getIndex ≥ f.bufsz then { f with getIndex := 0 } else f
  else f

/-- The length that `rx_indicate` is called with, where it is not zero. -/
def rxLength (rxFifo : RtSerialRxFifo) : Nat :=
  if rxFifo.putIndex ≥ rxFifo.getIndex then rxFifo.putIndex - rxFifo.getIndex
  else rxFifo.bufsz - (rxFifo.getIndex - rxFifo.putIndex)

/-- `rt_hw_serial_isr` with `RT_SERIAL_EVENT_RX_IND`, where the device has these characters. -/
def rxInd (rxFifo : RtSerialRxFifo) (chars : List UInt8) : RtSerialRxFifo × Nat :=
  let rxFifo := chars.foldl rxChar rxFifo
  (rxFifo, rxFifo.rxLength)

/-- A read clears the flag of a full buffer. -/
def clearFull (rxFifo : RtSerialRxFifo) : RtSerialRxFifo :=
  if rxFifo.isFull = true then { rxFifo with isFull := false } else rxFifo

/-- One turn of `_serial_int_rx`, with the character that is read. -/
def intRx (rxFifo : RtSerialRxFifo) : Option (RtSerialRxFifo × UInt8) :=
  if rxFifo.getIndex = rxFifo.putIndex ∧ rxFifo.isFull = false then none
  else
    let ch := rxFifo.buffer rxFifo.getIndex
    let f := { rxFifo with getIndex := index16 (rxFifo.getIndex + 1) }
    let f := if f.getIndex ≥ f.bufsz then { f with getIndex := 0 } else f
    some (f.clearFull, ch)

/-- `_serial_fifo_calc_recved_len`. -/
def serialFifoCalcRecvedLen (rxFifo : RtSerialRxFifo) : Nat :=
  if rxFifo.putIndex = rxFifo.getIndex then
    if rxFifo.isFull = false then 0 else rxFifo.bufsz
  else if rxFifo.putIndex > rxFifo.getIndex then rxFifo.putIndex - rxFifo.getIndex
  else rxFifo.bufsz - (rxFifo.getIndex - rxFifo.putIndex)

/-- `rt_dma_calc_recved_len`. -/
def rtDmaCalcRecvedLen (rxFifo : RtSerialRxFifo) : Nat := rxFifo.serialFifoCalcRecvedLen

/-- `rt_dma_recv_update_get_index`. -/
def rtDmaRecvUpdateGetIndex (rxFifo : RtSerialRxFifo) (len : Nat) : Option RtSerialRxFifo :=
  if len ≤ rxFifo.rtDmaCalcRecvedLen then
    let f := if rxFifo.isFull = true ∧ len ≠ 0 then { rxFifo with isFull := false } else rxFifo
    let f := { f with getIndex := index16 (f.getIndex + len) }
    some (if f.getIndex ≥ f.bufsz then { f with getIndex := f.getIndex % f.bufsz } else f)
  else none

/-- The last lines of `rt_dma_recv_update_put_index`. -/
def overwriteGetIndex (rxFifo : RtSerialRxFifo) : RtSerialRxFifo :=
  if rxFifo.isFull = true then { rxFifo with getIndex := rxFifo.putIndex } else rxFifo

/-- `rt_dma_recv_update_put_index`. -/
def rtDmaRecvUpdatePutIndex (rxFifo : RtSerialRxFifo) (len : Nat) : RtSerialRxFifo :=
  let f :=
    if rxFifo.getIndex ≤ rxFifo.putIndex then
      let f := { rxFifo with putIndex := index16 (rxFifo.putIndex + len) }
      -- beyond the fifo end
      if f.putIndex ≥ f.bufsz then
        let f := { f with putIndex := f.putIndex % f.bufsz }
        -- force overwrite get index
        if f.putIndex ≥ f.getIndex then { f with isFull := true } else f
      else f
    else
      let f := { rxFifo with putIndex := index16 (rxFifo.putIndex + len) }
      if f.putIndex ≥ f.getIndex then
        -- beyond the fifo end
        let f := if f.putIndex ≥ f.bufsz then { f with putIndex := f.putIndex % f.bufsz } else f
        -- force overwrite get index
        { f with isFull := true }
      else f
  f.overwriteGetIndex

/-- `rt_hw_serial_isr` with `RT_SERIAL_EVENT_RX_DMADONE`, after the DMA has written these bytes;
`rx_indicate` is called with the length. -/
def rxDmadone (rxFifo : RtSerialRxFifo) (bytes : List UInt8) : RtSerialRxFifo × Nat :=
  let f := { rxFifo with buffer := ringStore rxFifo.buffer rxFifo.bufsz rxFifo.putIndex bytes }
  let f := f.rtDmaRecvUpdatePutIndex bytes.length
  (f, f.rtDmaCalcRecvedLen)

/-- `rt_memcpy` of `n` bytes out of the buffer. -/
def copyOut (rxFifo : RtSerialRxFifo) (p n : Nat) : Option (List UInt8) :=
  if p + n ≤ rxFifo.bufsz then some ((List.range' p n).map rxFifo.buffer) else none

/-- A size that is passed as an `int`. -/
def toInt (size : Nat) : Int := if size < 2 ^ 31 then size else (size : Int) - 2 ^ 32

/-- `_serial_dma_rx` of a buffer that is not empty, with the bytes that are copied. -/
def serialDmaRx (rxFifo : RtSerialRxFifo) (size : Nat) : Option (RtSerialRxFifo × List UInt8) :=
  let fifoRecvedLen := rxFifo.rtDmaCalcRecvedLen
  let recvLen := if toInt size < fifoRecvedLen then size else fifoRecvedLen
  let data :=
    if rxFifo.getIndex + recvLen < rxFifo.bufsz then rxFifo.copyOut rxFifo.getIndex recvLen
    else
      (rxFifo.copyOut rxFifo.getIndex (rxFifo.bufsz - rxFifo.getIndex)).bind fun data =>
        (rxFifo.copyOut 0 (recvLen + rxFifo.getIndex - rxFifo.bufsz)).map fun rest => data ++ rest
  data.bind fun data => (rxFifo.rtDmaRecvUpdateGetIndex recvLen).map fun rxFifo => (rxFifo, data)

end RtSerialRxFifo

end RtKernel.Serial

import Mathlib.Data.UInt

/-!
# Packets of YMODEM

A packet is a code, a number and its complement, a payload and a checksum over the payload. The
payloads that send a file are its name with its size, its contents in blocks that are filled up
to their length, and a block of zeros at the end.
-/

open List

namespace RtKernel.Ymodem

def rymCodeSoh : UInt8 := 0x01

def rymCodeStx : UInt8 := 0x02

def rymCodeEot : UInt8 := 0x04

def rymCodeAck : UInt8 := 0x06

def rymCodeNak : UInt8 := 0x15

def rymCodeC : UInt8 := 0x43

/-- One turn of the inner loop of `CRC16`. -/
def crcBit (crc : UInt16) : UInt16 :=
  if crc &&& 0x8000 ≠ 0 then crc <<< 1 ^^^ 0x1021 else crc <<< 1

def crcByte (crc : UInt16) (q : UInt8) : UInt16 :=
  crcBit (crcBit (crcBit (crcBit (crcBit (crcBit (crcBit (crcBit (crc ^^^ q.toUInt16 <<< 8))))))))

def crc16 (q : List UInt8) : UInt16 := q.foldl crcByte 0

/-- What `_rym_send_packet` writes. -/
def packet (code index : UInt8) (payload : List UInt8) : List UInt8 :=
  code :: index :: ~~~index :: payload ++
    [(crc16 payload >>> 8).toUInt8, (crc16 payload).toUInt8]

/-! ## What comes behind a code

A receiver has the number of a packet at the first place of what it reads then. -/

/-- The sum that the number and its complement make. -/
def seqSum (data : List UInt8) : Nat := (data.getD 0 0).toNat + (data.getD 1 0).toNat

def payload (data : List UInt8) (size : Nat) : List UInt8 := (data.drop 2).take size

/-- `recv_crc`, behind a payload. -/
def recvCrc (data : List UInt8) (size : Nat) : UInt16 :=
  (data.getD (size + 2) 0).toUInt16 <<< 8 ||| (data.getD (size + 3) 0).toUInt16

theorem crc_bytes (crc : UInt16) :
    (crc >>> 8).toUInt8.toUInt16 <<< 8 ||| crc.toUInt8.toUInt16 = crc := by
  apply UInt16.toNat_inj.mp
  apply Nat.eq_of_testBit_eq
  intro i
  have hbyte : ∀ n j, (n % 256).testBit j = (decide (j < 8) && n.testBit j) := fun n j =>
    Nat.testBit_mod_two_pow n 8 j
  have hword : ∀ n j, (n % 65536).testBit j = (decide (j < 16) && n.testBit j) := fun n j =>
    Nat.testBit_mod_two_pow n 16 j
  simp only [UInt16.toNat_or, UInt16.toNat_shiftLeft, UInt8.toNat_toUInt16, UInt16.toNat_toUInt8,
    UInt16.toNat_shiftRight, UInt16.reduceToNat, Nat.testBit_or, Nat.reduceMod, Nat.reducePow,
    hbyte, hword, Nat.testBit_shiftLeft, Nat.testBit_shiftRight]
  by_cases hlow : i < 8
  · have hnot : ¬ 8 ≤ i := by omega
    simp [hlow, hnot]
  · by_cases hhigh : i < 16
    · have hle : 8 ≤ i := by omega
      have hsub : i - 8 < 8 := by omega
      simp [hlow, hhigh, hle, hsub, Nat.add_sub_cancel' hle]
    · have hzero : crc.toNat.testBit i = false :=
        Nat.testBit_lt_two_pow (crc.toNat_lt.trans_le (Nat.pow_le_pow_right (by decide) (by omega)))
      simp [hlow, hhigh, hzero]

section

variable {code index : UInt8} {block : List UInt8} {size : Nat}

section

variable (h : block.length = size)
include h

theorem length_packet : (packet code index block).length = size + 5 := by
  simp [packet, h]

theorem payload_packet : payload (packet code index block).tail size = block := by
  simp [payload, packet, ← h]

theorem recvCrc_packet : recvCrc (packet code index block).tail size = crc16 block := by
  have htail : (packet code index block).tail = [index, ~~~index] ++ (block ++
      [(crc16 block >>> 8).toUInt8, (crc16 block).toUInt8]) := rfl
  have hhigh : size + 2 - 2 - size = 0 := by omega
  have hlow : size + 3 - 2 - size = 1 := by omega
  unfold recvCrc
  rw [htail]
  simp only [getD_eq_getElem?_getD]
  rw [List.getElem?_append_right (by simp), List.getElem?_append_right (by simp [h]),
    List.getElem?_append_right (by simp), List.getElem?_append_right (by simp [h])]
  simp only [length_cons, length_nil, h, Nat.zero_add, Nat.reduceAdd, hhigh, hlow,
    List.getElem?_cons_zero, List.getElem?_cons_succ, Option.getD_some, crc_bytes]

end

theorem seqSum_packet : seqSum (packet code index block).tail = 0xff := by
  have hlt := index.toNat_lt
  change index.toNat + (~~~index).toNat = 0xff
  rw [UInt8.toNat_not]
  simp only [UInt8.size]
  omega

end

/-- `_rym_send_begin`: the name of a file, and its size in decimals. -/
def beginBlock (name : List UInt8) (size : Nat) : List UInt8 :=
  (name ++ 0 :: (Nat.toDigits 10 size).map (fun c : Char => c.toNat.toUInt8) ++
    List.replicate 128 0).take 128

/-- A block that is read off a file is filled up with this. -/
def pad (l : List UInt8) : List UInt8 := l ++ List.replicate (128 - l.length) 0x1a

/-- `_rym_send_data`, with what is left of the file, and whether it was the last block. -/
def sendData (file : List UInt8) : List UInt8 × List UInt8 × Bool :=
  (pad (file.take 128), file.drop 128, file.length < 128)

/-- The blocks of a file, of which the last is never full. -/
def blocks (file : List UInt8) : List (List UInt8) :=
  (List.range (file.length / 128 + 1)).map fun k => pad ((file.drop (128 * k)).take 128)

def zeroBlock : List UInt8 := List.replicate 128 0

@[simp] theorem length_beginBlock {name : List UInt8} {size : Nat} :
    (beginBlock name size).length = 128 := by
  simp [beginBlock]
  omega

theorem length_pad {l : List UInt8} (h : l.length ≤ 128) : (pad l).length = 128 := by
  simp [pad]
  omega

@[simp] theorem length_zeroBlock : zeroBlock.length = 128 := length_replicate ..

theorem length_blocks (file : List UInt8) : (blocks file).length = file.length / 128 + 1 := by
  simp [blocks]

/-- Reading a file block by block gives its blocks. -/
theorem sendData_drop (file : List UInt8) {k : Nat} (h : k < (blocks file).length) :
    sendData (file.drop (128 * k)) = ((blocks file)[k], file.drop (128 * (k + 1)),
      decide (k + 1 = (blocks file).length)) := by
  rw [length_blocks] at h
  have hlast : (file.drop (128 * k)).length < 128 ↔ k + 1 = file.length / 128 + 1 := by
    rw [length_drop]
    omega
  simp only [sendData, blocks, getElem_map, getElem_range, drop_drop, hlast,
    length_map, length_range, Nat.mul_succ]

theorem length_block {file b : List UInt8} (h : b ∈ blocks file) : b.length = 128 := by
  obtain ⟨k, -, rfl⟩ := mem_map.mp h
  exact length_pad (length_take_le _ _)

end RtKernel.Ymodem

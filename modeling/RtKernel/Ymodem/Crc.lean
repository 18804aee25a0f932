import RtKernel.Core.ShiftRegister
import RtKernel.Ymodem.Packet

/-!
# The checksum from a table

With `YMODEM_USING_CRC_TABLE` a byte goes into the checksum at once. The table holds what the eight
steps make of the high byte, and the low byte only moves up.
-/

namespace RtKernel.Ymodem

open ShiftRegister

set_option maxRecDepth 2000 in
/-- `ccitt_table`. -/
def ccittTable : Vector UInt16 256 := #v[
    0x0000, 0x1021, 0x2042, 0x3063, 0x4084, 0x50A5, 0x60C6, 0x70E7,
    0x8108, 0x9129, 0xA14A, 0xB16B, 0xC18C, 0xD1AD, 0xE1CE, 0xF1EF,
    0x1231, 0x0210, 0x3273, 0x2252, 0x52B5, 0x4294, 0x72F7, 0x62D6,
    0x9339, 0x8318, 0xB37B, 0xA35A, 0xD3BD, 0xC39C, 0xF3FF, 0xE3DE,
    0x2462, 0x3443, 0x0420, 0x1401, 0x64E6, 0x74C7, 0x44A4, 0x5485,
    0xA56A, 0xB54B, 0x8528, 0x9509, 0xE5EE, 0xF5CF, 0xC5AC, 0xD58D,
    0x3653, 0x2672, 0x1611, 0x0630, 0x76D7, 0x66F6, 0x5695, 0x46B4,
    0xB75B, 0xA77A, 0x9719, 0x8738, 0xF7DF, 0xE7FE, 0xD79D, 0xC7BC,
    0x48C4, 0x58E5, 0x6886, 0x78A7, 0x0840, 0x1861, 0x2802, 0x3823,
    0xC9CC, 0xD9ED, 0xE98E, 0xF9AF, 0x8948, 0x9969, 0xA90A, 0xB92B,
    0x5AF5, 0x4AD4, 0x7AB7, 0x6A96, 0x1A71, 0x0A50, 0x3A33, 0x2A12,
    0xDBFD, 0xCBDC, 0xFBBF, 0xEB9E, 0x9B79, 0x8B58, 0xBB3B, 0xAB1A,
    0x6CA6, 0x7C87, 0x4CE4, 0x5CC5, 0x2C22, 0x3C03, 0x0C60, 0x1C41,
    0xEDAE, 0xFD8F, 0xCDEC, 0xDDCD, 0xAD2A, 0xBD0B, 0x8D68, 0x9D49,
    0x7E97, 0x6EB6, 0x5ED5, 0x4EF4, 0x3E13, 0x2E32, 0x1E51, 0x0E70,
    0xFF9F, 0xEFBE, 0xDFDD, 0xCFFC, 0xBF1B, 0xAF3A, 0x9F59, 0x8F78,
    0x9188, 0x81A9, 0xB1CA, 0xA1EB, 0xD10C, 0xC12D, 0xF14E, 0xE16F,
    0x1080, 0x00A1, 0x30C2, 0x20E3, 0x5004, 0x4025, 0x7046, 0x6067,
    0x83B9, 0x9398, 0xA3FB, 0xB3DA, 0xC33D, 0xD31C, 0xE37F, 0xF35E,
    0x02B1, 0x1290, 0x22F3, 0x32D2, 0x4235, 0x5214, 0x6277, 0x7256,
    0xB5EA, 0xA5CB, 0x95A8, 0x8589, 0xF56E, 0xE54F, 0xD52C, 0xC50D,
    0x34E2, 0x24C3, 0x14A0, 0x0481, 0x7466, 0x6447, 0x5424, 0x4405,
    0xA7DB, 0xB7FA, 0x8799, 0x97B8, 0xE75F, 0xF77E, 0xC71D, 0xD73C,
    0x26D3, 0x36F2, 0x0691, 0x16B0, 0x6657, 0x7676, 0x4615, 0x5634,
    0xD94C, 0xC96D, 0xF90E, 0xE92F, 0x99C8, 0x89E9, 0xB98A, 0xA9AB,
    0x5844, 0x4865, 0x7806, 0x6827, 0x18C0, 0x08E1, 0x3882, 0x28A3,
    0xCB7D, 0xDB5C, 0xEB3F, 0xFB1E, 0x8BF9, 0x9BD8, 0xABBB, 0xBB9A,
    0x4A75, 0x5A54, 0x6A37, 0x7A16, 0x0AF1, 0x1AD0, 0x2AB3, 0x3A92,
    0xFD2E, 0xED0F, 0xDD6C, 0xCD4D, 0xBDAA, 0xAD8B, 0x9DE8, 0x8DC9,
    0x7C26, 0x6C07, 0x5C64, 0x4C45, 0x3CA2, 0x2C83, 0x1CE0, 0x0CC1,
    0xEF1F, 0xFF3E, 0xCF5D, 0xDF7C, 0xAF9B, 0xBFBA, 0x8FD9, 0x9FF8,
    0x6E17, 0x7E36, 0x4E55, 0x5E74, 0x2E93, 0x3EB2, 0x0ED1, 0x1EF0]

theorem and_ff_lt (x : UInt16) : (x &&& 0xff).toNat < 256 := by
  exact Nat.lt_of_le_of_lt Nat.and_le_right (by decide)

/-- Where the table is read for a byte. -/
def tableIndex (crc : UInt16) (q : UInt8) : Fin 256 :=
  ⟨((crc >>> 8 ^^^ q.toUInt16) &&& 0xff).toNat, and_ff_lt _⟩

/-- One turn of the loop of `CRC16`. -/
def tableByte (crc : UInt16) (q : UInt8) : UInt16 := crc <<< 8 ^^^ ccittTable.get (tableIndex crc q)

/-- `CRC16` with the table. -/
def tableCrc16 (q : List UInt8) : UInt16 := q.foldl tableByte 0

theorem toBitVec_crcBit (crc : UInt16) : (crcBit crc).toBitVec = step 0x1021 crc.toBitVec := by
  have hand : (crc &&& 0x8000).toBitVec = if crc.toBitVec.msb then 0x8000 else 0 :=
    BitVec.and_twoPow crc.toBitVec 15
  unfold crcBit step
  by_cases hmsb : crc.toBitVec.msb = true
  · rw [if_pos hmsb] at hand ⊢
    rw [if_pos]
    · rfl
    · intro hzero
      rw [hzero] at hand
      cases hand
  · rw [if_neg hmsb] at hand ⊢
    rw [if_neg]
    · rfl
    · exact not_not.mpr (UInt16.toBitVec_inj.mp hand)

theorem toBitVec_crcByte (crc : UInt16) (q : UInt8) :
    (crcByte crc q).toBitVec = (step 0x1021)^[8] (crc ^^^ q.toUInt16 <<< 8).toBitVec := by
  unfold crcByte
  simp only [toBitVec_crcBit]
  rfl

theorem toBitVec_ccittTable (i : Fin 256) :
    (ccittTable.get i).toBitVec = (step 0x1021)^[8] (BitVec.ofNat 16 i <<< 8) := by
  have hall : ∀ i : Fin 256,
      (ccittTable.get i).toBitVec = (step 0x1021)^[8] (BitVec.ofNat 16 i <<< 8) := by
    decide +kernel
  exact hall i

theorem toNat_shiftLeft_eight (x : UInt16) : (x <<< 8).toNat = x.toNat * 256 % 65536 := by
  simp only [UInt16.toNat_shiftLeft, UInt16.reduceToNat, Nat.reduceMod, Nat.reducePow,
    Nat.shiftLeft_eq]

theorem toNat_shiftRight_eight (x : UInt16) : (x >>> 8).toNat = x.toNat / 256 := by
  simp only [UInt16.toNat_shiftRight, UInt16.reduceToNat, Nat.reduceMod, Nat.reducePow,
    Nat.shiftRight_eq_div_pow]

section

variable (crc : UInt16)
include crc

section

variable (q : UInt8)
include q

theorem shiftLeft_addByte : (crc ^^^ q.toUInt16 <<< 8) <<< 8 = crc <<< 8 := by
  have hout : q.toUInt16 <<< 8 <<< 8 = 0 := by
    apply UInt16.toNat_inj.mp
    rw [toNat_shiftLeft_eight, toNat_shiftLeft_eight, UInt16.toNat_zero]
    omega
  rw [UInt16.shiftLeft_xor, hout, UInt16.xor_zero]

theorem shiftRight_addByte : (crc ^^^ q.toUInt16 <<< 8) >>> 8 = crc >>> 8 ^^^ q.toUInt16 := by
  have hdown : q.toUInt16 <<< 8 >>> 8 = q.toUInt16 := by
    have hlt := q.toNat_lt
    apply UInt16.toNat_inj.mp
    rw [toNat_shiftRight_eight, toNat_shiftLeft_eight, UInt8.toNat_toUInt16]
    omega
  rw [UInt16.shiftRight_xor, hdown]

/-- The mask changes nothing: the checksum has two bytes. -/
theorem index_and : (crc >>> 8 ^^^ q.toUInt16) &&& (0xff : UInt16) = crc >>> 8 ^^^ q.toUInt16 := by
  have hcrc := crc.toNat_lt
  have hlt : (crc >>> 8 ^^^ q.toUInt16).toNat < 2 ^ 8 := by
    rw [UInt16.toNat_xor]
    apply Nat.xor_lt_two_pow
    · rw [toNat_shiftRight_eight]
      omega
    · exact q.toNat_lt
  apply UInt16.toNat_inj.mp
  exact (Nat.and_two_pow_sub_one_eq_mod _ 8).trans (Nat.mod_eq_of_lt hlt)

theorem ofNat_tableIndex :
    BitVec.ofNat 16 (tableIndex crc q) = (crc >>> 8 ^^^ q.toUInt16).toBitVec := by
  have hval : (tableIndex crc q : Nat) = (crc >>> 8 ^^^ q.toUInt16).toNat :=
    congrArg UInt16.toNat (index_and crc q)
  rw [hval, BitVec.ofNat_uInt16ToNat]

theorem tableByte_eq : tableByte crc q = crcByte crc q := by
  have hsplit := iterate_step_split 0x1021 (show 8 ≤ 16 by decide)
    (crc ^^^ q.toUInt16 <<< 8).toBitVec
  have hlow : (crc ^^^ q.toUInt16 <<< 8).toBitVec <<< 8 = (crc <<< 8).toBitVec :=
    congrArg UInt16.toBitVec (shiftLeft_addByte crc q)
  have hhigh : (crc ^^^ q.toUInt16 <<< 8).toBitVec >>> 8 = (crc >>> 8 ^^^ q.toUInt16).toBitVec :=
    congrArg UInt16.toBitVec (shiftRight_addByte crc q)
  have hentry := toBitVec_ccittTable (tableIndex crc q)
  rw [ofNat_tableIndex] at hentry
  apply UInt16.toBitVec_inj.mp
  rw [toBitVec_crcByte, hsplit, hlow, hhigh, ← hentry, ← UInt16.toBitVec_xor]
  rfl

end

end

theorem ccittTable_zero : ccittTable.get 0 = 0 := rfl

/-- A byte that is the high one of the checksum takes it out. -/
theorem tableByte_self {crc : UInt16} {q : UInt8} (h : crc >>> 8 = q.toUInt16) :
    tableByte crc q = crc <<< 8 := by
  have hzero : tableIndex crc q = 0 := by
    unfold tableIndex
    apply Fin.ext
    dsimp only
    rw [h, UInt16.xor_self]
    rfl
  unfold tableByte
  rw [hzero, ccittTable_zero, UInt16.xor_zero]

theorem tableByte_high (crc : UInt16) : tableByte crc (crc >>> 8).toUInt8 = crc <<< 8 := by
  have hcrc := crc.toNat_lt
  apply tableByte_self
  apply UInt16.toNat_inj.mp
  rw [UInt8.toNat_toUInt16, UInt16.toNat_toUInt8, toNat_shiftRight_eight]
  omega

theorem tableByte_low (crc : UInt16) : tableByte (crc <<< 8) crc.toUInt8 = 0 := by
  have hself : crc <<< 8 >>> 8 = crc.toUInt8.toUInt16 := by
    apply UInt16.toNat_inj.mp
    rw [toNat_shiftRight_eight, toNat_shiftLeft_eight, UInt8.toNat_toUInt16, UInt16.toNat_toUInt8]
    omega
  rw [tableByte_self hself]
  apply UInt16.toNat_inj.mp
  rw [toNat_shiftLeft_eight, toNat_shiftLeft_eight, UInt16.toNat_zero]
  omega

/-- Both variants of `CRC16` agree, and a string is followed by what makes its checksum zero. -/
theorem tableCrc16_agrees (q : List UInt8) : tableCrc16 q = crc16 q ∧
    crc16 (q ++ [(crc16 q >>> 8).toUInt8, (crc16 q).toUInt8]) = 0 := by
  have hbyte : tableByte = crcByte := funext fun crc => funext fun q => tableByte_eq crc q
  refine ⟨congrArg (fun f => q.foldl f 0) hbyte, ?_⟩
  unfold crc16
  rw [List.foldl_append, ← hbyte, List.foldl_cons, tableByte_high, List.foldl_cons, tableByte_low]
  rfl

end RtKernel.Ymodem

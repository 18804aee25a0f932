import Mathlib.Data.UInt
import RtKernel.Core.Blocks

/-!
# Filling and copying memory

`rt_memset`, `rt_memcpy` and `rt_memmove`, with the variants of `RT_KSERVICE_USING_TINY_SIZE`. Words
have four bytes. Blocks do not go beyond the end of the address space, and a count is an `int`.
-/

namespace RtKernel.Kservice

/-- `buffer`: a word of equal bytes. -/
def fillWord (d : UInt32) : UInt32 :=
  let buffer := d <<< 8 ||| d
  buffer ||| buffer <<< 16

/-- `while (count >= LBLOCKSIZE * 4)`. -/
def setBlocks (buffer : Nat) (mem : Nat → UInt8) (addr count : Nat) : (Nat → UInt8) × Nat × Nat :=
  if 16 ≤ count then
    let mem := store32 mem addr buffer
    let mem := store32 mem (addr + 4) buffer
    let mem := store32 mem (addr + 8) buffer
    let mem := store32 mem (addr + 12) buffer
    setBlocks buffer mem (addr + 16) (count - 16)
  else (mem, addr, count)
termination_by count

/-- `while (count >= LBLOCKSIZE)`. -/
def setWords (buffer : Nat) (mem : Nat → UInt8) (addr count : Nat) : (Nat → UInt8) × Nat × Nat :=
  if 4 ≤ count then setWords buffer (store32 mem addr buffer) (addr + 4) (count - 4)
  else (mem, addr, count)
termination_by count

/-- `while (count--)`. -/
def setBytes (d : UInt8) (mem : Nat → UInt8) (m : Nat) : Nat → Nat → UInt8
  | 0 => mem
  | count + 1 => setBytes d (store8 mem m d) (m + 1) count

def rtMemset (mem : Nat → UInt8) (s : Nat) (c : Int) (count : Nat) : Nat → UInt8 :=
  let d := UInt8.ofNat (c % 256).toNat
  if 4 ≤ count ∧ s % 4 = 0 then
    let buffer := (fillWord d.toUInt32).toNat
    let (mem, addr, count) := setBlocks buffer mem s count
    let (mem, addr, count) := setWords buffer mem addr count
    setBytes d mem addr count
  else setBytes d mem s count

/-- `while (len >= BIGBLOCKSIZE)`. -/
def copyBlocks (mem : Nat → UInt8) (dst src len : Nat) : (Nat → UInt8) × Nat × Nat × Nat :=
  if 16 ≤ len then
    let mem := store32 mem dst (load32 mem src)
    let mem := store32 mem (dst + 4) (load32 mem (src + 4))
    let mem := store32 mem (dst + 8) (load32 mem (src + 8))
    let mem := store32 mem (dst + 12) (load32 mem (src + 12))
    copyBlocks mem (dst + 16) (src + 16) (len - 16)
  else (mem, dst, src, len)
termination_by len

/-- `while (len >= LITTLEBLOCKSIZE)`. -/
def copyWords (mem : Nat → UInt8) (dst src len : Nat) : (Nat → UInt8) × Nat × Nat × Nat :=
  if 4 ≤ len then copyWords (store32 mem dst (load32 mem src)) (dst + 4) (src + 4) (len - 4)
  else (mem, dst, src, len)
termination_by len

/-- `*dst_ptr++ = *src_ptr++`, some times. -/
def copyUp (mem : Nat → UInt8) (dst src : Nat) : Nat → Nat → UInt8
  | 0 => mem
  | len + 1 => copyUp (store8 mem dst (mem src)) (dst + 1) (src + 1) len

/-- `*(--tmp) = *(--s)`, some times, from the ends of both blocks. -/
def copyDown (mem : Nat → UInt8) (dst src : Nat) : Nat → Nat → UInt8
  | 0 => mem
  | len + 1 => copyDown (store8 mem (dst + len) (mem (src + len))) dst src len

def rtMemcpy (mem : Nat → UInt8) (dst src count : Nat) : Nat → UInt8 :=
  if 16 ≤ count ∧ src % 4 ||| dst % 4 = 0 then
    let (mem, dst, src, len) := copyBlocks mem dst src count
    let (mem, dst, src, len) := copyWords mem dst src len
    copyUp mem dst src len
  else copyUp mem dst src count

def rtMemmove (mem : Nat → UInt8) (dest src n : Nat) : Nat → UInt8 :=
  if src < dest ∧ dest < src + n then copyDown mem dest src n else copyUp mem dest src n

namespace Tiny

/-- `rt_memset` where `RT_KSERVICE_USING_TINY_SIZE` is defined. -/
def rtMemset (mem : Nat → UInt8) (s : Nat) (c : Int) (count : Nat) : Nat → UInt8 :=
  setBytes (.ofNat (c % 256).toNat) mem s count

/-- `rt_memcpy` where `RT_KSERVICE_USING_TINY_SIZE` is defined. -/
def rtMemcpy (mem : Nat → UInt8) (dst src count : Nat) : Nat → UInt8 :=
  if dst ≤ src ∨ dst > src + count then copyUp mem dst src count else copyDown mem dst src count

end Tiny

section

variable {mem : Nat → UInt8} {dst src n : Nat} {d : UInt8} {buffer : Nat}

theorem fillWord_eq (d : UInt8) : (fillWord d.toUInt32).toNat = d.toNat * 0x01010101 := by
  have hall : ∀ n < 256, (fillWord (UInt8.ofNat n).toUInt32).toNat = n * 0x01010101 := by
    decide +kernel
  have hd := hall d.toNat d.toNat_lt
  rwa [UInt8.ofNat_toNat] at hd

theorem setBytes_eq : setBytes d mem dst n = filled mem dst n d := by
  induction n generalizing mem dst with
  | zero => exact (filled_zero mem dst d).symm
  | succ n ih => rw [setBytes, ih, store8_filled, filled_append, Nat.add_comm]

/-- A loop has filled the `k` bytes that it has gone on. -/
def Fills (mem : Nat → UInt8) (dst n : Nat) (d : UInt8) (r : (Nat → UInt8) × Nat × Nat) : Prop :=
  ∃ k ≤ n, r = (filled mem dst k d, dst + k, n - k)

theorem Fills.turn {r : (Nat → UInt8) × Nat × Nat} {m : Nat} (hm : m ≤ n)
    (h : Fills (filled mem dst m d) (dst + m) (n - m) d r) : Fills mem dst n d r := by
  obtain ⟨k, hk, rfl⟩ := h
  refine ⟨m + k, by omega, ?_⟩
  rw [filled_append, Nat.add_assoc, Nat.sub_sub]

theorem setBlocks_fills (mem : Nat → UInt8) (dst n : Nat)
    (hbuffer : buffer = d.toNat * 0x01010101) : Fills mem dst n d (setBlocks buffer mem dst n) := by
  induction n using Nat.strong_induction_on generalizing mem dst with
  | h n ih =>
    rw [setBlocks]
    split_ifs with hless
    · have hblock : filled mem dst 16 d = store32 (store32 (store32 (store32 mem dst buffer)
          (dst + 4) buffer) (dst + 8) buffer) (dst + 12) buffer := by
        have htwo : filled (filled mem dst 4 d) (dst + 4) 4 d = filled mem dst 8 d :=
          filled_append ..
        have hthree : filled (filled mem dst 8 d) (dst + 8) 4 d = filled mem dst 12 d :=
          filled_append ..
        have hfour : filled (filled mem dst 12 d) (dst + 12) 4 d = filled mem dst 16 d :=
          filled_append ..
        rw [hbuffer, store32_filled, store32_filled, store32_filled, store32_filled, htwo, hthree,
          hfour]
      apply Fills.turn hless
      rw [hblock]
      exact ih (n - 16) (by omega) _ _
    · exact ⟨0, Nat.zero_le n, by rw [filled_zero]; rfl⟩

theorem setWords_fills (mem : Nat → UInt8) (dst n : Nat)
    (hbuffer : buffer = d.toNat * 0x01010101) : Fills mem dst n d (setWords buffer mem dst n) := by
  induction n using Nat.strong_induction_on generalizing mem dst with
  | h n ih =>
    rw [setWords]
    split_ifs with hless
    · apply Fills.turn hless
      rw [hbuffer, store32_filled, ← hbuffer]
      exact ih (n - 4) (by omega) _ _
    · exact ⟨0, Nat.zero_le n, by rw [filled_zero]; rfl⟩

/-- The words and the bytes behind them make one block. -/
theorem rtMemset_eq (c : Int) :
    rtMemset mem dst c n = filled mem dst n (.ofNat (c % 256).toNat) := by
  have hbuffer := fillWord_eq (.ofNat (c % 256).toNat)
  unfold rtMemset
  dsimp only
  split_ifs
  · obtain ⟨k, hk, hblocks⟩ := setBlocks_fills mem dst n hbuffer
    rw [hblocks]
    obtain ⟨l, hl, hwords⟩ := setWords_fills (filled mem dst k (.ofNat (c % 256).toNat)) (dst + k)
      (n - k) hbuffer
    rw [hwords]
    dsimp only
    rw [setBytes_eq, filled_append, filled_append]
    congr 1
    omega
  · exact setBytes_eq

end

section

variable {mem : Nat → UInt8} {dst src n : Nat}

theorem copyUp_eq (h : dst ≤ src ∨ src + n ≤ dst) :
    copyUp mem dst src n = copied mem dst src n := by
  induction n generalizing mem dst src with
  | zero => exact (copied_zero mem dst src).symm
  | succ n ih =>
    have happend := copied_append mem dst src 1 n (by omega)
    rw [copyUp, ih (by omega), store8_copied, happend, Nat.add_comm]

theorem copyDown_eq (h : src ≤ dst ∨ dst + n ≤ src) :
    copyDown mem dst src n = copied mem dst src n := by
  induction n generalizing mem with
  | zero => exact (copied_zero mem dst src).symm
  | succ n ih => rw [copyDown, ih (by omega), store8_copied, copied_append_last mem dst src n h]

/-- A loop has copied the `k` bytes that it has gone on. -/
def Copies (mem : Nat → UInt8) (dst src n : Nat) (r : (Nat → UInt8) × Nat × Nat × Nat) : Prop :=
  ∃ k ≤ n, r = (copied mem dst src k, dst + k, src + k, n - k)

variable {r : (Nat → UInt8) × Nat × Nat × Nat} {m : Nat} {mem' : Nat → UInt8}

theorem Copies.turn (hm : m ≤ n) (hapart : dst ≤ src ∨ src + n ≤ dst)
    (h : Copies (copied mem dst src m) (dst + m) (src + m) (n - m) r) : Copies mem dst src n r := by
  obtain ⟨k, hk, rfl⟩ := h
  refine ⟨m + k, by omega, ?_⟩
  rw [copied_append mem dst src m k (by omega), Nat.add_assoc, Nat.add_assoc, Nat.sub_sub]

theorem copyBlocks_copies (mem : Nat → UInt8) (hapart : dst ≤ src ∨ src + n ≤ dst) :
    Copies mem dst src n (copyBlocks mem dst src n) := by
  induction n using Nat.strong_induction_on generalizing mem dst src with
  | h n ih =>
    rw [copyBlocks]
    split_ifs with hless
    · have htwo : copied (copied mem dst src 4) (dst + 4) (src + 4) 4 = copied mem dst src 8 :=
        copied_append mem dst src 4 4 (by omega)
      have hthree : copied (copied mem dst src 8) (dst + 8) (src + 8) 4 = copied mem dst src 12 :=
        copied_append mem dst src 8 4 (by omega)
      have hfour : copied (copied mem dst src 12) (dst + 12) (src + 12) 4 = copied mem dst src 16 :=
        copied_append mem dst src 12 4 (by omega)
      apply Copies.turn hless hapart
      dsimp only
      rw [store32_copied mem, store32_copied (copied mem dst src 4), htwo,
        store32_copied (copied mem dst src 8), hthree, store32_copied (copied mem dst src 12),
        hfour]
      exact ih (n - 16) (by omega) _ (by omega)
    · exact ⟨0, Nat.zero_le n, by rw [copied_zero]; rfl⟩

theorem copyWords_copies (mem : Nat → UInt8) (hapart : dst ≤ src ∨ src + n ≤ dst) :
    Copies mem dst src n (copyWords mem dst src n) := by
  induction n using Nat.strong_induction_on generalizing mem dst src with
  | h n ih =>
    rw [copyWords]
    split_ifs with hless
    · apply Copies.turn hless hapart
      rw [store32_copied]
      exact ih (n - 4) (by omega) _ (by omega)
    · exact ⟨0, Nat.zero_le n, by rw [copied_zero]; rfl⟩

/-- The words and the bytes behind them make one block. -/
theorem rtMemcpy_eq (hapart : dst ≤ src ∨ src + n ≤ dst) :
    rtMemcpy mem dst src n = copied mem dst src n := by
  unfold rtMemcpy
  split_ifs
  · obtain ⟨k, hk, hblocks⟩ := copyBlocks_copies mem hapart
    rw [hblocks]
    dsimp only
    obtain ⟨l, hl, hwords⟩ := copyWords_copies (copied mem dst src k)
      (show dst + k ≤ src + k ∨ src + k + (n - k) ≤ dst + k by omega)
    rw [hwords]
    dsimp only
    rw [copyUp_eq (by omega), copied_append _ _ _ _ _ (by omega),
      copied_append _ _ _ _ _ (by omega)]
    congr 1
    omega
  · exact copyUp_eq hapart

theorem rtMemmove_eq : rtMemmove mem dst src n = copied mem dst src n := by
  unfold rtMemmove
  split_ifs
  · exact copyDown_eq (by omega)
  · exact copyUp_eq (by omega)

theorem Tiny.rtMemcpy_eq : Tiny.rtMemcpy mem dst src n = copied mem dst src n := by
  unfold Tiny.rtMemcpy
  split_ifs
  · exact copyUp_eq (by omega)
  · exact copyDown_eq (by omega)

/-- Both memories agree outside a block. -/
def Outside (mem mem' : Nat → UInt8) (dst n : Nat) : Prop :=
  ∀ a, a < dst ∨ dst + n ≤ a → mem' a = mem a

theorem Outside.append {mem' mem'' : Nat → UInt8} (h : Outside mem mem' dst m)
    (h' : Outside mem' mem'' (dst + m) n) : Outside mem mem'' dst (m + n) := fun a ha =>
  (h' a (by omega)).trans (h a (by omega))

theorem outside_store8 (v : UInt8) : Outside mem (store8 mem dst v) dst 1 := fun a ha =>
  if_neg (by omega)

theorem outside_store32 (v : Nat) : Outside mem (store32 mem dst v) dst 4 := by
  intro a ha
  unfold store32
  rw [if_neg (by omega), if_neg (by omega), if_neg (by omega), if_neg (by omega)]

theorem outside_filled (d : UInt8) : Outside mem (filled mem dst n d) dst n := fun a ha =>
  if_neg (by omega)

theorem outside_copied : Outside mem (copied mem dst src n) dst n := fun a ha => if_neg (by omega)

theorem outside_copyUp (mem : Nat → UInt8) (dst src n : Nat) :
    Outside mem (copyUp mem dst src n) dst n := by
  induction n generalizing mem dst src with
  | zero => exact fun _ _ => rfl
  | succ n ih =>
    have hbyte := (outside_store8 (mem src)).append
      (ih (store8 mem dst (mem src)) (dst + 1) (src + 1))
    exact fun a ha => hbyte a (by omega)

/-- What a loop of `rt_memcpy` has written, wherever the source is. -/
def Stays (mem : Nat → UInt8) (dst n : Nat) (r : (Nat → UInt8) × Nat × Nat × Nat) : Prop :=
  ∃ k ≤ n, r.2.1 = dst + k ∧ r.2.2.2 = n - k ∧ Outside mem r.1 dst k

theorem Stays.turn (hm : m ≤ n)
    (hturn : Outside mem mem' dst m) (h : Stays mem' (dst + m) (n - m) r) : Stays mem dst n r := by
  obtain ⟨k, hk, hdst, hlen, hout⟩ := h
  exact ⟨m + k, by omega, by omega, by omega, hturn.append hout⟩

/-- What comes behind a loop writes the rest of the block. -/
theorem Stays.rest
    (h : Stays mem dst n r) (hrest : Outside r.1 mem' r.2.1 r.2.2.2) : Outside mem mem' dst n := by
  obtain ⟨k, hk, hdst, hlen, hout⟩ := h
  rw [hdst, hlen] at hrest
  have hall := hout.append hrest
  rwa [Nat.add_sub_cancel' hk] at hall

theorem copyBlocks_stays : Stays mem dst n (copyBlocks mem dst src n) := by
  induction n using Nat.strong_induction_on generalizing mem dst src with
  | h n ih =>
    rw [copyBlocks]
    split_ifs with hless
    · have hblock : ∀ u v w x, Outside mem (store32 (store32 (store32 (store32 mem dst u)
          (dst + 4) v) (dst + 8) w) (dst + 12) x) dst 16 := fun u v w x =>
        (((outside_store32 u).append (outside_store32 v)).append (outside_store32 w)).append
          (outside_store32 x)
      exact Stays.turn hless (hblock _ _ _ _) (ih (n - 16) (by omega))
    · exact ⟨0, Nat.zero_le n, rfl, rfl, fun _ _ => rfl⟩

theorem copyWords_stays : Stays mem dst n (copyWords mem dst src n) := by
  induction n using Nat.strong_induction_on generalizing mem dst src with
  | h n ih =>
    rw [copyWords]
    split_ifs with hless
    · exact Stays.turn hless (outside_store32 _) (ih (n - 4) (by omega))
    · exact ⟨0, Nat.zero_le n, rfl, rfl, fun _ _ => rfl⟩

theorem outside_rtMemcpy : Outside mem (rtMemcpy mem dst src n) dst n := by
  unfold rtMemcpy
  split_ifs
  · exact copyBlocks_stays.rest (copyWords_stays.rest (outside_copyUp _ _ _ _))
  · exact outside_copyUp _ _ _ _

/-- Words at a time leave in memory what bytes at a time do, a destination has the bytes that the
source had before, and nothing outside of it is written. -/
theorem memory_routines (mem : Nat → UInt8) (dst src count : Nat) (c : Int) :
    rtMemset mem dst c count = Tiny.rtMemset mem dst c count ∧
      (dst + count ≤ src ∨ src + count ≤ dst →
        rtMemcpy mem dst src count = Tiny.rtMemcpy mem dst src count) ∧
      rtMemmove mem dst src count = Tiny.rtMemcpy mem dst src count ∧
      (∀ i < count, rtMemmove mem dst src count (dst + i) = mem (src + i)) ∧
      Outside mem (rtMemset mem dst c count) dst count ∧
      Outside mem (rtMemcpy mem dst src count) dst count ∧
      Outside mem (rtMemmove mem dst src count) dst count := by
  refine ⟨?_, fun hapart => ?_, ?_, fun i hi => ?_, ?_, outside_rtMemcpy, ?_⟩
  · exact (rtMemset_eq c).trans setBytes_eq.symm
  · exact (rtMemcpy_eq (by omega)).trans Tiny.rtMemcpy_eq.symm
  · exact rtMemmove_eq.trans Tiny.rtMemcpy_eq.symm
  · rw [rtMemmove_eq]
    unfold copied
    rw [if_pos (by omega), Nat.add_sub_cancel_left]
  · rw [rtMemset_eq]
    exact outside_filled _
  · rw [rtMemmove_eq]
    exact outside_copied

end

end RtKernel.Kservice

import RtKernel.Drivers.RingBuffer

/-!
# A ring buffer is a bounded queue

The bytes held are those between the two indices. Each call does to them what a
queue of as many bytes as the buffer has would do, for any indices, mirrors and
lengths.
-/

open List
open Option

namespace RtKernel.RingBuffer

/-- From the read index to the write index there are `len` bytes. -/
structure Spans (n : Nat) (readMirror : Bool) (readIndex : Nat) (writeMirror : Bool)
    (writeIndex len : Nat) : Prop where
  read : readIndex < n
  write : writeIndex < n
  same : readMirror = writeMirror → writeIndex = readIndex + len
  other : readMirror ≠ writeMirror → writeIndex ≤ readIndex ∧ writeIndex + n = readIndex + len

/-- An index goes forward, and flips its mirror at the end of the buffer. -/
def advance (n : Nat) (mirror : Bool) (i len : Nat) : Bool × Nat :=
  if n - i > len then (mirror, i + len) else (!mirror, len - (n - i))

section

variable {n r w len d : Nat} {rm wm : Bool}

theorem advance_index (rm : Bool) (hr : r < n) (hd : d ≤ n) : (advance n rm r d).2 = (r + d) % n := by
  rw [ring_forward hr hd, advance]
  split_ifs <;> rfl

namespace Spans

section

variable (h : Spans n rm r wm w len)
include h

theorem len_le : len ≤ n := by
  have hw := h.write
  by_cases hm : rm = wm
  · have hsame := h.same hm
    omega
  · have hother := h.other hm
    omega

theorem write_eq : w = (r + len) % n := by
  have hw := h.write
  by_cases hm : rm = wm
  · rw [← h.same hm, Nat.mod_eq_of_lt hw]
  · rw [← (h.other hm).2, Nat.add_mod_right, Nat.mod_eq_of_lt hw]

theorem put (hd : d ≤ n - len) :
    Spans n rm r (advance n wm w d).1 (advance n wm w d).2 (len + d) := by
  have hr := h.read
  have hw := h.write
  have hsame := h.same
  have hother := h.other
  unfold advance
  split_ifs with hroom
  · refine ⟨hr, ?_, ?_, ?_⟩
    · simp only
      omega
    · intro hm
      have heq := hsame hm
      omega
    · intro hm
      have heq := hother hm
      omega
  · refine ⟨hr, ?_, ?_, ?_⟩
    · simp only
      omega
    · intro hm
      have heq := hother (by rw [hm]; simp)
      omega
    · intro hm
      have heq := hsame (by revert hm; cases rm <;> cases wm <;> simp)
      omega

theorem take (hd : d ≤ len) : Spans n (advance n rm r d).1 (advance n rm r d).2 wm w (len - d) := by
  have hr := h.read
  have hw := h.write
  have hsame := h.same
  have hother := h.other
  unfold advance
  split_ifs with hroom
  · refine ⟨?_, hw, ?_, ?_⟩
    · simp only
      omega
    · intro hm
      have heq := hsame hm
      omega
    · intro hm
      have heq := hother hm
      omega
  · refine ⟨?_, hw, ?_, ?_⟩
    · simp only
      by_cases hm : rm = wm
      · have heq := hsame hm
        omega
      · have heq := hother hm
        omega
    · intro hm
      have heq := hother (by rw [← hm]; simp)
      omega
    · intro hm
      have heq := hsame (by revert hm; cases rm <;> cases wm <;> simp)
      omega

end

/-- In different mirrors the same index means that the buffer is full. -/
theorem full (hw : w < n) : Spans n (!wm) w wm w n :=
  ⟨hw, hw, fun hm => by simp at hm, fun _ => ⟨Nat.le_refl w, rfl⟩⟩

end Spans

end

/-- The buffer of `n` bytes holds the bytes `q`, the oldest one first. -/
structure Holds (n : Nat) (rb : RtRingbuffer) (q : List UInt8) : Prop where
  size : rb.bufferSize = n
  small : n < 2 ^ 15
  pool : n ≤ rb.poolSize
  spans : Spans n rb.readMirror rb.readIndex rb.writeMirror rb.writeIndex q.length
  bytes : ringItems rb.bufferPtr n rb.readIndex q.length = q

theorem index_eq {x : Nat} (h : x < 2 ^ 15) : index x = x := Nat.mod_eq_of_lt h

section

variable {n d L : Nat} {rb rb' : RtRingbuffer} {q ptr : List UInt8}

namespace Holds

section

variable (h : Holds n rb q)
include h

theorem rtRingbufferDataLen_eq : rtRingbufferDataLen rb = q.length := by
  have hsize := h.size
  have hsame := h.spans.same
  have hother := h.spans.other
  unfold rtRingbufferDataLen rtRingbufferStatus
  by_cases hm : rb.readMirror = rb.writeMirror
  · have heq := hsame hm
    by_cases hi : rb.readIndex = rb.writeIndex
    · simp only [if_pos hi, if_pos hm]
      omega
    · simp only [if_neg hi]
      rw [if_pos (by omega)]
      omega
  · have heq := hother hm
    by_cases hi : rb.readIndex = rb.writeIndex
    · simp only [if_pos hi, if_neg hm]
      omega
    · simp only [if_neg hi]
      rw [if_neg (by omega)]
      omega

theorem rtRingbufferSpaceLen_eq : rtRingbufferSpaceLen rb = n - q.length := by
  rw [rtRingbufferSpaceLen, h.size, h.rtRingbufferDataLen_eq]

/-- In a full buffer the indices are equal, and the mirrors are not. -/
theorem rtRingbufferStatus_full : rtRingbufferStatus rb = .full ↔ q.length = n := by
  have hw := h.spans.write
  have hsame := h.spans.same
  have hother := h.spans.other
  unfold rtRingbufferStatus
  by_cases hm : rb.readMirror = rb.writeMirror
  · have heq := hsame hm
    by_cases hi : rb.readIndex = rb.writeIndex
    · simp only [if_pos hi, if_pos hm, reduceCtorEq, false_iff]
      omega
    · simp only [if_neg hi, reduceCtorEq, false_iff]
      omega
  · have heq := hother hm
    by_cases hi : rb.readIndex = rb.writeIndex
    · simp only [if_pos hi, if_neg hm, true_iff]
      omega
    · simp only [if_neg hi, reduceCtorEq, false_iff]
      omega

/-- Bytes are stored after those held, of which the first `d` are given up. -/
theorem store {items : List UInt8} {rm wm : Bool} {r w : Nat}
    (hitems : items.length ≤ n) (hd : q.length + items.length - n ≤ d)
    (hle : d ≤ q.length + items.length) (hspans : Spans n rm r wm w (q.length + items.length - d))
    (hr : r = (rb.readIndex + d) % n) : Holds n { rb with
      bufferPtr := ringStore rb.bufferPtr n rb.writeIndex items
      readMirror := rm, readIndex := r, writeMirror := wm, writeIndex := w }
      ((q ++ items).drop d) := by
  have hlength : ((q ++ items).drop d).length = q.length + items.length - d := by
    rw [length_drop, length_append]
  constructor
  · exact h.size
  · exact h.small
  · exact h.pool
  · rw [hlength]
    exact hspans
  · have hstore := ringItems_store rb.bufferPtr items (o := rb.readIndex) h.spans.len_le hitems
      hd hle
    rw [h.bytes] at hstore
    rw [hlength]
    simp only [hr, ringItems_mod, h.spans.write_eq, ringStore_mod]
    exact hstore

theorem take (hd : d ≤ q.length) : Holds n { rb with
      readMirror := (advance n rb.readMirror rb.readIndex d).1
      readIndex := (advance n rb.readMirror rb.readIndex d).2 } (q.drop d) := by
  have hindex := advance_index rb.readMirror h.spans.read (hd.trans h.spans.len_le)
  constructor
  · exact h.size
  · exact h.small
  · exact h.pool
  · rw [length_drop]
    exact h.spans.take hd
  · simp only [length_drop, hindex, ringItems_mod]
    rw [← drop_ringItems, h.bytes]

end

end Holds

section

variable (h : Holds n rb q)
include h

/-- Bytes that do not reach the end of the buffer. -/
theorem Holds.copyIn_near (hroom : n - rb.writeIndex > L) (hL : L ≤ ptr.length) :
    copyIn rb rb.writeIndex ptr L = some { rb with
      bufferPtr := ringStore rb.bufferPtr n rb.writeIndex (ptr.take L) } := by
  have hpool := h.pool
  have hlength : (ptr.take L).length = L := by
    rw [length_take]
    omega
  have hfits : rb.writeIndex + (ptr.take L).length ≤ n := by omega
  rw [copyIn, if_pos ⟨by omega, hL⟩, storeAt_eq hfits]

theorem Holds.copyIn_wrap (hroom : ¬ n - rb.writeIndex > L) (hn : L ≤ n) (hL : L ≤ ptr.length) :
    ∃ rb', copyIn rb rb.writeIndex ptr (n - rb.writeIndex) = some rb' ∧
      copyIn rb' 0 (ptr.drop (n - rb.writeIndex)) (L - (n - rb.writeIndex)) = some { rb with
        bufferPtr := ringStore rb.bufferPtr n rb.writeIndex (ptr.take L) } := by
  have hpool := h.pool
  have hw := h.spans.write
  have hlength : (ptr.take L).length = L := by
    rw [length_take]
    omega
  have hfirst : (ptr.take L).take (n - rb.writeIndex) = ptr.take (n - rb.writeIndex) := by
    rw [take_take, Nat.min_eq_left (by omega)]
  have hrest : (ptr.take L).drop (n - rb.writeIndex) =
      (ptr.drop (n - rb.writeIndex)).take (L - (n - rb.writeIndex)) := drop_take
  have hstore := storeAt_storeAt rb.bufferPtr (ptr.take L) hw (by omega) (by omega)
  rw [hfirst, hrest] at hstore
  refine ⟨_, by rw [copyIn, if_pos ⟨by omega, by omega⟩], ?_⟩
  rw [copyIn, if_pos ⟨by simp only; omega, by rw [length_drop]; omega⟩]
  simp only [hstore]

/-- Bytes that do not reach the end of the buffer are copied out. -/
theorem Holds.copyOut_near (hroom : rb.readIndex + L ≤ n)
    (hL : L ≤ q.length) : copyOut rb rb.readIndex L = some (q.take L) := by
  have hpool := h.pool
  rw [copyOut, if_pos (by omega), ← ringItems_eq hroom, ← take_ringItems hL, h.bytes]

/-- Bytes that go on at the start of the pool are copied out in two parts. -/
theorem Holds.copyOut_wrap (hroom : ¬ n - rb.readIndex > L) (hL : L ≤ q.length) :
    ∃ bytes rest, copyOut rb rb.readIndex (n - rb.readIndex) = some bytes ∧
      copyOut rb 0 (L - (n - rb.readIndex)) = some rest ∧ bytes ++ rest = q.take L := by
  have hpool := h.pool
  have hr := h.spans.read
  have hlen := h.spans.len_le
  have hzero : ringItems rb.bufferPtr n 0 (L - (n - rb.readIndex)) =
      ringItems rb.bufferPtr n (rb.readIndex + (n - rb.readIndex)) (L - (n - rb.readIndex)) := by
    rw [Nat.add_sub_cancel' hr.le, ← ringItems_mod (o := n), Nat.mod_self]
  refine ⟨_, _, by rw [copyOut, if_pos (by omega)], by rw [copyOut, if_pos (by omega)], ?_⟩
  rw [← ringItems_eq (n := n) (by omega), ← ringItems_eq (n := n) (by omega), hzero,
    ← ringItems_add, Nat.add_sub_cancel' (by omega), ← take_ringItems hL, h.bytes]

theorem Holds.append (items : List UInt8) (hroom : items.length ≤ n - q.length) : Holds n { rb with
      bufferPtr := ringStore rb.bufferPtr n rb.writeIndex items
      writeMirror := (advance n rb.writeMirror rb.writeIndex items.length).1
      writeIndex := (advance n rb.writeMirror rb.writeIndex items.length).2 } (q ++ items) := by
  have hlen := h.spans.len_le
  have hr : rb.readIndex = (rb.readIndex + 0) % n := (Nat.mod_eq_of_lt h.spans.read).symm
  have hstore := h.store (d := 0) (by omega) (by omega) (Nat.zero_le _) (h.spans.put hroom) hr
  exact hstore

theorem Holds.put (ptr : List UInt8) :
    ∃ rb', rtRingbufferPut rb ptr = some (rb', min ptr.length (n - q.length)) ∧
      Holds n rb' (q ++ ptr.take (n - q.length)) := by
  have hsmall := h.small
  unfold rtRingbufferPut
  rw [h.rtRingbufferSpaceLen_eq]
  by_cases hfull : n - q.length = 0
  · simp only [hfull, if_true, Nat.min_zero, take_zero, append_nil]
    exact ⟨rb, rfl, h⟩
  · have hmin : (if n - q.length < ptr.length then n - q.length else ptr.length) =
        min ptr.length (n - q.length) := by
      split_ifs <;> omega
    have hlength : (ptr.take (n - q.length)).length = min ptr.length (n - q.length) := by
      rw [length_take, Nat.min_comm]
    have htake : ptr.take (min ptr.length (n - q.length)) = ptr.take (n - q.length) := by
      rw [Nat.min_comm, ← take_take, take_length]
    have happend := h.append (ptr.take (n - q.length)) (by omega)
    simp only [if_neg hfull, hmin, h.size]
    rw [hlength] at happend
    have hptr : min ptr.length (n - q.length) ≤ ptr.length := Nat.min_le_left _ _
    have hspace : min ptr.length (n - q.length) ≤ n - q.length := Nat.min_le_right _ _
    generalize min ptr.length (n - q.length) = L at htake happend hptr hspace ⊢
    by_cases hroom : n - rb.writeIndex > L
    · rw [if_pos hroom, h.copyIn_near hroom hptr, htake]
      rw [advance, if_pos hroom] at happend
      refine ⟨_, rfl, ?_⟩
      simp only [index_eq (by omega : rb.writeIndex + L < 2 ^ 15)]
      exact happend
    · obtain ⟨rb₁, hfirst, hsecond⟩ := h.copyIn_wrap hroom (by omega) hptr
      rw [if_neg hroom, hfirst, bind_some, hsecond, htake]
      rw [advance, if_neg hroom] at happend
      refine ⟨_, rfl, ?_⟩
      simp only [index_eq (by omega : L - (n - rb.writeIndex) < 2 ^ 15)]
      exact happend

theorem Holds.get (length : Nat) :
    ∃ rb', rtRingbufferGet rb length = some (rb', min length q.length, q.take length) ∧
      Holds n rb' (q.drop length) := by
  have hlen := h.spans.len_le
  have hsmall := h.small
  unfold rtRingbufferGet
  rw [h.rtRingbufferDataLen_eq]
  by_cases hempty : q.length = 0
  · have hnil := length_eq_zero_iff.mp hempty
    subst hnil
    simp only [length_nil, if_true, Nat.min_zero, take_nil, drop_nil]
    exact ⟨rb, rfl, h⟩
  · have hmin : (if q.length < length then q.length else length) = min length q.length := by
      split_ifs <;> omega
    have htake : q.take (min length q.length) = q.take length := by
      rw [← take_take, take_length]
    have hdrop : q.drop (min length q.length) = q.drop length := by
      rcases Nat.le_total length q.length with hle | hle
      · rw [Nat.min_eq_left hle]
      · rw [Nat.min_eq_right hle, drop_length, drop_of_length_le hle]
    have htaken := h.take (Nat.min_le_right length q.length)
    simp only [if_neg hempty, hmin, h.size]
    simp only [hdrop, h.size] at htaken
    have hL : min length q.length ≤ q.length := Nat.min_le_right _ _
    generalize min length q.length = L at hL htake htaken ⊢
    by_cases hroom : n - rb.readIndex > L
    · rw [if_pos hroom, h.copyOut_near (by omega) hL, htake]
      rw [advance, if_pos hroom] at htaken
      refine ⟨_, rfl, ?_⟩
      simp only [index_eq (by omega : rb.readIndex + L < 2 ^ 15)]
      exact htaken
    · obtain ⟨bytes, rest, hfirst, hsecond, happend⟩ := h.copyOut_wrap hroom hL
      rw [if_neg hroom, hfirst, bind_some, hsecond, map_some, happend, htake]
      rw [advance, if_neg hroom] at htaken
      refine ⟨_, rfl, ?_⟩
      simp only [index_eq (by omega : L - (n - rb.readIndex) < 2 ^ 15)]
      exact htaken

/-- Some of the bytes that lie together are taken. -/
theorem Holds.peek :
    ∃ rb' out rest, call rb .peek = some (rb', { count := out.length, items := out }) ∧
      q = out ++ rest ∧ (q ≠ [] → out ≠ []) ∧ Holds n rb' rest := by
  have hr := h.spans.read
  have hsmall := h.small
  have hsize := h.size
  by_cases hempty : q.length = 0
  · have hnil := length_eq_zero_iff.mp hempty
    refine ⟨rb, [], [], ?_, hnil, fun hne => absurd hnil hne, hnil ▸ h⟩
    simp only [call, rtRingbufferPeek, h.rtRingbufferDataLen_eq, if_pos hempty, length_nil]
  · obtain ⟨d, hd, hpos, hfits, hpeek⟩ : ∃ d, d ≤ q.length ∧ d ≠ 0 ∧ rb.readIndex + d ≤ n ∧
        rtRingbufferPeek rb = ({ rb with
          readMirror := (advance n rb.readMirror rb.readIndex d).1
          readIndex := (advance n rb.readMirror rb.readIndex d).2 }, d, some rb.readIndex) := by
      unfold rtRingbufferPeek
      rw [h.rtRingbufferDataLen_eq]
      by_cases hroom : n - rb.readIndex > q.length
      · refine ⟨q.length, le_rfl, hempty, by omega, ?_⟩
        simp only [if_neg hempty, hsize, if_pos hroom, advance,
          index_eq (by omega : rb.readIndex + q.length < 2 ^ 15)]
      · refine ⟨n - rb.readIndex, by omega, by omega, by omega, ?_⟩
        simp only [if_neg hempty, hsize, if_neg hroom, advance, gt_iff_lt, lt_irrefl, if_false,
          Nat.sub_self]
    have hlength : (q.take d).length = d := by
      rw [length_take, Nat.min_eq_left hd]
    have htaken := h.take hd
    have hout := h.copyOut_near hfits hd
    generalize hrb' : ({ rb with
      readMirror := (advance n rb.readMirror rb.readIndex d).1
      readIndex := (advance n rb.readMirror rb.readIndex d).2 } : RtRingbuffer) = rb' at hpeek htaken
    have hcopy : copyOut rb' rb.readIndex d = some (q.take d) := by
      rw [← hout, ← hrb']
      rfl
    refine ⟨rb', q.take d, q.drop d, ?_, (take_append_drop d q).symm, ?_, htaken⟩
    · simp only [call, hpeek, hcopy, map_some, hlength]
    · intro _ hnil
      rw [hnil] at hlength
      exact hpos hlength.symm

end

theorem advance_one {m : Bool} {i : Nat} (hi : i < n) :
    advance n m i 1 = if i = n - 1 then (!m, 0) else (m, i + 1) := by
  unfold advance
  by_cases hlast : i = n - 1
  · rw [if_pos hlast, if_neg (by omega), Nat.sub_eq_zero_of_le (by omega)]
  · rw [if_neg hlast, if_pos (by omega)]

section

variable (h : Holds n rb q)
include h

theorem Holds.setByte_eq (ch : UInt8) : setByte rb rb.writeIndex ch =
    some { rb with bufferPtr := ringStore rb.bufferPtr n rb.writeIndex [ch] } := by
  have hpool := h.pool
  have hw := h.spans.write
  rw [setByte, if_pos (by omega), update_eq_ringStore hw]

theorem Holds.putchar (ch : UInt8) :
    ∃ rb', rtRingbufferPutchar rb ch = some (rb', min 1 (n - q.length)) ∧
      Holds n rb' (q ++ [ch].take (n - q.length)) := by
  have hw := h.spans.write
  have hsmall := h.small
  unfold rtRingbufferPutchar
  rw [h.rtRingbufferSpaceLen_eq]
  by_cases hfull : n - q.length = 0
  · simp only [hfull, if_true, Nat.min_zero, take_zero, append_nil]
    exact ⟨rb, rfl, h⟩
  · have happend := h.append [ch] (Nat.one_le_iff_ne_zero.mpr hfull)
    rw [length_singleton, advance_one hw] at happend
    have htake : [ch].take (n - q.length) = [ch] :=
      take_of_length_le (Nat.one_le_iff_ne_zero.mpr hfull)
    rw [if_neg hfull, h.setByte_eq, htake, Nat.min_eq_left (Nat.one_le_iff_ne_zero.mpr hfull)]
    simp only [map_some, h.size] at happend ⊢
    by_cases hlast : rb.writeIndex = n - 1
    · rw [if_pos hlast] at happend ⊢
      exact ⟨_, rfl, happend⟩
    · rw [if_neg hlast] at happend ⊢
      refine ⟨_, rfl, ?_⟩
      simp only [index_eq (by omega : rb.writeIndex + 1 < 2 ^ 15)]
      exact happend

theorem Holds.getchar : ∃ rb', rtRingbufferGetchar rb = some (rb', min 1 q.length, q.take 1) ∧
      Holds n rb' (q.drop 1) := by
  have hr := h.spans.read
  have hsmall := h.small
  unfold rtRingbufferGetchar
  rw [h.rtRingbufferDataLen_eq]
  by_cases hempty : q.length = 0
  · have hnil := length_eq_zero_iff.mp hempty
    subst hnil
    exact ⟨rb, rfl, h⟩
  · have hone : 1 ≤ q.length := Nat.one_le_iff_ne_zero.mpr hempty
    have htaken := h.take hone
    rw [advance_one hr] at htaken
    rw [if_neg hempty, h.copyOut_near (by omega) hone, Nat.min_eq_left hone]
    simp only [map_some, h.size] at htaken ⊢
    by_cases hlast : rb.readIndex = n - 1
    · rw [if_pos hlast] at htaken ⊢
      exact ⟨_, rfl, htaken⟩
    · rw [if_neg hlast] at htaken ⊢
      refine ⟨_, rfl, ?_⟩
      simp only [index_eq (by omega : rb.readIndex + 1 < 2 ^ 15)]
      exact htaken

/-- The oldest bytes make room: the buffer is full, and read from where it was written last. -/
theorem Holds.force {items : List UInt8} (hitems : items.length ≤ n)
    (hover : n ≤ q.length + items.length) : Holds n { rb with
      bufferPtr := ringStore rb.bufferPtr n rb.writeIndex items
      readMirror := !(advance n rb.writeMirror rb.writeIndex items.length).1
      readIndex := (advance n rb.writeMirror rb.writeIndex items.length).2
      writeMirror := (advance n rb.writeMirror rb.writeIndex items.length).1
      writeIndex := (advance n rb.writeMirror rb.writeIndex items.length).2 }
      ((q ++ items).drop (q.length + items.length - n)) := by
  have hw := h.spans.write
  have hindex := advance_index rb.writeMirror hw hitems
  have hlt : (rb.writeIndex + items.length) % n < n := Nat.mod_lt _ (Nat.zero_lt_of_lt hw)
  have hlength : q.length + items.length - (q.length + items.length - n) = n := by omega
  apply h.store hitems le_rfl (Nat.sub_le _ _)
  · rw [hlength]
    apply Spans.full
    rw [hindex]
    exact hlt
  · have hsum : rb.readIndex + q.length + items.length =
        rb.readIndex + (q.length + items.length - n) + n := by omega
    rw [hindex, h.spans.write_eq, Nat.mod_add_mod, hsum, Nat.add_mod_right]

theorem Holds.putForce (ptr : List UInt8) :
    ∃ rb', rtRingbufferPutForce rb ptr = some (rb', min ptr.length n) ∧
      Holds n rb' ((q ++ ptr).drop (q.length + ptr.length - n)) := by
  have hw := h.spans.write
  have hlen := h.spans.len_le
  have hsmall := h.small
  have hsame := h.spans.same
  have hother := h.spans.other
  have hptr : (if ptr.length > n then ptr.drop (ptr.length - n) else ptr) =
      ptr.drop (ptr.length - n) := by
    split_ifs with hlong
    · rfl
    · rw [Nat.sub_eq_zero_of_le (by omega), drop_zero]
  have hlength : (ptr.drop (ptr.length - n)).length = min ptr.length n := by
    rw [length_drop]
    omega
  have hitems : (ptr.drop (ptr.length - n)).length ≤ n := by omega
  unfold rtRingbufferPutForce
  simp only [h.rtRingbufferSpaceLen_eq, h.size, hptr]
  rw [← Fifo.putForce_drop, ← hlength]
  generalize ptr.drop (ptr.length - n) = items at hitems ⊢
  have hforce := h.force hitems
  by_cases hover : items.length > n - q.length
  · have hforced := hforce (by omega)
    by_cases hroom : n - rb.writeIndex > items.length
    · -- the bytes held reach around the end of the buffer
      have hmirror : (!rb.writeMirror) = rb.readMirror := by
        have hne : rb.readMirror ≠ rb.writeMirror := fun hm => by
          have heq := hsame hm
          omega
        rw [Bool.not_eq]
        exact hne.symm
      have hindex := index_eq (by omega : rb.writeIndex + items.length < 2 ^ 15)
      rw [if_pos hroom, h.copyIn_near hroom le_rfl, take_length]
      simp only [advance, if_pos hroom, hmirror] at hforced
      simp only [map_some, if_pos hover, hindex]
      exact ⟨_, rfl, hforced⟩
    · have hindex := index_eq (by omega : items.length - (n - rb.writeIndex) < 2 ^ 15)
      obtain ⟨rb₁, hfirst, hsecond⟩ := h.copyIn_wrap hroom hitems le_rfl
      rw [if_neg hroom, hfirst, bind_some, hsecond, take_length]
      simp only [advance, if_neg hroom, Bool.not_not] at hforced
      -- the read index is passed, or the write index comes to lie before it
      by_cases hm : rb.readMirror = rb.writeMirror
      · have heq := hsame hm
        have hpassed : ¬ items.length - (n - rb.writeIndex) ≤ rb.readIndex := by omega
        simp only [map_some, if_pos hover, hindex, if_neg hpassed]
        refine ⟨_, rfl, ?_⟩
        simpa only [hm] using hforced
      · have heq := hother hm
        have hbehind : items.length - (n - rb.writeIndex) ≤ rb.readIndex := by omega
        have hmirror : (!rb.readMirror) = rb.writeMirror := by
          rw [Bool.not_eq]
          exact hm
        simp only [map_some, if_pos hover, hindex, if_pos hbehind]
        refine ⟨_, rfl, ?_⟩
        simpa only [hmirror, h.size] using hforced
  · have happend := h.append items (by omega)
    have hzero : q.length + items.length - n = 0 := by omega
    rw [hzero]
    by_cases hroom : n - rb.writeIndex > items.length
    · have hindex := index_eq (by omega : rb.writeIndex + items.length < 2 ^ 15)
      rw [if_pos hroom, h.copyIn_near hroom le_rfl, take_length]
      simp only [advance, if_pos hroom] at happend
      simp only [map_some, if_neg hover, hindex]
      exact ⟨_, rfl, happend⟩
    · have hindex := index_eq (by omega : items.length - (n - rb.writeIndex) < 2 ^ 15)
      obtain ⟨rb₁, hfirst, hsecond⟩ := h.copyIn_wrap hroom hitems le_rfl
      rw [if_neg hroom, hfirst, bind_some, hsecond, take_length]
      simp only [advance, if_neg hroom] at happend
      simp only [map_some, if_neg hover, hindex]
      exact ⟨_, rfl, happend⟩

theorem Holds.putcharForce (ch : UInt8) :
    ∃ rb', rtRingbufferPutcharForce rb ch = some (rb', min 1 n) ∧
      Holds n rb' ((q ++ [ch]).drop (q.length + 1 - n)) := by
  have hw := h.spans.write
  have hlen := h.spans.len_le
  have hsmall := h.small
  have hone : [ch].length ≤ n := Nat.one_le_of_lt hw
  unfold rtRingbufferPutcharForce
  simp only [h.setByte_eq, map_some, h.rtRingbufferStatus_full, h.size]
  rw [Nat.min_eq_left (Nat.one_le_of_lt hw)]
  by_cases hfull : q.length = n
  · have hforced := h.force hone (by omega)
    have hmirror : (!rb.writeMirror) = rb.readMirror := by
      have hne : rb.readMirror ≠ rb.writeMirror := fun hm => by
        have heq := h.spans.same hm
        omega
      rw [Bool.not_eq]
      exact hne.symm
    rw [length_singleton, advance_one hw] at hforced
    simp only [if_pos hfull]
    by_cases hlast : rb.writeIndex = n - 1
    · rw [if_pos hlast] at hforced ⊢
      refine ⟨_, rfl, ?_⟩
      simpa only [hmirror, h.size] using hforced
    · rw [if_neg hlast] at hforced ⊢
      refine ⟨_, rfl, ?_⟩
      simp only [index_eq (by omega : rb.writeIndex + 1 < 2 ^ 15)]
      simpa only [hmirror, h.size] using hforced
  · have happend := h.append [ch] (by rw [length_singleton]; omega)
    have hzero : q.length + 1 - n = 0 := by omega
    rw [length_singleton, advance_one hw] at happend
    rw [hzero]
    simp only [h.size] at happend
    simp only [if_neg hfull]
    by_cases hlast : rb.writeIndex = n - 1
    · rw [if_pos hlast] at happend ⊢
      exact ⟨_, rfl, happend⟩
    · rw [if_neg hlast] at happend ⊢
      refine ⟨_, rfl, ?_⟩
      simp only [index_eq (by omega : rb.writeIndex + 1 < 2 ^ 15)]
      exact happend

theorem Holds.reset : Holds n (rtRingbufferReset rb) [] := by
  constructor
  · exact h.size
  · exact h.small
  · exact h.pool
  · have hpos := Nat.zero_lt_of_lt h.spans.read
    exact ⟨hpos, hpos, fun _ => rfl, fun hm => absurd rfl hm⟩
  · rfl

end

end

theorem Holds.call {n : Nat} {rb : RtRingbuffer} {q : List UInt8} (h : Holds n rb q) (r : Request) :
    ∃ rb' answer q', call rb r = some (rb', answer) ∧ Fifo.Serves n q r.event q' answer ∧
      Holds n rb' q' := by
  cases r with
  | put ptr =>
    obtain ⟨rb', hput, hholds⟩ := h.put ptr
    exact ⟨rb', _, _, by rw [RingBuffer.call, hput]; rfl, .put ptr, hholds⟩
  | putForce ptr =>
    obtain ⟨rb', hput, hholds⟩ := h.putForce ptr
    exact ⟨rb', _, _, by rw [RingBuffer.call, hput]; rfl, .putForce ptr, hholds⟩
  | putchar ch =>
    obtain ⟨rb', hput, hholds⟩ := h.putchar ch
    exact ⟨rb', _, _, by rw [RingBuffer.call, hput]; rfl, .put [ch], hholds⟩
  | putcharForce ch =>
    obtain ⟨rb', hput, hholds⟩ := h.putcharForce ch
    exact ⟨rb', _, _, by rw [RingBuffer.call, hput]; rfl, .putForce [ch], hholds⟩
  | get length =>
    obtain ⟨rb', hget, hholds⟩ := h.get length
    exact ⟨rb', _, _, by rw [RingBuffer.call, hget]; rfl, .get length, hholds⟩
  | getchar =>
    obtain ⟨rb', hget, hholds⟩ := h.getchar
    exact ⟨rb', _, _, by rw [RingBuffer.call, hget]; rfl, .get 1, hholds⟩
  | peek =>
    obtain ⟨rb', out, rest, hpeek, hq, hout, hholds⟩ := h.peek
    exact ⟨rb', _, rest, hpeek, .peek hq hout, hholds⟩
  | reset => exact ⟨_, _, [], rfl, .reset, h.reset⟩

/-- A buffer that has just been initialized is empty. -/
theorem rtRingbufferInit_holds {size : Nat} (pool : Nat → UInt8) (hmin : 4 ≤ size)
    (hmax : size ≤ 32767) :
    ∃ rb, rtRingbufferInit pool size = some rb ∧ Holds (rtAlignDown size) rb [] := by
  have halign : rtAlignDown size = size / 4 * 4 := rtAlignDown_eq (by omega)
  have hle : rtAlignDown size ≤ size := halign ▸ Nat.div_mul_le_self size 4
  have hpos : 0 < rtAlignDown size := by omega
  unfold rtRingbufferInit
  rw [if_neg (by omega)]
  refine ⟨_, rfl, ?_⟩
  constructor
  · rfl
  · omega
  · exact hle
  · exact ⟨hpos, hpos, fun _ => rfl, fun hm => absurd rfl hm⟩
  · rfl

/-- A ring buffer, with what it has been asked and what it has answered. -/
structure Traced where
  rb : RtRingbuffer
  trace : List (FifoEvent UInt8 × FifoAnswer UInt8)

namespace Traced

/-- The next call; there is none when a byte outside of the pool is accessed. -/
def exec (s : Traced) (r : Request) : Option Traced :=
  if r.Valid then
    (RingBuffer.call s.rb r).map fun (rb, answer) =>
      { rb := rb, trace := s.trace ++ [(r.event, answer)] }
  else none

/-- A buffer that has just been initialized with a pool of `size` bytes. -/
def Initial (size : Nat) (s : Traced) : Prop :=
  ∃ pool, rtRingbufferInit pool size = some s.rb ∧ s.trace = []

/-- The bytes held are those of a queue that gave the same answers. -/
def Refines (n : Nat) (s : Traced) : Prop :=
  ∃ held, Fifo.Answers n s.trace held ∧ Holds n s.rb held

theorem Initial.refines {size : Nat} {s : Traced} (h : Initial size s) (hmin : 4 ≤ size)
    (hmax : size ≤ 32767) : Refines (rtAlignDown size) s := by
  obtain ⟨pool, hinit, htrace⟩ := h
  obtain ⟨rb, hrb, hholds⟩ := rtRingbufferInit_holds pool hmin hmax
  obtain rfl := some.inj (hrb.symm.trans hinit)
  exact ⟨[], htrace ▸ .start, hholds⟩

theorem Refines.exec {n : Nat} {s t : Traced} {r : Request} (h : Refines n s)
    (hexec : exec s r = some t) : Refines n t := by
  obtain ⟨held, hanswers, hholds⟩ := h
  obtain ⟨rb', answer, held', hcall, hserves, hholds'⟩ := hholds.call r
  obtain ⟨-, hexec⟩ := ite_none_right_eq_some.mp hexec
  rw [hcall] at hexec
  cases hexec
  exact ⟨held', hanswers.next hserves, hholds'⟩

/-- After any calls the buffer has answered as a queue of all its bytes, holds what that
queue holds, and can be called again without leaving its pool. -/
theorem reachable_refines {size : Nat} {s : Traced} (hmin : 4 ≤ size) (hmax : size ≤ 32767)
    (h : Reachable (Initial size) (fun s r t => exec s r = some t) s) :
    ∃ held, Fifo.Answers (rtAlignDown size) s.trace held ∧
      rtRingbufferDataLen s.rb = held.length ∧
      ∀ r : Request, r.Valid → ∃ t, exec s r = some t := by
  have hrefines : Refines (rtAlignDown size) s :=
    h.invariant (fun _ h₀ => h₀.refines hmin hmax) fun _ _ _ _ ih hexec => ih.exec hexec
  obtain ⟨held, hanswers, hholds⟩ := hrefines
  refine ⟨held, hanswers, hholds.rtRingbufferDataLen_eq, ?_⟩
  intro r hvalid
  obtain ⟨rb', answer, -, hcall, -, -⟩ := hholds.call r
  exact ⟨_, by rw [exec, if_pos hvalid, hcall]; rfl⟩

/-- Four of five bytes are used. -/
def fourBytes : Traced where
  rb :=
    { bufferPtr := fun _ => 0, poolSize := 5, readMirror := false, readIndex := 0
      writeMirror := false, writeIndex := 0, bufferSize := rtAlignDown 5 }
  trace := []

/-- Six bytes are forced into a buffer of four, which is then read around its end. -/
theorem reachable_refines_four : ∃ s : Traced,
    s.trace.map (fun e => e.2.items) = [[], [3, 4], [], [5, 6], [7]] ∧
      ∃ held, Fifo.Answers (rtAlignDown 5) s.trace held ∧
        rtRingbufferDataLen s.rb = held.length ∧ ∀ r : Request, r.Valid → ∃ t, exec s r = some t := by
  have hrun : ∃ s ∈ runAll exec fourBytes [.putForce [1, 2, 3, 4, 5, 6], .get 2, .putchar 7, .peek,
      .getchar],
      s.trace.map (fun e => e.2.items) = [[], [3, 4], [], [5, 6], [7]] := by decide +kernel
  have hstart : Initial 5 fourBytes := ⟨fun _ => 0, rfl, rfl⟩
  obtain ⟨s, hreach, htrace⟩ := Reachable.of_runAll hstart hrun
  exact ⟨s, htrace, reachable_refines (by decide) (by decide) hreach⟩

end Traced

end RtKernel.RingBuffer

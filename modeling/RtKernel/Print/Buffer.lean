import RtKernel.Core.Bytes
import RtKernel.Core.Word
import RtKernel.Print.Text

/-!
# Formatting into a buffer

The sink of `rt_vsnprintf` is a place in memory that moves on with each character,
and stores it where it has not come to the end. Addresses wrap.
-/

open Nat (mod_eq_of_lt)

open List

namespace RtKernel.Print

/-- The memory, and the place of the next character. -/
structure Out where
  mem : Nat → UInt8
  str : Nat

/-- `if (str < end) *str = c; ++str;` -/
def store (stop : Nat) (o : Out) (c : UInt8) : Out :=
  { mem := if o.str < stop then store8 o.mem o.str c else o.mem, str := add32 o.str 1 }

/-- `rt_vsnprintf`: the memory, and the value to return. The strings among the arguments do not lie
in the buffer. -/
def rtVsnprintf (mem : Nat → UInt8) (buf size : Nat) (fmt : List UInt8) (args : Args) :
    (Nat → UInt8) × Int :=
  let stop := add32 buf size
  let size := if stop < buf then sub32 0xffffffff buf else size
  let stop := if stop < buf then 0xffffffff else stop
  let o := format (store stop) { mem, str := buf } fmt args
  let mem :=
    if 0 < size then
      if o.str < stop then store8 o.mem o.str 0 else store8 o.mem (sub32 stop 1) 0
    else o.mem
  (mem, int32 (o.str - buf))

section

variable {stop : Nat} {o : Out}

theorem foldl_store_str (hstr : o.str < 2 ^ 32) (l : List UInt8) :
    (l.foldl (store stop) o).str = (o.str + l.length) % 2 ^ 32 := by
  induction l generalizing o with
  | nil => exact (mod_eq_of_lt hstr).symm
  | cons c l ih =>
    have hnext : (store stop o c).str = (o.str + 1) % 2 ^ 32 := rfl
    rw [foldl_cons, ih (hnext ▸ Nat.mod_lt _ (by decide)), hnext, length_cons]
    omega

/-- An address that no character comes to keeps what it has, as does one behind the end. -/
theorem foldl_store_frame (hstr : o.str < 2 ^ 32) (l : List UInt8) {a : Nat}
    (ha : ∀ k < l.length, (o.str + k) % 2 ^ 32 < stop → (o.str + k) % 2 ^ 32 ≠ a) :
    (l.foldl (store stop) o).mem a = o.mem a := by
  induction l generalizing o with
  | nil => rfl
  | cons c l ih =>
    have hnext : (store stop o c).str = (o.str + 1) % 2 ^ 32 := rfl
    rw [foldl_cons, ih (hnext ▸ Nat.mod_lt _ (by decide))]
    · have h₀ := ha 0 (Nat.succ_pos _)
      rw [Nat.add_zero, mod_eq_of_lt hstr] at h₀
      unfold store
      split_ifs with hlt
      · exact if_neg (h₀ hlt).symm
      · rfl
    · intro k hk
      have heq : ((store stop o c).str + k) % 2 ^ 32 = (o.str + (k + 1)) % 2 ^ 32 := by
        omega
      rw [heq]
      exact ha (k + 1) (Nat.succ_lt_succ hk)

/-- The last character that comes to an address before the end stays there. -/
theorem foldl_store_mem (hstr : o.str < 2 ^ 32) {l : List UInt8} {k : Nat} (hk : k < l.length)
    (hlast : l.length ≤ k + 2 ^ 32) (hstop : (o.str + k) % 2 ^ 32 < stop) :
    (l.foldl (store stop) o).mem ((o.str + k) % 2 ^ 32) = l[k] := by
  induction l generalizing o k with
  | nil => cases hk
  | cons c l ih =>
    have hnext : (store stop o c).str = (o.str + 1) % 2 ^ 32 := rfl
    have hlt : (store stop o c).str < 2 ^ 32 := hnext ▸ Nat.mod_lt _ (by decide)
    rw [length_cons] at hk hlast
    rw [foldl_cons]
    cases k with
    | zero =>
      rw [Nat.add_zero, mod_eq_of_lt hstr] at hstop ⊢
      rw [foldl_store_frame hlt, getElem_cons_zero]
      · unfold store
        rw [if_pos hstop]
        exact if_pos rfl
      · intro i hi _
        omega
    | succ k =>
      have heq : (o.str + (k + 1)) % 2 ^ 32 = ((store stop o c).str + k) % 2 ^ 32 := by
        omega
      rw [heq] at hstop ⊢
      exact ih hlt (by omega) (by omega) hstop

end

/-- What `rt_vsnprintf` is to do, whatever is in the memory before it: to write in the buffer only,
to end what it writes, to return the complete length, and to leave the output there as far as there
is room. -/
structure Writes (buf size : Nat) (fmt : List UInt8) (args : Args) : Prop where
  inside : ∀ mem a, (∀ i < size, (buf + i) % 2 ^ 32 ≠ a) →
    (rtVsnprintf mem buf size fmt args).1 a = mem a
  terminated : ∀ mem, (rtVsnprintf mem buf size fmt args).1
    ((buf + min (text fmt args).length (size - 1)) % 2 ^ 32) = 0
  length : ∀ mem, (rtVsnprintf mem buf size fmt args).2 = (text fmt args).length
  kept : ∀ mem i, (hi : i < (text fmt args).length) → i < size - 1 →
    (rtVsnprintf mem buf size fmt args).1 ((buf + i) % 2 ^ 32) = (text fmt args)[i]

/-- The complete length is an `int`, and the place comes neither to the end of the address space
nor, where the buffer would go beyond that, to its last address. -/
def Addressable (buf size length : Nat) : Prop :=
  length < 2 ^ 31 ∧ buf + length < 2 ^ 32 ∧ (2 ^ 32 ≤ buf + size → buf + length + 1 < 2 ^ 32)

instance (buf size length : Nat) : Decidable (Addressable buf size length) :=
  inferInstanceAs (Decidable (_ ∧ _))

section

variable {buf size : Nat} {fmt : List UInt8} {args : Args}

/-- The memory and the result, in terms of the complete output. -/
theorem rtVsnprintf_eq (mem : Nat → UInt8) {stop room : Nat}
    (hstop : (if add32 buf size < buf then 0xffffffff else add32 buf size) = stop)
    (hroom : (if add32 buf size < buf then sub32 0xffffffff buf else size) = room)
    (hbuf : buf < 2 ^ 32) : ∃ o : Out, o = (text fmt args).foldl (store stop) { mem, str := buf } ∧
      o.str = (buf + (text fmt args).length) % 2 ^ 32 ∧
      rtVsnprintf mem buf size fmt args =
        (if 0 < room then
          if o.str < stop then store8 o.mem o.str 0 else store8 o.mem (sub32 stop 1) 0
        else o.mem, int32 (o.str - buf)) := by
  refine ⟨_, rfl, foldl_store_str hbuf _, ?_⟩
  unfold rtVsnprintf
  dsimp only
  rw [hstop, hroom, format_eq]

/-- A buffer that ends before the address space does. -/
theorem rtVsnprintf_low (mem : Nat → UInt8) (fmt : List UInt8) (args : Args)
    (hbuf : buf < 2 ^ 32) (hend : buf + size < 2 ^ 32) :
    ∃ o : Out, o = (text fmt args).foldl (store (buf + size)) { mem, str := buf } ∧
      o.str = (buf + (text fmt args).length) % 2 ^ 32 ∧
      rtVsnprintf mem buf size fmt args =
        (if 0 < size then
          if o.str < buf + size then store8 o.mem o.str 0
          else store8 o.mem (sub32 (buf + size) 1) 0
        else o.mem, int32 (o.str - buf)) := by
  have hadd : add32 buf size = buf + size := add32_eq hend
  have hnot : ¬ add32 buf size < buf := by omega
  exact rtVsnprintf_eq mem (by rw [if_neg hnot, hadd]) (if_neg hnot) hbuf

/-- A buffer that would go on to the end of the address space, or beyond it. -/
theorem rtVsnprintf_high (mem : Nat → UInt8) (fmt : List UInt8) (args : Args)
    (hbuf : buf < 2 ^ 32) (hsize : size < 2 ^ 32) (hend : 2 ^ 32 ≤ buf + size) :
    ∃ o : Out, o = (text fmt args).foldl (store 0xffffffff) { mem, str := buf } ∧
      o.str = (buf + (text fmt args).length) % 2 ^ 32 ∧
      rtVsnprintf mem buf size fmt args =
        (if 0 < 0xffffffff - buf then
          if o.str < 0xffffffff then store8 o.mem o.str 0 else store8 o.mem 0xfffffffe 0
        else o.mem, int32 (o.str - buf)) := by
  have hlt : add32 buf size < buf := by
    unfold add32
    omega
  have hroom : sub32 0xffffffff buf = 0xffffffff - buf := sub32_eq (by omega) (by decide)
  exact rtVsnprintf_eq mem (if_pos hlt) (by rw [if_pos hlt, hroom]) hbuf

theorem int32_of_lt {n : Nat} (h : n < 2 ^ 31) : int32 n = n := by
  unfold int32
  simp only [Int.bmod_def]
  omega

theorem int32_lt (x : Int) : int32 x < 2 ^ 31 := by
  unfold int32
  simp only [Int.bmod_def]
  omega

section

variable (h : Addressable buf size (text fmt args).length)
include h

/-- The result where all goes well: the characters, and the terminator behind them or in the last
place. -/
theorem Addressable.eq (hpos : 0 < size)
    (hbuf : buf < 2 ^ 32) (hsize : size < 2 ^ 32) (mem : Nat → UInt8) :
    ∃ stop ≤ buf + size, (∀ k < (text fmt args).length, k < size - 1 → buf + k < stop) ∧
      rtVsnprintf mem buf size fmt args =
        (store8 ((text fmt args).foldl (store stop) { mem, str := buf }).mem
          (buf + min (text fmt args).length (size - 1)) 0, ((text fmt args).length : Int)) := by
  obtain ⟨hlen, hend, hlast⟩ := h
  have hret : ∀ o : Out, o.str = (buf + (text fmt args).length) % 2 ^ 32 →
      int32 (o.str - buf) = (text fmt args).length := by
    intro o ho
    rw [ho, mod_eq_of_lt hend, ← int32_of_lt hlen]
    congr 1
    omega
  rcases Nat.lt_or_ge (buf + size) (2 ^ 32) with hlow | hhigh
  · obtain ⟨o, ho, hstr, heq⟩ := rtVsnprintf_low mem fmt args hbuf hlow
    refine ⟨buf + size, le_rfl, fun k _ hk => by omega, ?_⟩
    rw [heq, hret o hstr, if_pos hpos, hstr, mod_eq_of_lt hend, ← ho]
    split_ifs with hlt
    · rw [Nat.min_eq_left (by omega)]
    · rw [Nat.min_eq_right (by omega), sub32_eq (by omega) hlow, Nat.add_sub_assoc hpos]
  · obtain ⟨o, ho, hstr, heq⟩ := rtVsnprintf_high mem fmt args hbuf hsize hhigh
    refine ⟨0xffffffff, by omega, fun k hk _ => by omega, ?_⟩
    rw [heq, hret o hstr, if_pos (by omega), hstr, mod_eq_of_lt hend, if_pos (by omega), ← ho,
      Nat.min_eq_left (by omega)]

theorem Addressable.writes (hpos : 0 < size)
    (hbuf : buf < 2 ^ 32) (hsize : size < 2 ^ 32) : Writes buf size fmt args := by
  have hend := h.2.1
  have heq := h.eq hpos hbuf hsize
  refine ⟨fun mem a ha => ?_, fun mem => ?_, fun mem => ?_, fun mem i hi hroom => ?_⟩
  · obtain ⟨stop, hstop, hbefore, heq⟩ := heq mem
    have hmin := ha (min (text fmt args).length (size - 1)) (by omega)
    rw [mod_eq_of_lt (by omega)] at hmin
    rw [heq]
    change (if a = _ then 0 else _) = _
    rw [if_neg hmin.symm]
    apply foldl_store_frame hbuf
    intro k hk hlt
    rw [mod_eq_of_lt (show buf + k < 2 ^ 32 by omega)] at hlt
    exact ha k (by omega)
  · obtain ⟨stop, -, -, heq⟩ := heq mem
    rw [heq, mod_eq_of_lt (by omega)]
    exact if_pos rfl
  · obtain ⟨stop, -, -, heq⟩ := heq mem
    rw [heq]
  · obtain ⟨stop, -, hbefore, heq⟩ := heq mem
    have hmod : (buf + i) % 2 ^ 32 = buf + i := mod_eq_of_lt (by omega)
    rw [heq, ← foldl_store_mem (o := { mem, str := buf }) hbuf hi (by omega)
      (hmod.trans_lt (hbefore i hi hroom))]
    apply if_neg
    omega

end

/-- A place that has come round stores the terminator before the buffer. -/
theorem not_writes_low (hpos : 0 < size) (hbuf : buf < 2 ^ 32) (hlow : buf + size < 2 ^ 32)
    (hlen : (text fmt args).length < 2 ^ 31) (hround : 2 ^ 32 ≤ buf + (text fmt args).length) :
    ¬ Writes buf size fmt args := by
  intro h
  obtain ⟨o, -, hstr, heq⟩ := rtVsnprintf_low (fun _ => 1) fmt args hbuf hlow
  have hout := h.inside (fun _ => 1) o.str (by
    intro i hi
    omega)
  rw [heq, if_pos hpos, if_pos (by omega)] at hout
  have hzero : store8 o.mem o.str 0 o.str = 0 := if_pos rfl
  cases hzero.symm.trans hout

/-- Where the buffer goes on to the end of the address space, nothing is stored in the last place
of that. -/
theorem not_writes_high (hbuf : buf < 2 ^ 32) (hsize : size < 2 ^ 32)
    (hhigh : 2 ^ 32 ≤ buf + size) (hround : 0xffffffff ≤ buf + (text fmt args).length) :
    ¬ Writes buf size fmt args := by
  intro h
  have hlast : ∀ mem, (rtVsnprintf mem buf size fmt args).1 0xffffffff = mem 0xffffffff := by
    intro mem
    obtain ⟨o, ho, -, heq⟩ := rtVsnprintf_high mem fmt args hbuf hsize hhigh
    have hsame : o.mem 0xffffffff = mem 0xffffffff := by
      rw [ho]
      apply foldl_store_frame hbuf
      intro k _ hlt
      omega
    rw [heq]
    dsimp only
    split_ifs
    · rw [← hsame]
      apply if_neg
      omega
    · rw [← hsame]
      apply if_neg
      decide
    · exact hsame
  have haddr : (buf + (0xffffffff - buf)) % 2 ^ 32 = 0xffffffff := by omega
  rcases Nat.lt_or_ge (0xffffffff - buf) (min (text fmt args).length (size - 1)) with hlt | hge
  · have hkept := fun mem => h.kept mem (0xffffffff - buf) (by omega) (by omega)
    rw [haddr] at hkept
    have hzero := (hlast _).symm.trans (hkept fun _ => 0)
    have hone := (hlast _).symm.trans (hkept fun _ => 1)
    cases hzero.trans hone.symm
  · have hmin : min (text fmt args).length (size - 1) = 0xffffffff - buf := by omega
    have hterminated := h.terminated fun _ => 1
    rw [hmin, haddr, hlast] at hterminated
    cases hterminated

theorem Writes.length_lt (h : Writes buf size fmt args) : (text fmt args).length < 2 ^ 31 := by
  have hret := h.length fun _ => 0
  have hlt := int32_lt
    ((format (store (if add32 buf size < buf then 0xffffffff else add32 buf size))
      { mem := fun _ => 0, str := buf } fmt args).str - buf)
  have hle : ((text fmt args).length : Int) < 2 ^ 31 := hret ▸ hlt
  omega

/-- `rt_vsnprintf` writes what it is to write exactly when the complete length is an `int` and its
place does not come round. With a size above the length the buffer has the complete output. -/
theorem writes_iff (buf size : Nat) (fmt : List UInt8) (args : Args) (hpos : 0 < size)
    (hbuf : buf < 2 ^ 32) (hsize : size < 2 ^ 32) :
    Writes buf size fmt args ↔ Addressable buf size (text fmt args).length := by
  constructor
  · intro h
    have hlen := h.length_lt
    rcases Nat.lt_or_ge (buf + size) (2 ^ 32) with hlow | hhigh
    · refine ⟨hlen, ?_, fun hge => by omega⟩
      by_contra hround
      exact not_writes_low hpos hbuf hlow hlen (Nat.not_lt.mp hround) h
    · have hend : ¬ 0xffffffff ≤ buf + (text fmt args).length :=
        fun hround => not_writes_high hbuf hsize hhigh hround h
      exact ⟨hlen, by omega, fun _ => by omega⟩
  · exact fun h => h.writes hpos hbuf hsize

/-- Five characters are cut to three. -/
theorem writes_iff_hello :
    Writes 4096 4 [ch 'h', ch 'e', ch 'l', ch 'l', ch 'o'] (fun _ => ⟨0, []⟩) ↔
      Addressable 4096 4 (text [ch 'h', ch 'e', ch 'l', ch 'l', ch 'o'] fun _ => ⟨0, []⟩).length :=
  writes_iff 4096 4 _ _ (by decide) (by decide) (by decide)

/-- `"%*c!"`. -/
def wide : List UInt8 := [ch '%', ch '*', ch 'c', ch '!']

theorem getSpec_wide (args : Args) (h : (args 0).word.toInt = 2147483647) :
    getSpec [ch '*', ch 'c', ch '!'] args =
      ({ flags := .none, fieldWidth := 2147483647, precision := -1, qualifier := 0 },
        [ch 'c', ch '!'], args.rest) := by
  have hflags : processFlags .none [ch '*', ch 'c', ch '!'] =
      (.none, [ch '*', ch 'c', ch '!']) := rfl
  have hwidth : getFieldWidth .none [ch '*', ch 'c', ch '!'] args =
      (2147483647, .none, [ch 'c', ch '!'], args.rest) := by
    unfold getFieldWidth
    rw [h]
    rfl
  unfold getSpec
  rw [hflags]
  dsimp only
  rw [hwidth]
  rfl

theorem text_wide (args : Args) (h : (args 0).word.toInt = 2147483647) :
    (text wide args).length = 2 ^ 31 := by
  have hrest : ∀ spec, (convert append [] spec [ch 'c', ch '!'] args.rest).2 =
      ([ch '!'], args.rest.rest) := fun _ => rfl
  have hchar : ∀ spec, (convert append [] spec [ch 'c', ch '!'] args.rest).1 =
      printChar append [] spec (.ofNat (args 1).word.toNat) := fun _ => rfl
  have hfirst : (int32 2147483646).toNat = 2147483646 := by decide
  have hlast : (int32 (countWidth 2147483647 - 1)).toNat = 0 := by decide
  unfold wide
  rw [text_percent, getSpec_wide args h]
  dsimp only
  rw [hrest, hchar, text_literal (by decide) (by decide), text_nil]
  simpa [printChar, Flags.none, hlast, pad_append, append] using hfirst

/-- A character in the widest field and one behind it: the length is no `int`. -/
theorem wide_not_written : ¬ Writes 0x20000000 16 wide (fun _ => ⟨2147483647, []⟩) := by
  intro h
  have hlt := h.length_lt
  rw [text_wide _ (by decide)] at hlt
  exact lt_irrefl _ hlt

end

end RtKernel.Print

import RtKernel.Core.Strings
import RtKernel.Print.Buffer

/-!
# The string that a buffer has

Where its place does not come round, `rt_vsnprintf` writes as much of the output as there is room
for, and a terminator. Whatever else it does, a byte that it stores does not depend on what was
there, and it leaves two memories alike that were.
-/

open List

namespace RtKernel.Print

section

variable {stop : Nat} {o o' : Out} {a : Nat}

/-- Characters before the end of the address space. -/
theorem foldl_store_eq (l : List UInt8) (hend : o.str + l.length < 2 ^ 32) :
    l.foldl (store stop) o =
      { mem := overwritten o.mem o.str (l.take (stop - o.str)), str := o.str + l.length } := by
  induction l generalizing o with
  | nil => rw [take_nil, overwritten_nil]; rfl
  | cons c l ih =>
    rw [length_cons] at hend
    have hstr : add32 o.str 1 = o.str + 1 := add32_eq (by omega)
    have hnext : (store stop o c).str = o.str + 1 := hstr
    rw [foldl_cons, ih (by rw [hnext]; omega), hnext, length_cons]
    by_cases hlt : o.str < stop
    · have hmem : (store stop o c).mem = store8 o.mem o.str c := if_pos hlt
      have htake : stop - o.str = stop - (o.str + 1) + 1 := by omega
      rw [hmem, overwritten_cons, htake, take_succ_cons, Nat.add_right_comm, Nat.add_assoc]
    · have hmem : (store stop o c).mem = o.mem := if_neg hlt
      have hnone : stop - o.str = 0 := by omega
      have hnone' : stop - (o.str + 1) = 0 := by omega
      rw [hmem, hnone, hnone', take_zero, take_zero, overwritten_nil, overwritten_nil,
        Nat.add_right_comm, Nat.add_assoc]

theorem store8_alike {mem mem' : Nat → UInt8} {a b : Nat} {v : UInt8} (h : mem a = mem' a) :
    store8 mem b v a = store8 mem' b v a := by
  unfold store8
  rw [h]

/-- Two memories, with the place in each. -/
def Out.Alike (a : Nat) (o o' : Out) : Prop := o.str = o'.str ∧ o.mem a = o'.mem a

theorem store_alike {c : UInt8} (hstr : o.str = o'.str)
    (h : o.mem a = o'.mem a ∨ o.str = a ∧ a < stop) :
    Out.Alike a (store stop o c) (store stop o' c) := by
  refine ⟨congrArg (add32 · 1) hstr, ?_⟩
  unfold store
  rw [← hstr]
  rcases h with hsame | ⟨rfl, hlt⟩
  · split_ifs
    · exact store8_alike hsame
    · exact hsame
  · rw [if_pos hlt, if_pos hlt]
    exact (if_pos rfl).trans (if_pos rfl).symm

theorem foldl_store_alike (l : List UInt8) (h : Out.Alike a o o') :
    Out.Alike a (l.foldl (store stop) o) (l.foldl (store stop) o') := by
  induction l generalizing o o' with
  | nil => exact h
  | cons c l ih => exact ih (store_alike h.1 (.inl h.2))

theorem foldl_store_hit (o o' : Out) {l : List UInt8} {k : Nat} (hk : k < l.length)
    (hlow : o.str < 2 ^ 32) (hstr : o.str = o'.str) (hstop : (o.str + k) % 2 ^ 32 < stop) :
    Out.Alike ((o.str + k) % 2 ^ 32) (l.foldl (store stop) o) (l.foldl (store stop) o') := by
  induction l generalizing o o' k with
  | nil => cases hk
  | cons c l ih =>
    cases k with
    | zero =>
      have hat : (o.str + 0) % 2 ^ 32 = o.str := Nat.mod_eq_of_lt hlow
      rw [hat] at hstop ⊢
      exact foldl_store_alike l (store_alike hstr (.inr ⟨rfl, hstop⟩))
    | succ k =>
      have hnext : (store stop o c).str = (o.str + 1) % 2 ^ 32 := rfl
      have hat : (o.str + (k + 1)) % 2 ^ 32 = ((store stop o c).str + k) % 2 ^ 32 := by
        omega
      rw [hat] at hstop ⊢
      exact ih _ _ (Nat.lt_of_succ_lt_succ hk) (hnext ▸ Nat.mod_lt _ (by decide))
        (congrArg (add32 · 1) hstr) hstop

end

section

variable {buf size : Nat} {fmt : List UInt8} {args : Args} {mem mem' : Nat → UInt8} {a : Nat}

/-- The end that the loop stores before. -/
def stopOf (buf size : Nat) : Nat := if add32 buf size < buf then 0xffffffff else add32 buf size

/-- The size that the terminator is stored for. -/
def roomOf (buf size : Nat) : Nat := if add32 buf size < buf then sub32 0xffffffff buf else size

theorem rtVsnprintf_out (mem : Nat → UInt8) (buf size : Nat) (fmt : List UInt8) (args : Args) :
    ∃ o : Out, o = (text fmt args).foldl (store (stopOf buf size)) { mem, str := buf } ∧
      rtVsnprintf mem buf size fmt args =
        (if 0 < roomOf buf size then
          if o.str < stopOf buf size then store8 o.mem o.str 0
          else store8 o.mem (sub32 (stopOf buf size) 1) 0
        else o.mem, int32 (o.str - buf)) := by
  refine ⟨_, rfl, ?_⟩
  unfold rtVsnprintf
  dsimp only
  rw [format_eq]
  rfl

/-- The terminator leaves two memories alike that were. -/
theorem rtVsnprintf_alike_of
    (h : Out.Alike a ((text fmt args).foldl (store (stopOf buf size)) { mem, str := buf })
      ((text fmt args).foldl (store (stopOf buf size)) { mem := mem', str := buf })) :
    (rtVsnprintf mem buf size fmt args).1 a = (rtVsnprintf mem' buf size fmt args).1 a := by
  obtain ⟨o, ho, heq⟩ := rtVsnprintf_out mem buf size fmt args
  obtain ⟨o', ho', heq'⟩ := rtVsnprintf_out mem' buf size fmt args
  rw [← ho, ← ho'] at h
  rw [heq, heq', ← h.1]
  split_ifs
  · exact store8_alike h.2
  · exact store8_alike h.2
  · exact h.2

theorem rtVsnprintf_alike (buf size : Nat) (fmt : List UInt8) (args : Args) (h : mem a = mem' a) :
    (rtVsnprintf mem buf size fmt args).1 a = (rtVsnprintf mem' buf size fmt args).1 a :=
  rtVsnprintf_alike_of (foldl_store_alike _ ⟨rfl, h⟩)

theorem int32_neg {n : Nat} (hlow : 2 ^ 31 ≤ n) (hhigh : n < 2 ^ 32) : int32 n < 0 := by
  unfold int32
  simp only [Int.bmod_def]
  omega

/-- The value to return does not depend on the memory. -/
theorem rtVsnprintf_snd (mem : Nat → UInt8) (hbuf : buf < 2 ^ 32) (size : Nat) (fmt : List UInt8)
    (args : Args) : (rtVsnprintf mem buf size fmt args).2 = int32 (text fmt args).length := by
  obtain ⟨o, ho, heq⟩ := rtVsnprintf_out mem buf size fmt args
  have hstr : o.str = (buf + (text fmt args).length) % 2 ^ 32 := by
    rw [ho, foldl_store_str hbuf]
  rw [heq, hstr]
  unfold int32
  simp only [Int.bmod_def]
  omega

/-- The output, cut where the buffer ends. -/
def cut (size : Nat) (t : List UInt8) : List UInt8 := t.take (size - 1) ++ [0]

theorem rtVsnprintf_fst (mem : Nat → UInt8) (hpos : 0 < size) (hend : buf + size < 2 ^ 32)
    (hlen : buf + (text fmt args).length < 2 ^ 32) :
    (rtVsnprintf mem buf size fmt args).1 = overwritten mem buf (cut size (text fmt args)) := by
  obtain ⟨o, ho, hstr, heq⟩ := rtVsnprintf_low mem fmt args (by omega) hend
  rw [foldl_store_eq _ hlen] at ho
  have hroom : buf + size - buf = size := Nat.add_sub_cancel_left ..
  rw [heq, if_pos hpos, ho]
  dsimp only
  rw [hroom]
  unfold cut
  split_ifs with hlt
  · rw [take_of_length_le (show (text fmt args).length ≤ size by omega),
      take_of_length_le (show (text fmt args).length ≤ size - 1 by omega),
      store8_eq_overwritten, overwritten_append]
  · rw [sub32_eq (by omega) hend]
    have hat : buf + size - 1 = buf + ((text fmt args).take (size - 1)).length := by
      rw [length_take]
      omega
    have hget : (text fmt args).take size =
        (text fmt args).take (size - 1) ++ [(text fmt args)[size - 1]] := by
      rw [take_append_getElem]
      congr 1
      omega
    funext a
    rw [hget, ← overwritten_append, ← overwritten_append, ← hat, ← store8_eq_overwritten,
      ← store8_eq_overwritten]
    unfold store8
    split_ifs
    · rfl
    · rfl

theorem rtVsnprintf_none (mem : Nat → UInt8) (buf : Nat) (fmt : List UInt8) (args : Args)
    (hbuf : buf < 2 ^ 32) (hend : buf + (text fmt args).length ≤ 2 ^ 32) :
    (rtVsnprintf mem buf 0 fmt args).1 = mem := by
  have hadd : add32 buf 0 = buf := add32_eq hbuf
  have hstop : stopOf buf 0 = buf := by rw [stopOf, hadd, if_neg (lt_irrefl buf)]
  have hroom : roomOf buf 0 = 0 := by rw [roomOf, hadd, if_neg (lt_irrefl buf)]
  obtain ⟨o, ho, heq⟩ := rtVsnprintf_out mem buf 0 fmt args
  rw [heq, hroom, if_neg (lt_irrefl 0), ho]
  funext a
  apply foldl_store_frame hbuf
  intro k hk hlt
  dsimp only at hlt
  omega

theorem rtVsnprintf_whole (mem : Nat → UInt8)
    (h : Addressable buf size (text fmt args).length) (hbuf : buf < 2 ^ 32) (hsize : size < 2 ^ 32)
    (hfits : (text fmt args).length < size) : rtVsnprintf mem buf size fmt args =
      (overwritten mem buf (text fmt args ++ [0]), ((text fmt args).length : Int)) := by
  obtain ⟨stop, -, hstop, heq⟩ := h.eq (by omega) hbuf hsize mem
  have hlast := hstop ((text fmt args).length - 1)
  rw [heq, foldl_store_eq _ h.2.1, Nat.min_eq_left (by omega)]
  dsimp only
  rw [take_of_length_le (by omega), store8_eq_overwritten, overwritten_append]

/-- A place that the output or its terminator comes to has what it is given. -/
theorem rtVsnprintf_hit (mem mem' : Nat → UInt8) (size : Nat) (fmt : List UInt8) (args : Args)
    {k : Nat} (hbuf : buf < 2 ^ 32) (hk : k ≤ (text fmt args).length)
    (hstop : (buf + k) % 2 ^ 32 < stopOf buf size)
    (hroom : k = (text fmt args).length → 0 < roomOf buf size) :
    (rtVsnprintf mem buf size fmt args).1 ((buf + k) % 2 ^ 32) =
      (rtVsnprintf mem' buf size fmt args).1 ((buf + k) % 2 ^ 32) := by
  rcases Nat.lt_or_eq_of_le hk with hlt | rfl
  · exact rtVsnprintf_alike_of
      (foldl_store_hit { mem, str := buf } { mem := mem', str := buf } hlt hbuf rfl hstop)
  · have hzero : ∀ m, (rtVsnprintf m buf size fmt args).1
        ((buf + (text fmt args).length) % 2 ^ 32) = 0 := by
      intro m
      obtain ⟨o, ho, heq⟩ := rtVsnprintf_out m buf size fmt args
      have hstr : o.str = (buf + (text fmt args).length) % 2 ^ 32 := by
        rw [ho, foldl_store_str hbuf]
      rw [heq, if_pos (hroom rfl), hstr, if_pos hstop]
      exact if_pos rfl
    rw [hzero, hzero]

end

end RtKernel.Print

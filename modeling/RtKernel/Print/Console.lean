import RtKernel.Print.Buffer

/-!
# Output to the console

`rt_kprintf` formats into a buffer of its own, and hands to the console device as many
bytes of it as the complete length says, or what it takes for all of the buffer.
-/

open List

namespace RtKernel.Print

/-- `RT_CONSOLEBUF_SIZE`. -/
def rtConsolebufSize : Nat := 128

/-- Where the output goes: to the console device with its length, or, where there is none, to
`rt_hw_console_output`. -/
inductive Handed
  | write (bytes : List UInt8)
  | output (str : Nat)
  deriving DecidableEq

/-- `rt_kprintf`: the memory, what is handed on and the value to return. -/
def rtKprintf (mem : Nat → UInt8) (console : Bool) (rtLogBuf : Nat) (fmt : List UInt8)
    (args : Args) : (Nat → UInt8) × Handed × Nat :=
  let (mem, result) := rtVsnprintf mem rtLogBuf (rtConsolebufSize - 1) fmt args
  let length := (result % 2 ^ 32).toNat
  let length := if length > rtConsolebufSize - 1 then rtConsolebufSize - 1 else length
  let handed :=
    if console then .write ((List.range length).map fun i => mem (rtLogBuf + i))
    else .output rtLogBuf
  (mem, handed, length)

/-- The characters that the buffer has room for before the terminator. -/
def capacity : Nat := rtConsolebufSize - 2

/-- The device is handed as much of the output as the buffer has room for, and no terminator. -/
def Handed.Exactly (handed : Handed) (t : List UInt8) : Prop :=
  handed = .write (t.take capacity) ∧ 0 ∉ t.take capacity

/-- The output fits and has no character `0`; or its length has come round to the one that fits, and
it ends as it begins. -/
def Fits (t : List UInt8) : Prop :=
  let n := min t.length capacity
  t.length % 2 ^ 32 = n ∧ t.drop (t.length - n) = t.take n ∧ 0 ∉ t.take n

section

variable {rtLogBuf : Nat} {fmt : List UInt8} {args : Args}

theorem length_mod (buf n : Nat) :
    (int32 (((buf + n) % 2 ^ 32 : Nat) - buf) % 2 ^ 32).toNat = n % 2 ^ 32 := by
  unfold int32
  simp only [Int.bmod_def]
  omega

/-- What is handed to the device, before the lengths are compared. -/
theorem rtKprintf_write (mem : Nat → UInt8) (hbuf : rtLogBuf + rtConsolebufSize ≤ 2 ^ 32) :
    ∃ bytes, (rtKprintf mem true rtLogBuf fmt args).2.1 = .write bytes ∧
      ((text fmt args).length % 2 ^ 32 ≤ capacity →
        bytes = (text fmt args).drop
          ((text fmt args).length - (text fmt args).length % 2 ^ 32)) ∧
      (capacity < (text fmt args).length % 2 ^ 32 → bytes.length = capacity + 1) := by
  have hsize : rtConsolebufSize - 1 = 127 := rfl
  have hcap : capacity = 126 := rfl
  obtain ⟨o, ho, hstr, heq⟩ := @rtVsnprintf_low rtLogBuf 127 mem fmt args (by omega)
    (by omega)
  obtain ⟨t, ht⟩ : ∃ t, t = text fmt args := ⟨_, rfl⟩
  obtain ⟨n, hn⟩ : ∃ n, n = t.length % 2 ^ 32 := ⟨_, rfl⟩
  rw [← ht] at ho hstr
  have hlen : (int32 (o.str - rtLogBuf) % 2 ^ 32).toNat = n := by
    rw [hstr, length_mod, hn]
  unfold rtKprintf
  rw [hsize, heq]
  dsimp only
  rw [hlen, ← ht, ← hn, hcap]
  refine ⟨_, rfl, fun hfits => ?_, fun hlong => ?_⟩
  · have hplace : o.str = rtLogBuf + n := by omega
    have hroom : o.str < rtLogBuf + 127 := by omega
    have hless : ¬ n > 127 := by omega
    rw [if_neg hless, if_pos (by decide : 0 < 127), if_pos hroom, hplace]
    apply ext_getElem
    · rw [length_map, length_range, length_drop]
      omega
    · intro i hi _
      rw [length_map, length_range] at hi
      have haddr : (rtLogBuf + (t.length - n + i)) % 2 ^ 32 = rtLogBuf + i := by omega
      have hchar := @foldl_store_mem (rtLogBuf + 127) { mem, str := rtLogBuf }
        (show rtLogBuf < 2 ^ 32 by omega) t (t.length - n + i) (by omega) (by omega)
        (show (rtLogBuf + (t.length - n + i)) % 2 ^ 32 < _ by omega)
      rw [haddr, ← ho] at hchar
      rw [getElem_map, getElem_range, getElem_drop, ← hchar]
      apply if_neg
      omega
  · rw [length_map, length_range]
    split_ifs
    · rfl
    · omega

/-- The console device is handed exactly the output that fits when the whole output fits. -/
theorem rtKprintf_exactly (mem : Nat → UInt8) (rtLogBuf : Nat) (fmt : List UInt8) (args : Args)
    (hbuf : rtLogBuf + rtConsolebufSize ≤ 2 ^ 32) :
    (rtKprintf mem true rtLogBuf fmt args).2.1.Exactly (text fmt args) ↔ Fits (text fmt args) := by
  obtain ⟨bytes, hwrite, hfits, hlong⟩ := @rtKprintf_write rtLogBuf fmt args mem hbuf
  obtain ⟨t, ht⟩ : ∃ t, t = text fmt args := ⟨_, rfl⟩
  rw [← ht] at hfits hlong ⊢
  have htake : t.take capacity = t.take (min t.length capacity) := by
    rw [Nat.min_comm, List.take_eq_take_min]
  unfold Handed.Exactly Fits
  dsimp only
  rw [hwrite, Handed.write.injEq, htake]
  rcases Nat.lt_or_ge capacity (t.length % 2 ^ 32) with hlt | hge
  · refine iff_of_false (fun h => ?_) (fun h => ?_)
    · have hlength := hlong hlt
      rw [h.1, List.length_take] at hlength
      omega
    · omega
  · have hle := Nat.mod_le t.length (2 ^ 32)
    rw [hfits hge]
    constructor
    · rintro ⟨heq, hzero⟩
      have hlength := congrArg List.length heq
      rw [List.length_drop, List.length_take] at hlength
      have hmod : t.length % 2 ^ 32 = min t.length capacity := by omega
      refine ⟨hmod, ?_, hzero⟩
      rw [← hmod] at heq ⊢
      exact heq
    · rintro ⟨hmod, heq, hzero⟩
      rw [hmod]
      exact ⟨heq, hzero⟩

/-- A short line. -/
theorem rtKprintf_exactly_ok :
    (rtKprintf (fun _ => 0) true 4096 [ch 'o', ch 'k'] fun _ => ⟨0, []⟩).2.1.Exactly
        (text [ch 'o', ch 'k'] fun _ => ⟨0, []⟩) ↔
      Fits (text [ch 'o', ch 'k'] fun _ => ⟨0, []⟩) :=
  rtKprintf_exactly (fun _ => 0) 4096 [ch 'o', ch 'k'] (fun _ => ⟨0, []⟩) (by decide)

/-- A line of 127 characters. -/
def longLine : List UInt8 := List.replicate 127 (ch 'a')

/-- The last byte that is handed to the device is the terminator. -/
theorem longLine_not_exactly : ∃ bytes,
    (rtKprintf (fun _ => 0) true 4096 longLine fun _ => ⟨0, []⟩).2.1 = .write bytes ∧
      bytes.getLast? = some 0 ∧
      ¬ (rtKprintf (fun _ => 0) true 4096 longLine fun _ => ⟨0, []⟩).2.1.Exactly
        (text longLine fun _ => ⟨0, []⟩) := by
  have hwrite : (rtKprintf (fun _ => 0) true 4096 longLine fun _ => ⟨0, []⟩).2.1 =
      .write (List.replicate 126 (ch 'a') ++ [0]) := by
    decide +kernel
  refine ⟨_, hwrite, rfl, fun h => ?_⟩
  have hbytes := Handed.write.inj (hwrite.symm.trans h.1)
  have hlength := congrArg List.length hbytes
  rw [List.length_append, List.length_replicate, List.length_singleton, List.length_take] at hlength
  have hcap : capacity = 126 := rfl
  omega

end

end RtKernel.Print

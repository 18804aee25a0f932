import RtKernel.Mem.Strings
import RtKernel.Print.Format

/-!
# Reading strings up to a bound

Which addresses the readers of bounded strings load, in order. An array that is full up to the bound
has no terminator there, as the name of a kernel object.
-/

open List

namespace RtKernel.Print

open Kservice

/-- What the loop loads that measures a string. -/
def measureLoads (fieldWidth : Int) (len : Nat) : List UInt8 → List Nat
  | [] => if len ≠ fieldWidth then [len] else []
  | c :: s =>
    if len ≠ fieldWidth then len :: if c ≠ 0 then measureLoads fieldWidth (len + 1) s else []
    else []

/-- The case `s`: what is loaded of the argument to measure it, and to print it. -/
def printStringLoads (spec : Spec) (arg : Arg) : List Nat :=
  if arg.word = 0 then []
  else
    let len := measure spec.fieldWidth 0 arg.text
    let len := if 0 < spec.precision ∧ spec.precision < len then spec.precision.toNat else len
    (measureLoads spec.fieldWidth 0 arg.text ++ List.range len).map (arg.word.toNat + ·)

/-- What a conversion loads of a string. -/
def convertLoads (fmt : List UInt8) (args : Args) : List Nat :=
  let (spec, rest, args) := getSpec fmt args
  match rest with
  | c :: _ => if c = ch 's' then printStringLoads spec (args 0) else []
  | [] => []

/-- Characters in memory, of which none of the first `n` is a terminator; the next one is that
behind `length` characters. -/
structure CharArray where
  mem : Nat → UInt8
  addr : Nat
  length : Nat
  n : Nat
  nonNull : 0 < addr
  inside : addr + length < 2 ^ 32
  chars : ∀ i < length, mem (addr + i) ≠ 0
  terminator : mem (addr + length) = 0
  full : n ≤ length

namespace CharArray

def text (s : CharArray) : List UInt8 := (List.range s.length).map fun i => s.mem (s.addr + i)

/-- The arguments of `%.*s`. -/
def args (s : CharArray) : Args
  | 0 => { word := .ofNat 32 s.n, text := [] }
  | _ + 1 => { word := .ofNat 32 s.addr, text := s.text }

end CharArray

/-- The readers that have a bound; the other string of a comparison, and where a copy goes. -/
inductive Reader
  | strnlen
  | strncmp (ct : Nat)
  | strncpy (dst : Nat)
  | vsnprintf

namespace Reader

/-- What is loaded of an array, with its bound. -/
def loads (s : CharArray) : Reader → List Nat
  | .strnlen => (rtStrnlen s.mem s.addr s.n).2
  | .strncmp ct => (rtStrncmp s.mem 0 s.addr ct s.n).2
  | .strncpy dst => (rtStrncpy s.mem dst s.addr s.n).2
  | .vsnprintf => convertLoads [ch '.', ch '*', ch 's'] s.args

end Reader

/-- The bound is tested when the character there has been loaded. -/
theorem mem_rtStrnlen (mem : Nat → UInt8) (sc n : Nat) (h : ∀ i < n, mem (sc + i) ≠ 0) :
    sc + n ∈ (rtStrnlen mem sc n).2 := by
  induction n generalizing sc with
  | zero => exact mem_singleton_self sc
  | succ n ih =>
    have hfirst : mem sc ≠ 0 := h 0 (Nat.succ_pos n)
    have hnext : sc + (n + 1) = sc + 1 + n := by omega
    rw [rtStrnlen, if_pos hfirst, hnext]
    refine .tail _ (ih (sc + 1) fun i hi => ?_)
    rw [Nat.add_assoc, Nat.add_comm 1 i]
    exact h (i + 1) (Nat.succ_lt_succ hi)

theorem rtStrncmp_lt (mem : Nat → UInt8) (res : Int8) (cs ct n : Nat) :
    ∀ a ∈ (rtStrncmp mem res cs ct n).2, a < cs + n := by
  induction n generalizing res cs ct with
  | zero => exact forall_mem_nil _
  | succ n ih =>
    have hcs : cs < cs + (n + 1) := by omega
    have hnext : cs + (n + 1) = cs + 1 + n := by omega
    rw [rtStrncmp]
    split_ifs
    · exact forall_mem_singleton.mpr hcs
    · exact forall_mem_cons.mpr ⟨hcs, forall_mem_singleton.mpr hcs⟩
    · refine forall_mem_cons.mpr ⟨hcs, forall_mem_cons.mpr ⟨hcs, ?_⟩⟩
      rw [hnext]
      exact ih _ _ _

theorem rtStrncpy_lt (mem : Nat → UInt8) (d s n : Nat) :
    ∀ a ∈ (rtStrncpy mem d s n).2, a < s + n := by
  induction n generalizing mem d s with
  | zero => exact forall_mem_nil _
  | succ n ih =>
    have hs : s < s + (n + 1) := by omega
    have hnext : s + (n + 1) = s + 1 + n := by omega
    rw [rtStrncpy]
    split_ifs
    · exact forall_mem_singleton.mpr hs
    · refine forall_mem_cons.mpr ⟨hs, ?_⟩
      rw [hnext]
      exact ih _ _ _

/-- Without a field width a string is measured up to its terminator, which is loaded. -/
theorem mem_measureLoads {s : List UInt8} (hs : ∀ c ∈ s, c ≠ 0) (len : Nat) {k : Nat}
    (hk : k ≤ s.length) : len + k ∈ measureLoads (-1) len s := by
  have hlen : (len : Int) ≠ -1 := by omega
  induction s generalizing len k with
  | nil =>
    obtain rfl : k = 0 := Nat.le_zero.mp hk
    exact mem_singleton_self len
  | cons c s ih =>
    obtain ⟨hc, hrest⟩ := forall_mem_cons.mp hs
    rw [measureLoads, if_pos hlen, if_pos hc]
    cases k with
    | zero => exact .head _
    | succ k =>
      have hnext : len + (k + 1) = len + 1 + k := by omega
      rw [hnext]
      exact .tail _ (ih hrest (len + 1) (Nat.le_of_succ_le_succ hk) (by omega))

namespace CharArray

section

variable (s : CharArray)
include s

theorem text_ne_zero : ∀ c ∈ s.text, c ≠ 0 := by
  intro c hc
  obtain ⟨i, hi, rfl⟩ := mem_map.mp hc
  exact s.chars i (mem_range.mp hi)

theorem length_text : s.text.length = s.length := by
  rw [text, length_map, length_range]

theorem toNat_addr : (BitVec.ofNat 32 s.addr).toNat = s.addr := by
  have hinside := s.inside
  rw [BitVec.toNat_ofNat, Nat.mod_eq_of_lt (by omega)]

theorem getSpec_args : ∃ precision, getSpec [ch '.', ch '*', ch 's'] s.args =
      ({ flags := .none, fieldWidth := -1, precision := precision, qualifier := 0 }, [ch 's'],
        s.args.rest) := ⟨_, rfl⟩

theorem mem_loads_vsnprintf : s.addr + s.n ∈ Reader.vsnprintf.loads s := by
  obtain ⟨precision, hspec⟩ := s.getSpec_args
  have hword : (s.args.rest 0).word ≠ 0 := by
    intro hzero
    have haddr := congrArg BitVec.toNat hzero
    have hpos := s.nonNull
    rw [show (s.args.rest 0).word = BitVec.ofNat 32 s.addr from rfl, s.toNat_addr] at haddr
    exact Nat.ne_of_gt hpos haddr
  have hmeasured := mem_measureLoads s.text_ne_zero 0 (k := s.n)
    (by rw [s.length_text]; exact s.full)
  unfold Reader.loads convertLoads
  rw [hspec]
  dsimp only
  unfold printStringLoads
  rw [if_neg hword]
  refine mem_map.mpr ⟨s.n, mem_append_left _ ?_, congrArg (· + s.n) s.toNat_addr⟩
  rw [Nat.zero_add] at hmeasured
  exact hmeasured

end

end CharArray

/-- Of the readers only `rt_strncmp` and `rt_strncpy` load nothing of an array behind the bound, and
the others always do where none of the characters before it is a terminator. -/
theorem loads_bounded_iff (s : CharArray) (r : Reader) :
    (∀ a ∈ r.loads s, a < s.addr + s.n) ↔ (∃ ct, r = .strncmp ct) ∨ ∃ dst, r = .strncpy dst := by
  cases r with
  | strnlen =>
    refine iff_of_false (fun h => ?_) (by simp)
    have hfull := s.full
    exact absurd (h _ (mem_rtStrnlen s.mem s.addr s.n fun i hi => s.chars i (by omega))) (by omega)
  | strncmp ct => exact iff_of_true (rtStrncmp_lt s.mem 0 s.addr ct s.n) (.inl ⟨ct, rfl⟩)
  | strncpy dst => exact iff_of_true (rtStrncpy_lt s.mem dst s.addr s.n) (.inr ⟨dst, rfl⟩)
  | vsnprintf =>
    refine iff_of_false (fun h => ?_) (by simp)
    exact absurd (h _ s.mem_loads_vsnprintf) (by omega)

/-- A name of `RT_NAME_MAX` characters, and what is behind it. -/
def fullName : CharArray where
  mem a := if a < 108 then ch 'n' else 0
  addr := 100
  length := 8
  n := 8
  nonNull := by decide
  inside := by decide
  chars := by decide
  terminator := rfl
  full := le_rfl

/-- The character behind a full name is loaded by `rt_strnlen` and by `%.*s`. -/
theorem fullName_loads : 108 ∈ Reader.strnlen.loads fullName ∧
    108 ∈ Reader.vsnprintf.loads fullName ∧ ¬ ∀ s r, ∀ a ∈ Reader.loads s r, a < s.addr + s.n := by
  have hlen : 108 ∈ Reader.strnlen.loads fullName := by decide
  refine ⟨hlen, by decide, fun h => ?_⟩
  exact absurd (h fullName .strnlen 108 hlen) (by decide)

end RtKernel.Print

import RtKernel.Ulog.HexLines

/-!
# What is logged stays in its buffer

The three ways to put a line together, with what each may be asked for. Whatever is in the memory, a
request is to come to an end, to write in the log buffer only, and to pass on the lengths of the
strings that it leaves there.
-/

namespace RtKernel.LogLine

open Print

inductive Request
  | formater (level : Nat) (tag : CString) (newline : Bool) (fmt : List UInt8) (args : Args)
  | raw (fmt : List UInt8) (args : Args)
  | hexdump (d : Dump)

namespace Request

/-- The memory after a request, and the lines that are passed on. -/
def run (b : Build) (e : Env) (turns : Nat) (mem : Nat → UInt8) :
    Request → Option ((Nat → UInt8) × List Line)
  | formater level tag newline fmt args =>
    (ulogFormater b e (getLogBuf b e) mem level tag newline fmt args).map fun s => (s.mem, [s])
  | raw fmt args => (ulogRaw b e (getLogBuf b e) mem fmt args).map fun s => (s.mem, [s])
  | hexdump d =>
    (ulogHexdump b e (getLogBuf b e) d turns mem).map fun h => (h.line.mem, h.passed)

/-- A request comes to an end, and has done what it is to do. -/
def Kept (b : Build) (e : Env) (r : Request) : Prop :=
  ∃ turns, ∀ mem, ∃ after passed, r.run b e turns mem = some (after, passed) ∧
    Ends b e mem after passed

/-- When a request does what it is to do. -/
def Fits (b : Build) (e : Env) : Request → Prop
  | formater level tag _ fmt args => FormaterFits b e level tag fmt args
  | raw fmt args => RawFits b e fmt args
  | hexdump d => HexFits b e d

variable {b : Build} {e : Env} {fmt : List UInt8} {args : Args}

theorem exists_line_iff {o : Option Line} {mem : Nat → UInt8} :
    (∃ after passed, o.map (fun s => (s.mem, [s])) = some (after, passed) ∧
      Ends b e mem after passed) ↔ ∃ s, o = some s ∧ Ends b e mem s.mem [s] := by
  constructor
  · rintro ⟨after, passed, heq, hends⟩
    obtain ⟨s, hs, hpair⟩ := Option.map_eq_some_iff.mp heq
    cases hpair
    exact ⟨s, hs, hends⟩
  · rintro ⟨s, hs, hends⟩
    exact ⟨s.mem, [s], by rw [hs]; rfl, hends⟩

theorem kept_formater_iff {level : Nat} {tag : CString} {newline : Bool} :
    Kept b e (formater level tag newline fmt args) ↔ FormaterFits b e level tag fmt args := by
  constructor
  · rintro ⟨turns, h⟩
    exact formaterFits_of_kept fun mem => exists_line_iff.mp (h mem)
  · exact fun h => ⟨0, fun mem => exists_line_iff.mpr (h.kept newline mem)⟩

theorem kept_raw_iff : Kept b e (raw fmt args) ↔ RawFits b e fmt args := by
  constructor
  · rintro ⟨turns, h⟩
    exact rawFits_of_kept fun mem => exists_line_iff.mp (h mem)
  · exact fun h => ⟨0, fun mem => exists_line_iff.mpr (h.kept mem)⟩

theorem kept_hexdump_iff {d : Dump} : Kept b e (hexdump d) ↔ HexFits b e d := by
  constructor
  · rintro ⟨turns, h⟩
    apply hexFits_of_kept turns
    intro mem
    obtain ⟨after, passed, heq, hends⟩ := h mem
    obtain ⟨r, hr, hpair⟩ := Option.map_eq_some_iff.mp heq
    cases hpair
    exact ⟨r, hr, hends⟩
  · intro h
    obtain ⟨turns, hturns⟩ := h.kept
    refine ⟨turns, fun mem => ?_⟩
    obtain ⟨r, hr, hends⟩ := hturns mem
    exact ⟨r.line.mem, r.passed, congrArg (Option.map _) hr, hends⟩

/-- A request does what it is to do exactly when what it puts together fits. -/
theorem kept_iff_fits (b : Build) (e : Env) (r : Request) : r.Kept b e ↔ r.Fits b e := by
  cases r with
  | formater level tag newline fmt args => exact kept_formater_iff
  | raw fmt args => exact kept_raw_iff
  | hexdump d => exact kept_hexdump_iff

end Request

/-- The default size, with all that may come before a message. -/
def fullBuild : Build where
  usingColor := true
  usingIsrLog := true
  usingSoftRtc := false
  timeUsingTimestamp := false
  outputTime := true
  outputLevel := true
  outputTag := true
  outputThreadName := true
  lineBufSize := 128
  logBufTh := 0x20000000
  logBufIsr := 0x20000100
  more := by decide
  less := by decide
  thNonNull := by decide
  isrNonNull := by decide
  thRoom := by decide
  isrRoom := by decide

/-- A thread logs whose name has four letters. -/
def mainEnv : Env where
  initOk := true
  filtered := false
  nest := 0
  self := some ⟨[ch 'm', ch 'a', ch 'i', ch 'n'], by decide, by decide⟩
  tick := 1000
  tm := { tmMon := 0, tmMday := 1, tmHour := 0, tmMin := 0, tmSec := 0 }
  msec := none

/-- A tag of `n` letters. -/
def longTag (n : Nat) (h : n < 2 ^ 32) : CString :=
  ⟨List.replicate n (ch 'T'), by
    rw [List.mem_replicate]
    exact fun hmem => absurd hmem.2 (by decide), by
    rw [List.length_replicate]
    exact h⟩

/-- A tag as long as the line, and then the name: what follows is written behind the buffer. -/
theorem longTag_not_kept :
    ¬ (Request.formater 6 (longTag 128 (by decide)) true [ch 'h', ch 'i'] fun _ => ⟨0, []⟩).Kept
      fullBuild mainEnv := by
  intro h
  have hname := (Request.kept_formater_iff.mp h).name
  have hlength : 128 ≤ (beforeName fullBuild mainEnv 6 (longTag 128 (by decide))).length := by
    have htag : (tagText fullBuild (longTag 128 (by decide))).length = 128 := List.length_replicate
    unfold beforeName
    rw [List.length_append, List.length_append, htag]
    omega
  have hclip : (clip fullBuild (beforeName fullBuild mainEnv 6 (longTag 128 (by decide)))).length =
      128 := List.length_take_of_le hlength
  have hnamed : (named fullBuild mainEnv 6 (longTag 128 (by decide))).length = 128 + 4 :=
    List.length_append.trans (congrArg (· + 4) hclip)
  rw [hnamed] at hname
  exact absurd hname (by decide)

end RtKernel.LogLine

import Mathlib.Data.UInt
import RtKernel.Core.Run

/-!
# The realtime clock

The clock is an offset to the ticks. `clock_settime` and `clock_gettime` do not agree on how the
ticks of a broken second count, and `clock_gettime` reads the tick as an `int`. `time_t` is wider
than 32 bits and not bounded here; the clock device and the other clocks are left out.
-/

namespace RtKernel.Libc

/-- `RT_TICK_PER_SECOND`. -/
def tickPerSecond : Nat := 1000

/-- `MICROSECOND_PER_TICK`. -/
def microsecondPerTick : Nat := 1000

/-- `MICROSECOND_PER_SECOND`. -/
def microsecondPerSecond : Nat := 1000000

/-- `struct timeval`. -/
structure Timeval where
  tvSec : Int
  tvUsec : Int

/-- `struct timespec`. -/
structure Timespec where
  tvSec : Int
  tvNsec : Int
  deriving DecidableEq

/-- An `int` or a `long` with these low bits. -/
def int32 (x : Int) : Int := x.bmod (2 ^ 32)

/-- `_rt_clock_time_system_init`; the device may have no time. -/
def clockTimeSystemInit (time : Option Int) (tick : UInt32) : Timeval :=
  match time with
  | some time =>
    { tvUsec := (tick.toNat % tickPerSecond * microsecondPerTick : Nat)
      tvSec := time - (tick.toNat / tickPerSecond : Nat) - 1 }
  | none => { tvUsec := 0, tvSec := 0 }

/-- `clock_settime`: the difference is computed in unsigned 32-bit arithmetic. -/
def clockSettime (tvSec : Int) (tick : UInt32) : Timeval :=
  let second := int32 tvSec
  { tvUsec := microsecondPerSecond - (tick.toNat % tickPerSecond * microsecondPerTick : Nat)
    tvSec := (second - (tick.toNat / tickPerSecond : Nat) - 1) % 2 ^ 32 }

/-- `clock_gettime`. -/
def clockGettime (timevalue : Timeval) (tick : UInt32) : Timespec :=
  let tick := int32 tick.toNat
  { tvSec := timevalue.tvSec + tick.tdiv tickPerSecond
    tvNsec := int32 ((timevalue.tvUsec + tick.tmod tickPerSecond * microsecondPerTick) * 1000) }

/-- The nanoseconds since 1970. -/
def Timespec.nanos (t : Timespec) : Int := t.tvSec * 10 ^ 9 + t.tvNsec

/-- Where the time that is read comes from. -/
inductive Origin where
  | start (time : Option Int)
  | set (second : Int)

/-- The clock and the tick; what it was set to, and at which tick, and the ticks since then. -/
structure ClockSystem where
  timevalue : Timeval
  tick : UInt32
  origin : Origin
  first : UInt32
  elapsed : Nat

namespace ClockSystem

variable {s s' : ClockSystem}

def Init (s : ClockSystem) : Prop := ∃ time tick,
  s = ⟨clockTimeSystemInit time tick, tick, .start time, tick, 0⟩

inductive Action where
  | ticks (n : Nat)
  | settime (second : Int)

def exec (s : ClockSystem) : Action → ClockSystem
  | .ticks n => { s with tick := s.tick + n.toUInt32, elapsed := s.elapsed + n }
  | .settime second =>
    { s with
      timevalue := clockSettime second s.tick
      origin := .set second
      first := s.tick
      elapsed := 0 }

def Step (s : ClockSystem) (a : Action) (s' : ClockSystem) : Prop := s.exec a = s'

/-- What `clock_gettime` is to return, in nanoseconds. -/
def due (s : ClockSystem) : Int :=
  (match s.origin with
    | .start time => (clockGettime (clockTimeSystemInit time s.first) s.first).nanos
    | .set second => second * 10 ^ 9) + s.elapsed * 10 ^ 6

/-- The nanoseconds are those of a broken second, and the time is the one that is due. -/
def Reads (s : ClockSystem) : Prop :=
  let t := clockGettime s.timevalue s.tick
  (0 ≤ t.tvNsec ∧ t.tvNsec < 10 ^ 9) ∧ t.nanos = s.due

end ClockSystem

/-- How often 2^32 is lost where a number is taken for an `int`. -/
def lost (x : Int) : Int := (x + 2 ^ 31) / 2 ^ 32

theorem int32_eq (x : Int) : int32 x = x - 2 ^ 32 * lost x := by
  unfold int32 lost Int.bmod
  dsimp only
  split_ifs <;> omega

/-- The ticks of the broken second, which are not positive where the tick is negative. -/
def broken (tick : Int) : Int := (int32 tick).tmod tickPerSecond

theorem broken_bounds (tick : Int) : -1000 < broken tick ∧ broken tick < 1000 :=
  ⟨Int.lt_tmod_of_pos _ (by decide), Int.tmod_lt_of_pos _ (by decide)⟩

/-- The tick is read as seconds and the ticks of a broken second, whatever its sign. -/
theorem clockGettime_eq {timevalue : Timeval} (hlow : 0 ≤ timevalue.tvUsec)
    (hhigh : timevalue.tvUsec ≤ 1000000) (tick : UInt32) :
    (clockGettime timevalue tick).tvNsec = (timevalue.tvUsec + broken tick.toNat * 1000) * 1000 ∧
      (clockGettime timevalue tick).nanos =
        timevalue.tvSec * 10 ^ 9 + timevalue.tvUsec * 1000 + int32 tick.toNat * 10 ^ 6 := by
  have hbounds := broken_bounds tick.toNat
  have hnsec : (clockGettime timevalue tick).tvNsec =
      (timevalue.tvUsec + broken tick.toNat * 1000) * 1000 := by
    change int32 ((timevalue.tvUsec + broken tick.toNat * 1000) * 1000) = _
    have hlost : lost ((timevalue.tvUsec + broken tick.toNat * 1000) * 1000) = 0 := by
      unfold lost
      omega
    rw [int32_eq, hlost]
    exact Int.sub_zero _
  have hparts : (int32 tick.toNat).tdiv 1000 * 1000 + broken tick.toNat = int32 tick.toNat :=
    Int.tdiv_mul_add_tmod _ 1000
  refine ⟨hnsec, ?_⟩
  unfold Timespec.nanos
  change (timevalue.tvSec + (int32 tick.toNat).tdiv 1000) * 10 ^ 9 + _ = _
  omega

theorem clockTimeSystemInit_usec (time : Option Int) (tick : UInt32) :
    0 ≤ (clockTimeSystemInit time tick).tvUsec ∧
      (clockTimeSystemInit time tick).tvUsec ≤ 1000000 := by
  cases time with
  | none => exact ⟨Int.le_refl 0, (by decide : (0 : Int) ≤ 1000000)⟩
  | some time =>
    have husec : (clockTimeSystemInit (some time) tick).tvUsec = tick.toNat % 1000 * 1000 := rfl
    omega

theorem clockSettime_usec (second : Int) (tick : UInt32) :
    0 ≤ (clockSettime second tick).tvUsec ∧ (clockSettime second tick).tvUsec ≤ 1000000 := by
  have husec : (clockSettime second tick).tvUsec = 1000000 - tick.toNat % 1000 * 1000 := rfl
  omega

namespace ClockSystem

variable {s s' : ClockSystem}

/-- The tick and the clock are what they came to be since the clock was set. -/
structure Inv (s : ClockSystem) : Prop where
  tick : int32 s.tick.toNat = int32 (s.first.toNat + s.elapsed)
  timevalue : s.timevalue = match s.origin with
    | .start time => clockTimeSystemInit time s.first
    | .set second => clockSettime second s.first

theorem Inv.of_init (h : Init s) : Inv s := by
  obtain ⟨time, tick, rfl⟩ := h
  exact ⟨rfl, rfl⟩

theorem Inv.step {a : Action} (h : Inv s) (hstep : Step s a s') : Inv s' := by
  obtain rfl : s.exec a = s' := hstep
  cases a with
  | ticks n =>
    refine ⟨?_, h.timevalue⟩
    have htick := h.tick
    change int32 (s.tick + n.toUInt32).toNat = int32 (s.first.toNat + (s.elapsed + n : Nat))
    rw [UInt32.toNat_add]
    rw [int32_eq, int32_eq] at *
    unfold lost at *
    have hn : n.toUInt32.toNat = n % 2 ^ 32 := rfl
    omega
  | settime second => exact ⟨rfl, rfl⟩

/-- The tick has not turned negative since the clock was set, and the ticks of the second broken
now and of the one broken then come to less than a second, in the formulas of the source. -/
def Meets (s : ClockSystem) : Prop :=
  let first : Int := s.first.toNat
  let now := first + s.elapsed
  match s.origin with
  | .start (some _) =>
    lost now = lost first ∧ 0 ≤ first % 1000 + broken now ∧ first % 1000 + broken now < 1000
  | .start none => lost now = lost first ∧ 0 ≤ broken now
  | .set second =>
    lost now + 1000 * ((second - first / 1000 - 1) / 2 ^ 32) = 0 ∧
      broken now < first % 1000 ∧ first % 1000 ≤ broken now + 1000

theorem Inv.reads_iff (h : Inv s) : Reads s ↔ Meets s := by
  have hbroken : broken s.tick.toNat = broken (s.first.toNat + s.elapsed) := by
    unfold broken
    rw [h.tick]
  have hbounds := broken_bounds (s.first.toNat + s.elapsed)
  have htv := h.timevalue
  have htick := h.tick
  obtain ⟨timevalue, tick, origin, first, elapsed⟩ := s
  dsimp only at *
  unfold Reads Meets due
  cases origin with
  | start time =>
    subst htv
    dsimp only
    obtain ⟨hlow, hhigh⟩ := clockTimeSystemInit_usec time first
    obtain ⟨hnsec, hnanos⟩ := clockGettime_eq hlow hhigh tick
    rw [hnanos, (clockGettime_eq hlow hhigh first).2, htick, int32_eq, int32_eq]
    cases time with
    | none =>
      have husec : (clockTimeSystemInit none first).tvUsec = 0 := rfl
      constructor <;> intro hread <;> omega
    | some time =>
      have husec : (clockTimeSystemInit (some time) first).tvUsec = first.toNat % 1000 * 1000 := rfl
      constructor <;> intro hread <;> omega
  | set second =>
    subst htv
    dsimp only
    obtain ⟨hlow, hhigh⟩ := clockSettime_usec second first
    obtain ⟨hnsec, hnanos⟩ := clockGettime_eq hlow hhigh tick
    have husec : (clockSettime second first).tvUsec = 1000000 - first.toNat % 1000 * 1000 := rfl
    have hsec : (clockSettime second first).tvSec =
      (int32 second - first.toNat / 1000 - 1) % 2 ^ 32 := rfl
    rw [hnanos, htick, int32_eq, hsec, int32_eq]
    constructor <;> intro hread <;> omega

/-- The clock of a system that has started at tick zero, and is set to the second 100. -/
def atOnce : ClockSystem := ⟨clockSettime 100 0, 0, .set 100, 0, 0⟩

/-- It reads 99 seconds, and all the nanoseconds of another one. -/
theorem clockGettime_atOnce : Reachable Init Step atOnce ∧
    clockGettime atOnce.timevalue atOnce.tick = ⟨99, 10 ^ 9⟩ ∧ ¬ Reads atOnce := by
  refine ⟨?_, by decide, fun hno => absurd hno.1.2 (by decide)⟩
  have hinit : Init ⟨clockTimeSystemInit none 0, 0, .start none, 0, 0⟩ := ⟨none, 0, rfl⟩
  exact (Reachable.start hinit).next (show Step _ (.settime 100) atOnce from rfl)

/-- `clock_gettime` reads the time that is due where the tick is not negative and its broken second
ends before the one of the tick at which the clock was set, and nowhere else. -/
theorem reachable_clockGettime (h : Reachable Init Step s) : Reads s ↔ Meets s := by
  have hinv : Inv s :=
    h.invariant (fun _ hs => Inv.of_init hs) fun _ _ _ _ hinv hstep => hinv.step hstep
  exact hinv.reads_iff

/-- The clock is set at the last tick of the first second, and read at the next tick. -/
theorem reachable_clockGettime_nextTick :
    Reads ⟨clockSettime 100 999, 1000, .set 100, 999, 1⟩ := by
  have hinit : Init ⟨clockTimeSystemInit none 999, 999, .start none, 999, 0⟩ := ⟨none, 999, rfl⟩
  have hset := (Reachable.start hinit).next
    (show Step _ (.settime 100) ⟨clockSettime 100 999, 999, .set 100, 999, 0⟩ from rfl)
  have hnext := hset.next
    (show Step _ (.ticks 1) ⟨clockSettime 100 999, 1000, .set 100, 999, 1⟩ from rfl)
  exact (reachable_clockGettime hnext).mpr ⟨by decide, by decide, by decide⟩

end ClockSystem

end RtKernel.Libc

import RtKernel.Libc.Clock

/-!
# Waiting until a time

`rt_timespec_to_tick` takes the clock from an absolute time and turns the difference into ticks. The
seconds and the rest are multiplied in 32 bits each.
-/

namespace RtKernel.Libc

/-- `NANOSECOND_PER_SECOND`. -/
def nanosecondPerSecond : Nat := 1000000000

/-- `rt_timespec_to_tick`, where the clock reads `tp`. The division is one of unsigned numbers. -/
def rtTimespecToTick (tp time : Timespec) : Int :=
  let borrow := int32 (time.tvNsec - tp.tvNsec) < 0
  let nsecond :=
    if borrow then int32 (nanosecondPerSecond - int32 (tp.tvNsec - time.tvNsec))
    else int32 (time.tvNsec - tp.tvNsec)
  let second :=
    if borrow then int32 (time.tvSec - tp.tvSec - 1) else int32 (time.tvSec - tp.tvSec)
  let tick := int32 (int32 (second * tickPerSecond) +
    int32 (nsecond * tickPerSecond) % 2 ^ 32 / nanosecondPerSecond)
  if tick < 0 then 0 else tick

/-- The ticks from one time to another. -/
def ticksUntil (tp time : Timespec) : Int := (time.nanos - tp.nanos) / 10 ^ 6

/-- What `rt_timespec_to_tick` is to return, where an `int` can be that. -/
def Waits (tp time : Timespec) : Prop :=
  max 0 (ticksUntil tp time) < 2 ^ 31 → rtTimespecToTick tp time = max 0 (ticksUntil tp time)

/-- The seconds between two times, where the nanoseconds may need one of them. -/
def seconds (tp time : Timespec) : Int :=
  if time.tvNsec < tp.tvNsec then time.tvSec - tp.tvSec - 1 else time.tvSec - tp.tvSec

/-- The rest, in nanoseconds. -/
def rest (tp time : Timespec) : Int :=
  if time.tvNsec < tp.tvNsec then time.tvNsec - tp.tvNsec + 10 ^ 9 else time.tvNsec - tp.tvNsec

/-- The ticks that are left of the rest where its product loses multiples of `2 ^ 32`. -/
def restTicks (tp time : Timespec) : Int := rest tp time * 1000 % 2 ^ 32 / 10 ^ 9

/-- In the future the rest is less than about 4.3 milliseconds; now, it is not negative; and in the
past the ticks do not come to more than half a turn of 32 bits. -/
def Converts (tp time : Timespec) : Prop :=
  if 0 < ticksUntil tp time then
    ticksUntil tp time < 2 ^ 31 → 0 ≤ rest tp time ∧ rest tp time * 1000 < 2 ^ 32
  else if ticksUntil tp time = 0 then 0 ≤ rest tp time
  else (-(seconds tp time * 1000 + restTicks tp time)) % 2 ^ 32 ≤ 2 ^ 31

theorem int32_congr {x y : Int} (h : x % 2 ^ 32 = y % 2 ^ 32) : int32 x = int32 y := by
  rw [int32_eq, int32_eq]
  unfold lost
  omega

theorem int32_self {x : Int} (hlow : -2 ^ 31 ≤ x) (hhigh : x < 2 ^ 31) : int32 x = x := by
  rw [int32_eq]
  unfold lost
  omega

theorem int32_emod (x : Int) : int32 x % 2 ^ 32 = x % 2 ^ 32 := by
  rw [int32_eq]
  omega

section

variable {tp time : Timespec}

theorem ticksUntil_eq : ticksUntil tp time = seconds tp time * 1000 + rest tp time / 10 ^ 6 := by
  unfold ticksUntil seconds rest Timespec.nanos
  split_ifs <;> omega

/-- Seconds that are not a number of 32 bits lose the same in the product. -/
theorem int32_ticks (second ticks : Int) :
    int32 (int32 (int32 second * tickPerSecond) + ticks) = int32 (second * 1000 + ticks) := by
  apply int32_congr
  have hsecond := int32_emod second
  have hproduct := int32_emod (int32 second * tickPerSecond)
  have htick : int32 second * tickPerSecond = int32 second * 1000 := rfl
  omega

theorem rest_bounds (hlow : -10 ^ 9 < tp.tvNsec) (hhigh : tp.tvNsec < 2 * 10 ^ 9)
    (hnonneg : 0 ≤ time.tvNsec) (hlt : time.tvNsec < 10 ^ 9) :
    -10 ^ 9 < rest tp time ∧ rest tp time < 2 * 10 ^ 9 := by
  unfold rest
  split_ifs <;> omega

/-- Where both numbers of nanoseconds are small, the result depends on the seconds and the rest. -/
theorem rtTimespecToTick_eq (hlow : -10 ^ 9 < tp.tvNsec) (hhigh : tp.tvNsec < 2 * 10 ^ 9)
    (hnonneg : 0 ≤ time.tvNsec) (hlt : time.tvNsec < 10 ^ 9) :
    rtTimespecToTick tp time = max 0 (int32 (seconds tp time * 1000 + restTicks tp time)) := by
  have hdiff : int32 (time.tvNsec - tp.tvNsec) = time.tvNsec - tp.tvNsec :=
    int32_self (by omega) (by omega)
  have hback : int32 (tp.tvNsec - time.tvNsec) = tp.tvNsec - time.tvNsec :=
    int32_self (by omega) (by omega)
  have hmax : ∀ tick : Int, (if tick < 0 then 0 else tick) = max 0 tick := by
    intro tick
    split_ifs <;> omega
  have hrest : ∀ nsecond : Int, int32 (nsecond * tickPerSecond) % 2 ^ 32 / nanosecondPerSecond =
      nsecond * 1000 % 2 ^ 32 / 10 ^ 9 := fun nsecond => by rw [int32_emod]; rfl
  unfold rtTimespecToTick restTicks seconds rest
  rw [hdiff, hback, hmax, hrest]
  by_cases hless : time.tvNsec < tp.tvNsec
  · have hneg : time.tvNsec - tp.tvNsec < 0 := by omega
    have hborrowed : int32 (nanosecondPerSecond - (tp.tvNsec - time.tvNsec)) =
        time.tvNsec - tp.tvNsec + 10 ^ 9 := by
      change int32 (1000000000 - (tp.tvNsec - time.tvNsec)) = _
      rw [int32_self (by omega) (by omega)]
      omega
    rw [if_pos hneg, if_pos hneg, if_pos hless, if_pos hless, hborrowed, int32_ticks]
  · have hneg : ¬ time.tvNsec - tp.tvNsec < 0 := by omega
    rw [if_neg hneg, if_neg hneg, if_neg hless, if_neg hless, int32_ticks]

/-- Up to four ticks are left of a rest, and they are all of it where the product is in range. -/
theorem restTicks_bounds (tp time : Timespec) : 0 ≤ restTicks tp time ∧ restTicks tp time ≤ 4 := by
  unfold restTicks
  omega

theorem restTicks_eq_iff (hlow : -10 ^ 9 < rest tp time) (hhigh : rest tp time < 2 * 10 ^ 9) :
    restTicks tp time = rest tp time / 10 ^ 6 ↔
      0 ≤ rest tp time ∧ rest tp time * 1000 < 2 ^ 32 := by
  unfold restTicks
  omega

theorem restTicks_le_iff (hlow : -10 ^ 9 < rest tp time) (hhigh : rest tp time < 2 * 10 ^ 9) :
    restTicks tp time ≤ rest tp time / 10 ^ 6 ↔ 0 ≤ rest tp time := by
  unfold restTicks
  omega

theorem waits_iff (hlow : -10 ^ 9 < tp.tvNsec) (hhigh : tp.tvNsec < 2 * 10 ^ 9)
    (hnonneg : 0 ≤ time.tvNsec) (hlt : time.tvNsec < 10 ^ 9) :
    Waits tp time ↔ Converts tp time := by
  obtain ⟨hrestlow, hresthigh⟩ := rest_bounds hlow hhigh hnonneg hlt
  have heq := restTicks_eq_iff hrestlow hresthigh
  have hle := restTicks_le_iff hrestlow hresthigh
  have hbounds := restTicks_bounds tp time
  unfold Waits Converts
  rw [rtTimespecToTick_eq hlow hhigh hnonneg hlt, int32_eq, ticksUntil_eq]
  unfold lost
  split_ifs with hfuture hnow
  · constructor
    · intro hwaits hless
      omega
    · intro hrest hless
      omega
  · constructor
    · intro hwaits
      omega
    · intro hrest hless
      omega
  · constructor
    · intro hwaits
      omega
    · intro hpast hless
      omega

end

open ClockSystem

/-- The microseconds of the clock are those of one second, and the nanoseconds that are read those
of two at most. -/
theorem ClockSystem.Inv.tvNsec_bounds {s : ClockSystem} (h : Inv s) :
    -10 ^ 9 < (clockGettime s.timevalue s.tick).tvNsec ∧
      (clockGettime s.timevalue s.tick).tvNsec < 2 * 10 ^ 9 := by
  have husec : 0 ≤ s.timevalue.tvUsec ∧ s.timevalue.tvUsec ≤ 1000000 := by
    have htimevalue := h.timevalue
    cases horigin : s.origin with
    | start time =>
      rw [horigin] at htimevalue
      rw [htimevalue]
      exact clockTimeSystemInit_usec time s.first
    | set second =>
      rw [horigin] at htimevalue
      rw [htimevalue]
      exact clockSettime_usec second s.first
  have hbroken := broken_bounds s.tick.toNat
  rw [(clockGettime_eq husec.1 husec.2 s.tick).1]
  omega

/-- The result is the exact one where neither product overflows, which that of the nanoseconds does
for most parts of a second. -/
theorem reachable_rtTimespecToTick {s : ClockSystem} (h : Reachable Init Step s) {time : Timespec}
    (hnonneg : 0 ≤ time.tvNsec) (hlt : time.tvNsec < 10 ^ 9) :
    Waits (clockGettime s.timevalue s.tick) time ↔
      Converts (clockGettime s.timevalue s.tick) time := by
  have hinv : Inv s :=
    h.invariant (fun _ hs => Inv.of_init hs) fun _ _ _ _ hinv hstep => hinv.step hstep
  obtain ⟨hlow, hhigh⟩ := hinv.tvNsec_bounds
  exact waits_iff hlow hhigh hnonneg hlt

/-- A system that has started without a clock, at tick zero. -/
def atStart : ClockSystem := ⟨clockTimeSystemInit none 0, 0, .start none, 0, 0⟩

theorem atStart_reachable : Reachable Init Step atStart := Reachable.start ⟨none, 0, rfl⟩

/-- Three milliseconds, with a tick of one. -/
theorem rtTimespecToTick_threeMilliseconds :
    Waits (clockGettime atStart.timevalue atStart.tick) ⟨5, 3000000⟩ ∧
      rtTimespecToTick (clockGettime atStart.timevalue atStart.tick) ⟨5, 3000000⟩ = 5003 :=
  ⟨(reachable_rtTimespecToTick atStart_reachable (by decide) (by decide)).mpr
    (by unfold Converts; decide), by decide⟩

/-- A wait for half a second is one of a tick. -/
theorem rtTimespecToTick_half : ∃ s time, Reachable Init Step s ∧ 0 ≤ time.tvNsec ∧
    time.tvNsec < 10 ^ 9 ∧ ticksUntil (clockGettime s.timevalue s.tick) time = 500 ∧
    rtTimespecToTick (clockGettime s.timevalue s.tick) time = 1 ∧
    ¬ Waits (clockGettime s.timevalue s.tick) time := by
  refine ⟨atStart, ⟨0, 500000000⟩, atStart_reachable, by decide, by decide, by decide, by decide,
    ?_⟩
  intro hwaits
  exact absurd (hwaits (by decide)) (by decide)

end RtKernel.Libc

import RtKernel.Core.Calendar

/-!
# Broken-down times

`gmtime_r` counts the years from 1970 on; `timegm` carries what exceeds a field into the next one
and computes the days of the years at once. `int` and `time_t` are not bounded, null pointers and
`errno` are left out, and months are not negative.
-/

namespace RtKernel.Libc

/-- `struct tm`. -/
@[ext]
structure Tm where
  tmSec : Int
  tmMin : Int
  tmHour : Int
  tmMday : Int
  tmMon : Nat
  tmYear : Int
  tmWday : Int
  tmYday : Int
  tmIsdst : Int
  deriving DecidableEq

/-- `SPD`. -/
def spd : Int := 24 * 60 * 60

/-- `__spm`. -/
def spm (i : Nat) : Int :=
  [0, 31, 59, 90, 120, 151, 181, 212, 243, 273, 304, 334, 365].getD i 0

theorem spm_succ_ge {i : Nat} (hi : i < 12) : 31 ≤ spm (i + 1) := by
  interval_cases i <;> decide

/-- `__isleap`. -/
def isLeap (year : Int) : Bool := year % 4 = 0 && (year % 100 ≠ 0 || year % 400 = 0)

def tzIsDst : Int := 0

def yearDays (i : Int) : Int := if isLeap i then 366 else 365

theorem yearDays_pos (i : Int) : 0 < yearDays i := by
  unfold yearDays
  split_ifs <;> decide

/-- The loop over the years: the year, and the days that are left. -/
def yearOf (i work : Int) : Int × Int :=
  if work ≥ yearDays i then yearOf (i + 1) (work - yearDays i) else (i, work)
termination_by work.toNat
decreasing_by
  have hpos := yearDays_pos i
  omega

/-- The loop over the months, from one down. -/
def monthOf (work : Int) : Nat → Nat
  | 0 => 0
  | i + 1 => if spm (i + 1) > work then monthOf work i else i + 1

def gmtimeR (timep : Int) : Tm :=
  let work := timep.tmod spd
  let days := timep.tdiv spd
  let (i, yday) := yearOf 1970 days
  let late := isLeap i ∧ yday > 58
  -- the 29th of February
  let first := if late ∧ yday = 59 then 2 else 1
  let rest := if late then yday - 1 else yday
  let mon := monthOf rest 11
  { tmSec := work.tmod 60
    tmMin := (work.tdiv 60).tmod 60
    tmHour := (work.tdiv 60).tdiv 60
    tmMday := first + (rest - spm mon)
    tmMon := mon
    tmYear := i - 1900
    tmWday := (4 + days).tmod 7
    tmYday := yday
    tmIsdst := tzIsDst }

/-- Seconds, minutes and hours in excess; a leap second is left. -/
def carryTime (t : Tm) : Tm :=
  let t := if t.tmSec > 60 then
    { t with tmMin := t.tmMin + t.tmSec.tdiv 60, tmSec := t.tmSec.tmod 60 } else t
  let t := if t.tmMin ≥ 60 then
    { t with tmHour := t.tmHour + t.tmMin.tdiv 60, tmMin := t.tmMin.tmod 60 } else t
  if t.tmHour ≥ 24 then
    { t with tmMday := t.tmMday + t.tmHour.tdiv 24, tmHour := t.tmHour.tmod 24 } else t

/-- The loop over the months: the year, the month and the day of the month. -/
def carryDays (year : Int) (mon : Nat) (mday : Int) (_hmon : mon < 12) :
    Int × Nat × Int :=
  if mday > spm (1 + mon) then
    let mday := if mon = 1 ∧ isLeap (year + 1900) then mday - 1 else mday
    if h : mon < 11 then carryDays year (mon + 1) (mday - spm mon) (Nat.succ_lt_succ h)
    else carryDays (year + 1) 0 (mday - spm mon) (by decide)
  else (year, mon, mday)
termination_by 12 * mday.toNat + (11 - mon)
decreasing_by
  all_goals
    have hlimit := spm_succ_ge _hmon
    have hless : mon = 0 ∧ spm mon = 0 ∨ 31 ≤ spm mon := by
      cases mon with
      | zero => exact .inl ⟨rfl, rfl⟩
      | succ mon => exact .inr (spm_succ_ge (Nat.lt_of_succ_lt _hmon))
    rw [Nat.add_comm 1] at *
    split_ifs <;> omega

/-- The days of the years since 1970. -/
def daysSince (years : Int) : Int :=
  let day := years * 365 + (years + 1).tdiv 4
  if years ≥ 131 then
    -- `years >> 2` and `years & 3`
    let centuries := (years - 131).tdiv 100
    let rest := centuries % 4
    day - (centuries / 4 * 3 + 1) - (if rest = 3 then rest - 1 else rest)
  else day

/-- What is returned, and what the structure is after the call. -/
def timegm (t : Tm) : Int × Tm :=
  let years := t.tmYear - 70
  let t := carryTime t
  let year := if t.tmMon ≥ 12 then t.tmYear + (t.tmMon / 12 : Nat) else t.tmYear
  let mon := if t.tmMon ≥ 12 then t.tmMon % 12 else t.tmMon
  have hmon : mon < 12 := by
    dsimp only [mon]
    split <;> omega
  let (year, mon, mday) := carryDays year mon t.tmMday hmon
  let t := { t with tmYear := year, tmMon := mon, tmMday := mday }
  if year < 70 then (-1, t)
  else
    let yday := spm mon + mday - 1 + (if isLeap (year + 1900) ∧ mon > 1 then 1 else 0)
    let day := daysSince years + yday
    (((day * 24 + t.tmHour) * 60 + t.tmMin) * 60 + t.tmSec,
      { t with tmYday := yday, tmWday := (day + 4).tmod 7 })

end RtKernel.Libc

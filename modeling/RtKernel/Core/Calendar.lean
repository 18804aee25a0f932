import Mathlib.Tactic.IntervalCases

/-!
# The Gregorian calendar

Every day has one that follows it, and a day is known by how often one has to go on from the first
day of some year to come to it. Months count from zero, and days of a month from one.
-/

namespace RtKernel.Calendar

/-- Every fourth year, of the centuries only every fourth one. -/
def IsLeap (year : Nat) : Prop := year % 4 = 0 ∧ (year % 100 ≠ 0 ∨ year % 400 = 0)

instance (year : Nat) : Decidable (IsLeap year) := instDecidableAnd

/-- The days of a month. -/
def monthLength (year : Nat) : Nat → Nat
  | 1 => if IsLeap year then 29 else 28
  | 3 | 5 | 8 | 10 => 30
  | _ => 31

def yearLength (year : Nat) : Nat := if IsLeap year then 366 else 365

/-- The days of a year before a month. -/
def daysBefore (year : Nat) : Nat → Nat
  | 0 => 0
  | month + 1 => daysBefore year month + monthLength year month

theorem monthLength_pos (year month : Nat) : 1 ≤ monthLength year month := by
  unfold monthLength
  split
  · split_ifs <;> decide
  all_goals decide

theorem daysBefore_mono (year : Nat) {m n : Nat} (h : m ≤ n) :
    daysBefore year m ≤ daysBefore year n := by
  induction h with
  | refl => exact Nat.le_refl _
  | step _ ih => exact Nat.le_trans ih (Nat.le_add_right _ _)

theorem daysBefore_twelve (year : Nat) : daysBefore year 12 = yearLength year := by
  simp only [daysBefore, monthLength, yearLength]
  split_ifs <;> rfl

/-- A day of some year. -/
structure Date where
  year : Nat
  month : Nat
  day : Nat
  month_lt : month < 12
  day_pos : 1 ≤ day
  day_le : day ≤ monthLength year month

namespace Date

theorem ext {d e : Date} (hyear : d.year = e.year) (hmonth : d.month = e.month)
    (hday : d.day = e.day) : d = e := by
  cases d
  cases e
  cases hyear
  cases hmonth
  cases hday
  rfl

/-- The first day of a month. -/
def newMonth (year month : Nat) (h : month < 12) : Date :=
  ⟨year, month, 1, h, Nat.le_refl _, monthLength_pos year month⟩

/-- The first day of a year. -/
def newYear (year : Nat) : Date := newMonth year 0 (by decide)

/-- The day that follows. -/
def tomorrow (d : Date) : Date :=
  if hday : d.day < monthLength d.year d.month then
    ⟨d.year, d.month, d.day + 1, d.month_lt, Nat.le_add_left _ _, hday⟩
  else if hmonth : d.month < 11 then newMonth d.year (d.month + 1) (Nat.succ_lt_succ hmonth)
  else newYear (d.year + 1)

/-- The day that comes that many days after the start of a year. -/
def after (year n : Nat) : Date := tomorrow^[n] (newYear year)

theorem after_succ (year n : Nat) : after year (n + 1) = (after year n).tomorrow :=
  Function.iterate_succ_apply' ..

/-- The days of the year before this one. -/
def dayOfYear (d : Date) : Nat := daysBefore d.year d.month + (d.day - 1)

end Date

/-- The days of the years from one on. -/
def daysFrom (year : Nat) : Nat → Nat
  | 0 => 0
  | n + 1 => daysFrom year n + yearLength (year + n)

theorem daysFrom_mono (year : Nat) {m n : Nat} (h : m ≤ n) : daysFrom year m ≤ daysFrom year n := by
  induction h with
  | refl => exact Nat.le_refl _
  | step _ ih => exact Nat.le_trans ih (Nat.le_add_right _ _)

/-- The days of the first year, and those of the others. -/
theorem daysFrom_succ (year n : Nat) :
    daysFrom year (n + 1) = yearLength year + daysFrom (year + 1) n := by
  induction n with
  | zero => exact Nat.add_comm 0 (yearLength year)
  | succ n ih =>
    rw [daysFrom, ih, daysFrom, Nat.add_assoc, Nat.add_right_comm year 1 n, Nat.add_assoc year n 1]

namespace Date

variable {d e : Date} {year n : Nat}

/-- The days from the start of a year to this day. -/
def number (year : Nat) (d : Date) : Nat := daysFrom year (d.year - year) + d.dayOfYear

theorem dayOfYear_lt (d : Date) : d.dayOfYear < daysBefore d.year (d.month + 1) := by
  have hpos := d.day_pos
  have hle := d.day_le
  unfold dayOfYear
  rw [daysBefore]
  omega

theorem dayOfYear_lt_yearLength (d : Date) : d.dayOfYear < yearLength d.year :=
  daysBefore_twelve d.year ▸ d.dayOfYear_lt.trans_le (daysBefore_mono d.year d.month_lt)

theorem number_newYear : number year (newYear year) = 0 := by
  unfold number newYear newMonth dayOfYear
  rw [Nat.sub_self]
  rfl

theorem number_tomorrow (hyear : year ≤ d.year) :
    number year d.tomorrow = number year d + 1 ∧ year ≤ d.tomorrow.year := by
  have hpos := d.day_pos
  have hle := d.day_le
  unfold tomorrow
  split_ifs with hday hmonth
  · refine ⟨?_, hyear⟩
    unfold number dayOfYear
    dsimp only
    omega
  · refine ⟨?_, hyear⟩
    unfold number dayOfYear newMonth
    dsimp only
    rw [daysBefore]
    omega
  · have hlast : d.month = 11 := by
      have hlt := d.month_lt
      omega
    have hyearLength := daysBefore_twelve d.year
    rw [daysBefore] at hyearLength
    refine ⟨?_, Nat.le_succ_of_le hyear⟩
    have hnext : (newYear (d.year + 1)).year - year = d.year - year + 1 := by
      unfold newYear newMonth
      dsimp only
      omega
    unfold number
    rw [hnext, daysFrom, Nat.add_sub_cancel' hyear]
    unfold dayOfYear newYear newMonth
    dsimp only
    rw [hlast] at hle hday ⊢
    rw [daysBefore]
    omega

theorem year_le_after (year n : Nat) : year ≤ (after year n).year := by
  induction n with
  | zero => exact Nat.le_refl _
  | succ n ih =>
    rw [after_succ]
    exact (number_tomorrow ih).2

theorem number_after (year n : Nat) : number year (after year n) = n := by
  induction n with
  | zero => exact number_newYear
  | succ n ih => rw [after_succ, (number_tomorrow (year_le_after year n)).1, ih]

/-- Of two days the one in the earlier year has the smaller number. -/
theorem number_lt_of_year (hyear : year ≤ d.year) (hlt : d.year < e.year) :
    number year d < number year e := by
  have hless := d.dayOfYear_lt_yearLength
  have hmono := daysFrom_mono year (show d.year - year + 1 ≤ e.year - year by omega)
  rw [daysFrom, Nat.add_sub_cancel' hyear] at hmono
  unfold number
  omega

/-- Of two days of a year the one in the earlier month comes first. -/
theorem dayOfYear_lt_of_month (hyear : d.year = e.year) (hlt : d.month < e.month) :
    d.dayOfYear < e.dayOfYear := by
  have hmono := daysBefore_mono d.year (show d.month + 1 ≤ e.month from hlt)
  have hless := d.dayOfYear_lt
  unfold dayOfYear at *
  rw [hyear] at *
  omega

theorem number_injective (hd : year ≤ d.year) (he : year ≤ e.year)
    (h : number year d = number year e) : d = e := by
  have hyear : d.year = e.year := by
    rcases Nat.lt_trichotomy d.year e.year with hlt | heq | hgt
    · exact absurd h (number_lt_of_year hd hlt).ne
    · exact heq
    · exact absurd h (number_lt_of_year he hgt).ne'
  have hdays : d.dayOfYear = e.dayOfYear := by
    unfold number at h
    rw [hyear] at h
    exact Nat.add_left_cancel h
  have hmonth : d.month = e.month := by
    rcases Nat.lt_trichotomy d.month e.month with hlt | heq | hgt
    · exact absurd hdays (dayOfYear_lt_of_month hyear hlt).ne
    · exact heq
    · exact absurd hdays (dayOfYear_lt_of_month hyear.symm hgt).ne'
  have hday : d.day = e.day := by
    have hpos := d.day_pos
    have hpos' := e.day_pos
    unfold dayOfYear at hdays
    rw [hyear, hmonth] at hdays
    omega
  exact ext hyear hmonth hday

/-- A day is the one that comes that many days after the start. -/
theorem eq_after (hyear : year ≤ d.year) (h : number year d = n) : d = after year n :=
  number_injective hyear (year_le_after year n) (h.trans (number_after year n).symm)

end Date

end RtKernel.Calendar

import RtKernel.Libc.Ctime

/-!
# Times of the calendar

`gmtime_r` yields the day of the calendar, and `timegm` counts back to where it came from.
-/

namespace RtKernel.Libc

open Calendar

variable {year month n : Nat} {t : Tm} {mon : Nat} {sec : Nat}

theorem isLeap_iff : isLeap (year : Int) = true ↔ IsLeap year := by
  unfold isLeap IsLeap
  rw [Bool.and_eq_true, Bool.or_eq_true, decide_eq_true_iff, decide_eq_true_iff, decide_eq_true_iff]
  omega

theorem yearDays_eq (year : Nat) : yearDays year = yearLength year := by
  unfold yearDays yearLength
  simp only [isLeap_iff]
  split_ifs <;> rfl

/-- The table is the one of the calendar but for the 29th of February. -/
theorem daysBefore_eq (year : Nat) (hmonth : month ≤ 12) :
    (daysBefore year month : Int) = spm month + if 1 < month ∧ IsLeap year then 1 else 0 := by
  by_cases hleap : IsLeap year
  all_goals interval_cases month <;> simp [daysBefore, monthLength, spm, hleap]

/-- The loop over the years ends in the year of the day. -/
theorem yearOf_spec (year n : Nat) : ∃ i rest : Nat,
    yearOf year n = (((year + i : Nat) : Int), (rest : Int)) ∧ daysFrom year i + rest = n ∧
      rest < yearLength (year + i) := by
  induction n using Nat.strong_induction_on generalizing year with
  | h n ih =>
    have hpos := yearDays_pos year
    rw [yearDays_eq] at hpos
    rw [yearOf, yearDays_eq]
    by_cases hless : n < yearLength year
    · refine ⟨0, n, ?_, Nat.zero_add n, hless⟩
      rw [if_neg (by omega), Nat.add_zero]
    · have hrest : (n : Int) - yearLength year = (n - yearLength year : Nat) := by omega
      have hnext : (year : Int) + 1 = (year + 1 : Nat) := rfl
      obtain ⟨i, rest, hyear, hdays, hlt⟩ := ih (n - yearLength year) (by omega) (year + 1)
      rw [if_pos (by omega), hrest, hnext, hyear]
      rw [Nat.add_right_comm] at hlt ⊢
      refine ⟨i + 1, rest, rfl, ?_, hlt⟩
      rw [daysFrom_succ]
      omega

/-- The loop over the months ends in the last one that does not begin later. -/
theorem monthOf_spec (work : Int) (i : Nat) (hwork : 0 ≤ work) :
    monthOf work i ≤ i ∧ spm (monthOf work i) ≤ work ∧
      (monthOf work i = i ∨ work < spm (monthOf work i + 1)) := by
  induction i with
  | zero => exact ⟨Nat.le_refl _, hwork, .inl rfl⟩
  | succ i ih =>
    rw [monthOf]
    split_ifs with hless
    · obtain ⟨hle, hstart, hend⟩ := ih
      refine ⟨Nat.le_succ_of_le hle, hstart, .inr ?_⟩
      rcases hend with hend | hend
      · rw [hend]
        exact hless
      · exact hend
    · exact ⟨Nat.le_refl _, Int.not_lt.mp hless, .inl rfl⟩

/-- The month and the day of the month of a day of a year. -/
theorem monthOf_daysBefore (year : Nat) {yday : Nat} (hyday : yday < yearLength year)
    {rest first : Int}
    (hrest : rest = if isLeap year ∧ (yday : Int) > 58 then (yday : Int) - 1 else yday)
    (hfirst : first = if (isLeap year ∧ (yday : Int) > 58) ∧ (yday : Int) = 59 then 2 else 1) :
    ∃ day, monthOf rest 11 < 12 ∧ 1 ≤ day ∧ day ≤ monthLength year (monthOf rest 11) ∧
      first + (rest - spm (monthOf rest 11)) = (day : Nat) ∧
        daysBefore year (monthOf rest 11) + (day - 1) = yday := by
  have hnonneg : 0 ≤ rest := by
    rw [hrest]
    split_ifs <;> omega
  obtain ⟨hle, hstart, hend⟩ := monthOf_spec rest 11 hnonneg
  have hend' : rest < spm (monthOf rest 11 + 1) := by
    rcases hend with hlast | hless
    · rw [hlast]
      have hyear : yearLength year = if IsLeap year then 366 else 365 := rfl
      have hspm : spm (11 + 1) = 365 := rfl
      simp only [isLeap_iff] at hrest
      rw [hyear] at hyday
      rw [hrest]
      by_cases hleap : IsLeap year
      · simp only [hleap, true_and, if_true] at hyday ⊢
        split_ifs <;> omega
      · simp only [hleap, false_and, if_false] at hyday ⊢
        omega
    · exact hless
  generalize monthOf rest 11 = month at *
  have hbefore := daysBefore_eq year (show month ≤ 12 by omega)
  have hnext := daysBefore_eq year (show month + 1 ≤ 12 by omega)
  rw [daysBefore] at hnext
  simp only [isLeap_iff] at hrest hfirst
  -- where the 29th of February is over a day is taken away, and February is
  have hplace : daysBefore year month ≤ yday ∧
      yday < daysBefore year month + monthLength year month ∧
      first + (rest - spm month) = yday - daysBefore year month + 1 := by
    by_cases hleap : IsLeap year
    · simp only [hleap, true_and, and_true] at hrest hfirst hbefore hnext
      by_cases hmarch : 1 < month
      · have hlate : 59 ≤ spm month := by
          interval_cases month <;> decide
        have hafter : 58 < (yday : Int) := by
          by_contra hno
          omega
        omega
      · rw [if_neg hmarch] at hbefore
        have hearly : month = 0 ∨ month = 1 := by omega
        rcases hearly with rfl | rfl
        · rw [if_neg (by decide)] at hnext
          have hspm : spm (0 + 1) = 31 := rfl
          split_ifs at hrest hfirst <;> omega
        · rw [if_pos (by decide)] at hnext
          have hspm : spm (1 + 1) = 59 := rfl
          split_ifs at hrest hfirst <;> omega
    · simp only [hleap, false_and, and_false, if_false] at hrest hfirst hbefore hnext
      omega
  obtain ⟨hlow, hhigh, hday⟩ := hplace
  exact ⟨yday - daysBefore year month + 1, by omega, by omega, by omega, by omega, by omega⟩

/-- A second of a day; the first day of 1970 is a Thursday. -/
def civil (d : Date) (sec : Nat) : Tm where
  tmSec := (sec % 60 : Nat)
  tmMin := (sec / 60 % 60 : Nat)
  tmHour := (sec / 3600 : Nat)
  tmMday := d.day
  tmMon := d.month
  tmYear := d.year - 1900
  tmWday := ((4 + d.number 1970) % 7 : Nat)
  tmYday := d.dayOfYear
  tmIsdst := 0

/-- `gmtime_r` yields the day that comes so many days after the first one of 1970. -/
theorem gmtimeR_eq (t : Nat) : gmtimeR t = civil (Date.after 1970 (t / 86400)) (t % 86400) := by
  obtain ⟨i, yday, hyearOf, hdays, hyday⟩ := yearOf_spec 1970 (t / 86400)
  obtain ⟨day, hmonth, hday, hlength, hmday, hdayOfYear⟩ := monthOf_daysBefore _ hyday rfl rfl
  generalize hrest :
    (if isLeap (1970 + i : Nat) ∧ (yday : Int) > 58 then (yday : Int) - 1 else yday) = rest at *
  have hd : (⟨1970 + i, monthOf rest 11, day, hmonth, hday, hlength⟩ : Date) =
      Date.after 1970 (t / 86400) := by
    refine Date.eq_after (Nat.le_add_right _ _) ?_
    unfold Date.number Date.dayOfYear
    rw [Nat.add_sub_cancel_left, hdayOfYear, hdays]
  have hnumber := Date.number_after 1970 (t / 86400)
  rw [← hd] at hnumber ⊢
  have hdiv : (t : Int).tdiv spd = (t / 86400 : Nat) := rfl
  have hmod : (t : Int).tmod spd = (t % 86400 : Nat) := rfl
  have hyear : yearOf 1970 ((t / 86400 : Nat) : Int) = (((1970 + i : Nat) : Int), (yday : Int)) :=
    hyearOf
  unfold gmtimeR
  dsimp only
  rw [hdiv, hmod, hyear]
  rw [hrest, hmday]
  unfold civil
  rw [hnumber]
  have hhour : ((t % 86400 : Nat) : Int).tdiv 60 = (t % 86400 / 60 : Nat) := rfl
  have hnoon : ((t % 86400 / 60 : Nat) : Int).tdiv 60 = (t % 86400 / 3600 : Nat) := by
    rw [show t % 86400 / 3600 = t % 86400 / 60 / 60 from (Nat.div_div_eq_div_mul _ 60 60).symm]
    rfl
  have hyday : Date.dayOfYear ⟨1970 + i, monthOf rest 11, day, hmonth, hday, hlength⟩ = yday :=
    hdayOfYear
  rw [hhour, hnoon, hyday]
  rfl

/-- The leap days that 2100 and the centuries after it do not have. -/
def centuryDays (c : Nat) : Nat := c / 4 * 3 + 1 + if c % 4 = 3 then 2 else c % 4

theorem centuryDays_succ (c : Nat) :
    centuryDays (c + 1) = centuryDays c + if (c + 1) % 4 = 3 then 0 else 1 := by
  unfold centuryDays
  split_ifs <;> omega

/-- The leap days that the years from 1970 on do not have. -/
def skipped (n : Nat) : Nat := if 131 ≤ n then centuryDays ((n - 131) / 100) else 0

theorem daysSince_nat (n : Nat) : daysSince n = n * 365 + ((n + 1) / 4 : Nat) - skipped n := by
  have hquarter : ((n : Int) + 1).tdiv 4 = ((n + 1) / 4 : Nat) := rfl
  unfold daysSince skipped centuryDays
  dsimp only
  by_cases hlong : 131 ≤ n
  · have hcentury : ((n : Int) - 131).tdiv 100 = ((n - 131) / 100 : Nat) := by
      rw [show (n : Int) - 131 = (n - 131 : Nat) by omega]
      rfl
    split_ifs <;> omega
  · rw [if_neg hlong]
    omega

theorem skipped_succ (n : Nat) : skipped (n + 1) = skipped n +
    if (1970 + n) % 100 = 0 ∧ (1970 + n) % 400 ≠ 0 ∧ 130 ≤ n then 1 else 0 := by
  unfold skipped
  by_cases hlong : 131 ≤ n
  · rw [if_pos hlong, if_pos (Nat.le_succ_of_le hlong)]
    by_cases hnew : (1970 + n) % 100 = 0
    · rw [show (n + 1 - 131) / 100 = (n - 131) / 100 + 1 by omega, centuryDays_succ]
      split_ifs <;> omega
    · rw [show (n + 1 - 131) / 100 = (n - 131) / 100 by omega, if_neg fun hno => hnew hno.1]
      rfl
  · rw [if_neg hlong]
    rcases Nat.lt_or_ge n 130 with hearly | hlast
    · rw [if_neg (by omega), if_neg (by omega)]
    · obtain rfl : n = 130 := by omega
      rfl

/-- A year more is a leap day more every fourth time, but not in most centuries. -/
theorem yearLength_add (n : Nat) :
    (n + 1) / 4 + skipped (n + 1) + yearLength (1970 + n) = (n + 1 + 1) / 4 + skipped n + 365 := by
  rw [skipped_succ]
  unfold yearLength
  by_cases hfour : (1970 + n) % 4 = 0
  · by_cases hcentury : (1970 + n) % 100 = 0
    · by_cases hleap : (1970 + n) % 400 = 0
      · rw [if_neg fun hno => hno.2.1 hleap, if_pos ⟨hfour, .inr hleap⟩]
        omega
      · rw [if_pos ⟨hcentury, hleap, by omega⟩,
          if_neg fun hno => hno.2.elim (absurd hcentury) hleap]
        omega
    · rw [if_neg fun hno => hcentury hno.1, if_pos ⟨hfour, .inl hcentury⟩]
      omega
  · rw [if_neg (by omega), if_neg fun hno => hfour hno.1]
    omega

theorem daysSince_eq (n : Nat) : daysSince n = daysFrom 1970 n := by
  induction n with
  | zero => decide
  | succ n ih =>
    have hnext := yearLength_add n
    rw [daysSince_nat] at ih ⊢
    rw [daysFrom]
    omega

theorem carryTime_eq (hsec : t.tmSec ≤ 60) (hmin : t.tmMin < 60) (hhour : t.tmHour < 24) :
    carryTime t = t := by
  unfold carryTime
  rw [if_neg (Int.not_lt.mpr hsec)]
  dsimp only
  rw [if_neg (Int.not_le.mpr hmin), if_neg (Int.not_le.mpr hhour)]

/-- So does a day that does not come after the end of its month in the table. -/
theorem carryDays_eq {year mday : Int} (hmon : mon < 12)
    (hmday : mday ≤ spm (1 + mon)) : carryDays year mon mday hmon = (year, mon, mday) := by
  rw [carryDays, if_neg (Int.not_lt.mpr hmday)]

theorem monthLength_le (year : Nat) (hmonth : month < 12) :
    (monthLength year month : Int) ≤ spm (1 + month) := by
  by_cases hfebruary : month = 1
  · subst hfebruary
    unfold monthLength
    split_ifs <;> decide
  · interval_cases month <;> simp [monthLength, spm] at *

theorem dayOfYear_eq (d : Date) :
    (spm d.month + d.day - 1 + if isLeap d.year ∧ d.month > 1 then 1 else 0) = d.dayOfYear := by
  have hpos := d.day_pos
  have hbefore := daysBefore_eq d.year d.month_lt.le
  have hsame : (isLeap d.year ∧ d.month > 1) = (1 < d.month ∧ IsLeap d.year) := by
    rw [isLeap_iff, and_comm]
  unfold Date.dayOfYear
  simp only [hsame]
  omega

theorem carryTime_date (t : Tm) : (carryTime t).tmYear = t.tmYear ∧ (carryTime t).tmMon = t.tmMon ∧
    (carryTime t).tmIsdst = t.tmIsdst := by
  unfold carryTime
  dsimp only
  split_ifs <;> exact ⟨rfl, rfl, rfl⟩

/-- `timegm`, where the loop over the months is known. -/
theorem timegm_eq {year mday : Int}
    (hdays : carryDays (t.tmYear + (t.tmMon / 12 : Nat)) (t.tmMon % 12) (carryTime t).tmMday
      (Nat.mod_lt _ (by decide)) = (year, mon, mday)) (hyear : 70 ≤ year) {yday day : Int}
    (hyday : yday = spm mon + mday - 1 + if isLeap (year + 1900) ∧ mon > 1 then 1 else 0)
    (hday : day = daysSince (t.tmYear - 70) + yday) :
    timegm t = (((day * 24 + (carryTime t).tmHour) * 60 + (carryTime t).tmMin) * 60 +
        (carryTime t).tmSec,
      { carryTime t with
        tmYear := year
        tmMon := mon
        tmMday := mday
        tmYday := yday
        tmWday := (day + 4).tmod 7 }) := by
  obtain ⟨hsameYear, hsameMon, -⟩ := carryTime_date t
  have hcarryYear : (if t.tmMon ≥ 12 then t.tmYear + (t.tmMon / 12 : Nat) else t.tmYear) =
      t.tmYear + (t.tmMon / 12 : Nat) := by
    split_ifs <;> omega
  have hcarryMon : (if t.tmMon ≥ 12 then t.tmMon % 12 else t.tmMon) = t.tmMon % 12 := by
    split_ifs <;> omega
  unfold timegm
  simp only [hsameYear, hsameMon, hcarryYear, hcarryMon, hdays]
  rw [if_neg (Int.not_lt.mpr hyear), ← hyday, ← hday]

/-- `timegm` counts back to a date and a time; the days of the week and of the year do not
matter. -/
theorem timegm_carried (d : Date) (hyear : 1970 ≤ d.year) {wday yday : Int}
    (hcarry : carryTime t = { civil d sec with tmWday := wday, tmYday := yday }) :
    timegm t = (((d.number 1970 * 86400 + sec : Nat) : Int), civil d sec) := by
  obtain ⟨hsameYear, hsameMon, -⟩ := carryTime_date t
  rw [hcarry] at hsameYear hsameMon
  change (d.year : Int) - 1900 = t.tmYear at hsameYear
  have hmonth : d.month % 12 = d.month := Nat.mod_eq_of_lt d.month_lt
  have hcentury : (d.year : Int) - 1900 + 1900 = d.year := Int.sub_add_cancel ..
  have hdays : carryDays (t.tmYear + (t.tmMon / 12 : Nat)) (t.tmMon % 12) (carryTime t).tmMday
      (Nat.mod_lt _ (by decide)) = ((d.year : Int) - 1900, d.month, (d.day : Int)) := by
    have hle : (d.day : Int) ≤ spm (1 + d.month % 12) := by
      rw [hmonth]
      refine (monthLength_le d.year d.month_lt).trans' ?_
      exact_mod_cast d.day_le
    simp only [← hsameYear, ← hsameMon, hcarry]
    unfold civil
    rw [carryDays_eq _ hle, hmonth, Nat.div_eq_of_lt d.month_lt, Int.natCast_zero, Int.add_zero]
  have hyday := dayOfYear_eq d
  rw [← hcentury] at hyday
  have hnumber : ((d.number 1970 : Nat) : Int) = daysSince (t.tmYear - 70) + d.dayOfYear := by
    rw [← hsameYear, show (d.year : Int) - 1900 - 70 = (d.year - 1970 : Nat) by omega, daysSince_eq]
    rfl
  have hweekday : ((d.number 1970 : Int) + 4).tmod 7 = ((4 + d.number 1970) % 7 : Nat) := by
    rw [Int.add_comm]
    rfl
  rw [timegm_eq hdays (by omega) hyday.symm hnumber, hcarry, hweekday]
  refine Prod.ext ?_ rfl
  unfold civil
  dsimp only
  omega

theorem timegm_civil (d : Date) (hyear : 1970 ≤ d.year) (hsec : sec < 86400) :
    timegm (civil d sec) = (((d.number 1970 * 86400 + sec : Nat) : Int), civil d sec) := by
  apply timegm_carried d hyear
  apply carryTime_eq <;> unfold civil <;> dsimp only <;> omega

/-- `gmtime_r` yields the date and the time of the calendar, and `timegm` takes it back; and so the
other way round. -/
theorem gmtimeR_timegm :
    (∀ t : Nat, gmtimeR t = civil (Date.after 1970 (t / 86400)) (t % 86400) ∧
      timegm (gmtimeR t) = ((t : Int), gmtimeR t)) ∧
    ∀ (d : Date) (sec : Nat), 1970 ≤ d.year → sec < 86400 →
      gmtimeR (timegm (civil d sec)).1 = civil d sec := by
  have hback : ∀ d : Date, 1970 ≤ d.year → ∀ sec < 86400,
      timegm (civil d sec) = (((d.number 1970 * 86400 + sec : Nat) : Int), civil d sec) :=
    fun d hyear _ hsec => timegm_civil d hyear hsec
  refine ⟨fun t => ⟨gmtimeR_eq t, ?_⟩, fun d sec hyear hsec => ?_⟩
  · rw [gmtimeR_eq, hback _ (Date.year_le_after ..) _ (Nat.mod_lt _ (by decide)),
      Date.number_after, Nat.div_add_mod']
  · have hdays : (d.number 1970 * 86400 + sec) / 86400 = d.number 1970 := by omega
    have hsecond : (d.number 1970 * 86400 + sec) % 86400 = sec := by omega
    rw [hback d hyear sec hsec]
    dsimp only
    rw [gmtimeR_eq, hdays, hsecond, ← Date.eq_after hyear rfl]

/-- The 29th of February of 2000, at noon. -/
def leapDay : Date := ⟨2000, 1, 29, by decide, by decide, by decide⟩

/-- Noon of a leap day. -/
theorem gmtimeR_timegm_leapDay :
    gmtimeR (timegm (civil leapDay 43200)).1 = civil leapDay 43200 :=
  gmtimeR_timegm.2 leapDay 43200 (by decide) (by decide)

end RtKernel.Libc

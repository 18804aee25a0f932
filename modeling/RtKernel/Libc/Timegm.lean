import RtKernel.Libc.Gmtime

/-!
# Fields in excess

`timegm` takes the year before the months are carried into it, and takes the days before a month
away where the month itself has to be.
-/

open Prod (mk)

namespace RtKernel.Libc

open Calendar

variable {t : Tm}

/-- The first day of the month, with the months in excess carried. -/
def firstDay (t : Tm) : Date :=
  Date.newMonth (1900 + t.tmYear + (t.tmMon / 12 : Nat)).toNat (t.tmMon % 12)
    (Nat.mod_lt _ (by decide))

/-- The seconds since 1970, with every excess carried. -/
def carried (t : Tm) : Int :=
  ((firstDay t).number 1970 + (t.tmMday - 1)) * 86400 + t.tmHour * 3600 + t.tmMin * 60 + t.tmSec

/-- The day of the month, with the hours carried. -/
def carriedMday (t : Tm) : Int := t.tmMday + (t.tmHour + (t.tmMin + t.tmSec / 60) / 60) / 24

/-- No field is negative, and the year is not before 1970. -/
structure NonNegative (t : Tm) : Prop where
  tmSec : 0 ≤ t.tmSec
  tmMin : 0 ≤ t.tmMin
  tmHour : 0 ≤ t.tmHour
  tmMday : 0 ≤ t.tmMday
  tmYear : 70 ≤ t.tmYear

/-- `timegm` returns the time and leaves it in the structure. -/
def Carries (t : Tm) : Prop := timegm t = (carried t, gmtimeR (carried t))

/-- There is no leap second and no summer time, and the month and the day with the hours carried
are in the calendar; or it is the midnight a day before 1970. -/
def InRange (t : Tm) : Prop :=
  t.tmIsdst = 0 ∧ t.tmSec ≠ 60 ∧ t.tmMon < 12 ∧
    carriedMday t ≤ monthLength (1900 + t.tmYear).toNat t.tmMon ∧
      (1 ≤ carriedMday t ∨ t.tmYear = 70 ∧ t.tmMon = 0 ∧ t.tmMday = 0 ∧ t.tmHour = 0 ∧ t.tmMin = 0 ∧
        t.tmSec = 0)

/-- The carried time is the same time, in its fields. -/
structure CarriedTime (t t' : Tm) : Prop where
  same : t'.tmMday * 86400 + t'.tmHour * 3600 + t'.tmMin * 60 + t'.tmSec =
    t.tmMday * 86400 + t.tmHour * 3600 + t.tmMin * 60 + t.tmSec
  tmHour : 0 ≤ t'.tmHour ∧ t'.tmHour < 24
  tmMin : 0 ≤ t'.tmMin ∧ t'.tmMin < 60
  tmSec : t.tmSec ≠ 60 ∧ 0 ≤ t'.tmSec ∧ t'.tmSec < 60 ∧ t'.tmMday = carriedMday t ∨
    t.tmSec = 60 ∧ t'.tmSec = 60
  tmMday : t.tmMday ≤ t'.tmMday

theorem NonNegative.carryTime (h : NonNegative t) : CarriedTime t (carryTime t) := by
  obtain ⟨hsec, hmin, hhour, hmday, -⟩ := h
  unfold Libc.carryTime
  dsimp only
  split_ifs <;> (try dsimp only at *) <;>
    (try simp (disch := omega) only [Int.tdiv_eq_ediv_of_nonneg, Int.tmod_eq_emod_of_nonneg]
      at *) <;>
    constructor <;> (try unfold carriedMday) <;> (try dsimp only) <;> omega

theorem CarriedTime.carried (h : CarriedTime t (carryTime t)) (hsec : t.tmSec ≠ 60) :
    ∃ sec : Nat, sec < 86400 ∧ (carryTime t).tmMday = carriedMday t ∧
      (carryTime t).tmHour = (sec / 3600 : Nat) ∧ (carryTime t).tmMin = (sec / 60 % 60 : Nat) ∧
      (carryTime t).tmSec = (sec % 60 : Nat) ∧
      Libc.carried t = ((firstDay t).number 1970 + (carriedMday t - 1)) * 86400 + sec := by
  obtain ⟨hsame, hhour, hmin, hcases, -⟩ := h
  rcases hcases with ⟨-, hlow, hhigh, hmday⟩ | hleap
  · refine ⟨((carryTime t).tmHour * 3600 + (carryTime t).tmMin * 60 + (carryTime t).tmSec).toNat,
      by omega, hmday, by omega, by omega, by omega, ?_⟩
    change ((firstDay t).number 1970 + (t.tmMday - 1)) * 86400 + _ + _ + _ = _
    omega
  · exact absurd hleap.1 hsec

theorem firstDay_zero (h : NonNegative t) (hzero : (firstDay t).number 1970 = 0) :
    t.tmYear = 70 ∧ t.tmMon = 0 := by
  have hyear := h.tmYear
  have hlate : 1970 ≤ (firstDay t).year := by
    change 1970 ≤ (1900 + t.tmYear + (t.tmMon / 12 : Nat)).toNat
    omega
  have hfirst : firstDay t = Date.newYear 1970 :=
    Date.number_injective hlate (Nat.le_refl 1970) (hzero.trans Date.number_newYear.symm)
  have hsameYear : (1900 + t.tmYear + (t.tmMon / 12 : Nat)).toNat = 1970 :=
    congrArg Date.year hfirst
  have hsameMonth : t.tmMon % 12 = 0 := congrArg Date.month hfirst
  omega

/-- The midnight before 1970 in the structure: day zero, whose weekday is a Wednesday. -/
def eve : Tm := ⟨0, 0, 0, 0, 0, 70, 3, -1, 0⟩

theorem gmtimeR_eve : gmtimeR (-86400) = eve := by
  have hdays : Int.tdiv (-86400) spd = -1 := by decide
  have hyear : yearOf 1970 (-1) = (1970, -1) := by
    rw [yearOf, if_neg (by decide)]
  unfold gmtimeR
  dsimp only
  rw [hdays, hyear]
  decide

theorem timegm_eve {wday yday : Int}
    (hcarry : carryTime t = { eve with tmWday := wday, tmYday := yday }) :
    timegm t = (-86400, eve) := by
  obtain ⟨hsameYear, hsameMon, -⟩ := carryTime_date t
  rw [hcarry] at hsameYear hsameMon
  have hdays : carryDays (t.tmYear + (t.tmMon / 12 : Nat)) (t.tmMon % 12) (carryTime t).tmMday
      (Nat.mod_lt _ (by decide)) = (70, 0, 0) := by
    simp only [← hsameYear, ← hsameMon, hcarry]
    exact carryDays_eq (by decide) (by decide)
  have hday : (-1 : Int) = daysSince (t.tmYear - 70) + -1 := by
    rw [← hsameYear]
    rfl
  have hyday : (-1 : Int) = spm 0 + 0 - 1 + if isLeap (70 + 1900) ∧ 0 > 1 then 1 else 0 := rfl
  rw [timegm_eq hdays (by decide) hyday hday, hcarry]
  rfl

theorem firstDay_eq (hmon : t.tmMon < 12) :
    firstDay t = Date.newMonth (1900 + t.tmYear).toNat t.tmMon hmon := by
  apply Date.ext
  · change (1900 + t.tmYear + (t.tmMon / 12 : Nat)).toNat = (1900 + t.tmYear).toNat
    rw [Nat.div_eq_of_lt hmon, Int.natCast_zero, Int.add_zero]
  · exact Nat.mod_eq_of_lt hmon
  · rfl

theorem InRange.carries_day (h : NonNegative t) (hisdst : t.tmIsdst = 0) (hsec : t.tmSec ≠ 60)
    (hmon : t.tmMon < 12) (hlength : carriedMday t ≤ monthLength (1900 + t.tmYear).toNat t.tmMon)
    (hday : 1 ≤ carriedMday t) : Carries t := by
  obtain ⟨hsameYear, hsameMon, hsameIsdst⟩ := carryTime_date t
  obtain ⟨sec, hlt, hmday, hhour, hmin, hsecond, hcarried⟩ := h.carryTime.carried hsec
  have hyear := h.tmYear
  let d : Date := ⟨(1900 + t.tmYear).toNat, t.tmMon, (carriedMday t).toNat, hmon, by omega,
    by omega⟩
  have hnumber :
      ((firstDay t).number 1970 : Int) + (carriedMday t - 1) = (d.number 1970 : Nat) := by
    rw [firstDay_eq hmon]
    unfold Date.number Date.dayOfYear Date.newMonth
    dsimp only [d]
    omega
  have hcarry : carryTime t = { civil d sec with
      tmWday := (carryTime t).tmWday
      tmYday := (carryTime t).tmYday } := by
    ext
    · exact hsecond
    · exact hmin
    · exact hhour
    · exact hmday.trans (Int.toNat_of_nonneg (by omega)).symm
    · exact hsameMon
    · refine hsameYear.trans ?_
      change _ = ((1900 + t.tmYear).toNat : Int) - 1900
      omega
    · rfl
    · rfl
    · exact hsameIsdst.trans hisdst
  have htime : carried t = (d.number 1970 * 86400 + sec : Nat) := by
    rw [hcarried, hnumber]
    rfl
  have hdays : (d.number 1970 * 86400 + sec) / 86400 = d.number 1970 := by omega
  have hsecond : (d.number 1970 * 86400 + sec) % 86400 = sec := by omega
  have hd : d = Date.after 1970 (d.number 1970) :=
    Date.eq_after (show 1970 ≤ (1900 + t.tmYear).toNat by omega) rfl
  unfold Carries
  rw [timegm_carried d (show 1970 ≤ (1900 + t.tmYear).toNat by omega) hcarry, htime, gmtimeR_eq,
    hdays, hsecond, ← hd]

theorem InRange.carries_eve (h : NonNegative t) (hisdst : t.tmIsdst = 0) (hsec : t.tmSec ≠ 60)
    (hseventy : t.tmYear = 70) (hjanuary : t.tmMon = 0)
    (hzero : t.tmMday = 0) (hnight : t.tmHour = 0 ∧ t.tmMin = 0 ∧ t.tmSec = 0) : Carries t := by
  obtain ⟨hsameYear, hsameMon, hsameIsdst⟩ := carryTime_date t
  obtain ⟨sec, hlt, hmday, hhour, hmin, hsecond, hcarried⟩ := h.carryTime.carried hsec
  have hnumber : (firstDay t).number 1970 = 0 := by
    have hnew : firstDay t = Date.newYear 1970 := by
      rw [firstDay_eq (hjanuary ▸ by decide)]
      apply Date.ext
      · change (1900 + t.tmYear).toNat = 1970
        omega
      · exact hjanuary
      · rfl
    rw [hnew, Date.number_newYear]
  have hmidnight : carried t = -86400 := by
    change ((firstDay t).number 1970 + (t.tmMday - 1)) * 86400 + _ + _ + _ = _
    omega
  have hsecond' : sec = 0 := by
    omega
  have hcarry : carryTime t = { eve with
      tmWday := (carryTime t).tmWday
      tmYday := (carryTime t).tmYday } := by
    rw [hsecond'] at hhour hmin hsecond
    ext
    · exact hsecond
    · exact hmin
    · exact hhour
    · have hle := h.carryTime.tmMday
      change _ = (0 : Int)
      omega
    · exact hsameMon.trans hjanuary
    · exact hsameYear.trans hseventy
    · rfl
    · rfl
    · exact hsameIsdst.trans hisdst
  unfold Carries
  rw [timegm_eve hcarry, hmidnight, gmtimeR_eve]

theorem InRange.carries (h : NonNegative t) (hrange : InRange t) : Carries t := by
  obtain ⟨hisdst, hsec, hmon, hlength, hpos⟩ := hrange
  by_cases hday : 1 ≤ carriedMday t
  · exact InRange.carries_day h hisdst hsec hmon hlength hday
  · obtain ⟨hseventy, hjanuary, hzero, hnight⟩ := hpos.resolve_left hday
    exact InRange.carries_eve h hisdst hsec hseventy hjanuary hzero hnight

theorem le_carryDays (year : Int) (mon : Nat) (mday : Int) (hmon : mon < 12) :
    year ≤ (carryDays year mon mday hmon).1 := by
  induction year, mon, mday, hmon using carryDays.induct with
  | case1 year mon mday hmon hmore day hless ih =>
    rw [carryDays, if_pos hmore]
    rw [dif_pos hless]
    exact ih
  | case2 year mon mday hmon hmore day hlast ih =>
    rw [carryDays, if_pos hmore]
    rw [dif_neg hlast]
    exact (Int.le_add_one (Int.le_refl _)).trans ih
  | case3 year mon mday hmon hless =>
    rw [carryDays, if_neg hless]

variable {year mday : Int} {mon : Nat} {sec : Nat}

theorem carryDays_next (hless : mon < 11) (hmore : spm (1 + mon) < mday) :
    carryDays year mon mday (Nat.lt_succ_of_lt hless) = carryDays year (mon + 1)
      ((if mon = 1 ∧ isLeap (year + 1900) then mday - 1 else mday) - spm mon)
      (Nat.succ_lt_succ hless) := by
  rw [carryDays, if_pos hmore]
  exact dif_pos hless

/-- The days from the start of the year to a day of a month, which need not be in it. -/
def place (year : Nat) (mon : Nat) (mday : Int) : Int := daysBefore year mon + mday

/-- From February on a step takes more than the month away. -/
theorem place_next (year : Nat) (mday : Int) (hmon : 1 ≤ mon) (hless : mon < 11) :
    place year (mon + 1) ((if mon = 1 ∧ isLeap (year : Nat) then mday - 1 else mday) - spm mon) <
      place year mon mday := by
  unfold place
  rw [daysBefore]
  rcases hmon.eq_or_lt with rfl | hmarch
  · simp only [true_and, isLeap_iff]
    have hspm : spm 1 = 31 := rfl
    have hlength : monthLength year 1 = if IsLeap year then 29 else 28 := rfl
    rw [hlength]
    by_cases hleap : IsLeap year
    · rw [if_pos hleap]
      omega
    · rw [if_neg hleap]
      omega
  · rw [if_neg (by omega)]
    have hlarge : 59 ≤ spm mon ∧ monthLength year mon ≤ 31 := by
      interval_cases mon <;> simp [spm, monthLength]
    omega

/-- So the day stays, or the place comes down, where the year does not change. -/
theorem place_carryDays (year : Nat) {yr : Int} (hyr : (year : Int) = yr + 1900) (mon : Nat)
    (mday : Int) (hmon : mon < 12) (hpos : 1 ≤ mon) (hsame : (carryDays yr mon mday hmon).1 = yr) :
    carryDays yr mon mday hmon = (yr, mon, mday) ∨
      place year (carryDays yr mon mday hmon).2.1 (carryDays yr mon mday hmon).2.2 <
        place year mon mday := by
  induction yr, mon, mday, hmon using carryDays.induct with
  | case1 yr mon mday hmon hmore day hless ih =>
    have hstep : carryDays yr mon mday hmon =
        carryDays yr (mon + 1) (day - spm mon) (Nat.succ_lt_succ hless) :=
      carryDays_next hless hmore
    rw [hstep] at hsame ⊢
    have hnext := place_next year mday hpos hless
    rw [hyr] at hnext
    rcases ih hyr (Nat.le_add_left ..) hsame with hstay | hdown
    · rw [hstay]
      exact .inr hnext
    · exact .inr (hdown.trans hnext)
  | case2 yr mon mday hmon hmore day hlast ih =>
    have hle := le_carryDays (yr + 1) 0 (day - spm mon) (by decide)
    have hstep : carryDays yr mon mday hmon = carryDays (yr + 1) 0 (day - spm mon) (by decide) := by
      rw [carryDays, if_pos hmore]
      exact dif_neg hlast
    rw [hstep] at hsame
    omega
  | case3 yr mon mday hmon hless =>
    exact .inl (by rw [carryDays, if_neg hless])

/-- Where the place has not changed in the end, and is in the month, there was no step at all. -/
theorem carryDays_stay (year : Nat) {yr mday mday' : Int} {mon mon' : Nat} (hmon : mon < 12)
    (hyr : (year : Int) = yr + 1900) (hdays : carryDays yr mon mday hmon = (yr, mon', mday'))
    (hplace : place year mon' mday' = place year mon mday)
    (hlength : mday' ≤ monthLength year mon') : mon' = mon ∧ mday' = mday := by
  have hstays : ∀ {m : Nat} {day : Int} (hm : m < 12), 1 ≤ m →
      carryDays yr m day hm = (yr, mon', mday') → place year m day ≤ place year mon' mday' →
      mon' = m ∧ mday' = day := by
    intro m day hm hpos hsame hle
    have hcases := place_carryDays year hyr m day hm hpos (congrArg Prod.fst hsame)
    rw [hsame, mk.injEq, mk.injEq] at hcases
    rcases hcases with hstay | hdown
    · exact hstay.2
    · exact absurd hdown hle.not_gt
  rcases Nat.eq_zero_or_pos mon with rfl | hpos
  · -- January gives 31 days too many, which February and March take back: April is over by then
    have hstay : ∀ {m : Nat} {day : Int} (hm : m < 12), day ≤ spm (1 + m) →
        carryDays yr m day hm = (yr, mon', mday') → m = mon' ∧ day = mday' := by
      intro m day hm hday hsame
      rw [carryDays_eq hm hday, mk.injEq, mk.injEq] at hsame
      exact hsame.2
    by_cases hjanuary : spm (1 + 0) < mday
    · rw [carryDays_next (by decide) hjanuary, if_neg fun hno => absurd hno.1 (by decide)] at hdays
      have hleap : ∃ l : Int, 0 ≤ l ∧
          (∀ m day, 1 < m → m ≤ 12 → place year m day = spm m + l + day) ∧
          ∀ day : Int, (if 1 = 1 ∧ isLeap (yr + 1900) then day - 1 else day) = day - l := by
        refine ⟨if IsLeap year then 1 else 0, by split_ifs <;> decide, ?_, fun day => ?_⟩
        · intro m day hm hle
          unfold place
          rw [daysBefore_eq year hle]
          simp only [hm, true_and]
        · simp only [← hyr, isLeap_iff, true_and]
          split_ifs <;> omega
      obtain ⟨l, hnonneg, hmarch, hminus⟩ := hleap
      have hfirst : place year 0 mday = mday := by
        unfold place daysBefore
        omega
      by_cases hfebruary : spm (1 + 1) < mday - spm 0
      · rw [carryDays_next (by decide) hfebruary, hminus] at hdays
        by_cases hover : spm (1 + 2) < mday - spm 0 - l - spm 1
        · rw [carryDays_next (by decide) hover] at hdays
          obtain ⟨rfl, hday⟩ := hstays (by decide) (by decide) hdays (by
            rw [hmarch _ _ (by decide) (by decide)]
            simp [spm]
            omega)
          have hlong : monthLength year (2 + 1) = 30 := rfl
          simp [spm] at hover hday
          omega
        · obtain ⟨rfl, rfl⟩ := hstay (by decide) (Int.not_lt.mp hover) hdays
          rw [hmarch _ _ (by decide) (by decide)] at hplace
          simp [spm] at hplace
          omega
      · obtain ⟨rfl, rfl⟩ := hstay (by decide) (Int.not_lt.mp hfebruary) hdays
        have hsecond : place year (0 + 1) (mday - spm 0) = 31 + mday := by
          simp [place, daysBefore, monthLength, spm]
        rw [hsecond] at hplace
        omega
    · obtain ⟨rfl, rfl⟩ := hstay (by decide) (Int.not_lt.mp hjanuary) hdays
      exact ⟨rfl, rfl⟩
  · exact hstays hmon hpos hdays hplace.ge

/-- The other times of the day before 1970 count as the first day. -/
theorem gmtimeR_before (hpos : 0 < sec) (hlt : sec < 86400) :
    (gmtimeR (-86400 + sec)).tmMday = 1 := by
  have hneg : (-86400 + sec : Int) = -(86400 - sec : Nat) := by omega
  have hdays : Int.tdiv (-86400 + sec) spd = 0 := by
    rw [hneg, Int.neg_tdiv, Int.tdiv_eq_zero_of_lt (Int.natCast_nonneg _)]
    · rfl
    · unfold spd
      omega
  have hyear : yearOf 1970 0 = (1970, 0) := by
    rw [yearOf, if_neg (by decide)]
  unfold gmtimeR
  dsimp only
  rw [hdays, hyear]
  decide

/-- The years from 1970 on differ in the days before them. -/
theorem daysFrom_injective {m n : Nat} (h : daysFrom 1970 m = daysFrom 1970 n) : m = n := by
  have hnumber : ∀ k, Date.number 1970 (Date.newYear (1970 + k)) = daysFrom 1970 k := by
    intro k
    change daysFrom 1970 (1970 + k - 1970) + 0 = _
    rw [Nat.add_sub_cancel_left, Nat.add_zero]
  have hsame := Date.number_injective (Nat.le_add_right 1970 m) (Nat.le_add_right 1970 n)
    ((hnumber m).trans (h.trans (hnumber n).symm))
  exact Nat.add_left_cancel (congrArg Date.year hsame)

/-- Nothing is carried to the day before 1970, and only its midnight has the day zero. -/
theorem inRange_before (h : NonNegative t) (hisdst : t.tmIsdst = 0) (hsixty : t.tmSec ≠ 60)
    (hlt : sec < 86400) (hle : t.tmMday ≤ carriedMday t)
    (hcarried : carried t = ((firstDay t).number 1970 + (carriedMday t - 1)) * 86400 + sec)
    (hmday : mday = (gmtimeR (carried t)).tmMday)
    (hdays : carryDays (t.tmYear + (t.tmMon / 12 : Nat)) (t.tmMon % 12) (carriedMday t)
      (Nat.mod_lt _ (by decide)) = (year, mon, mday))
    (hbefore : (firstDay t).number 1970 + (carriedMday t - 1) < 0) : InRange t := by
  have hnonneg := h.tmMday
  have hzero : (firstDay t).number 1970 = 0 ∧ carriedMday t = 0 := by omega
  obtain ⟨hseventy, hjanuary⟩ := firstDay_zero h hzero.1
  rw [hzero.1, hzero.2] at hcarried
  have htime : carried t = -86400 + sec := hcarried
  have hstays : mday = 0 := by
    simp only [hzero.2, hjanuary] at hdays
    rw [carryDays_eq (by decide) (by decide), mk.injEq, mk.injEq] at hdays
    exact hdays.2.2.symm
  have hmidnight : sec = 0 := by
    by_contra hpos
    rw [htime, gmtimeR_before (Nat.pos_of_ne_zero hpos) hlt, hstays] at hmday
    exact absurd hmday (by decide)
  have hfields : carried t = ((firstDay t).number 1970 + (t.tmMday - 1)) * 86400 + t.tmHour * 3600 +
      t.tmMin * 60 + t.tmSec := rfl
  obtain ⟨hsec, hmin, hhour, -, -⟩ := h
  refine ⟨hisdst, hsixty, by omega, by omega, .inr ⟨hseventy, hjanuary, ?_⟩⟩
  omega

theorem inRange_after (h : NonNegative t) (hisdst : t.tmIsdst = 0) (hsixty : t.tmSec ≠ 60)
    {mon n : Nat} {d : Date}
    (hdays : carryDays (t.tmYear + (t.tmMon / 12 : Nat)) (t.tmMon % 12) (carriedMday t)
      (Nat.mod_lt _ (by decide)) = (year, mon, mday))
    (hle : t.tmYear + (t.tmMon / 12 : Nat) ≤ year)
    (hn : (firstDay t).number 1970 + (carriedMday t - 1) = n) {yday : Int}
    (hday : daysSince (t.tmYear - 70) + yday = n) (hd : 1970 ≤ d.year)
    (hnumber : d.number 1970 = n) (hyear : year = d.year - 1900) (hmon : mon = d.month)
    (hmday : mday = d.day) (hyday : yday = d.dayOfYear) : InRange t := by
  have hstart := h.tmYear
  subst hyear hmon hmday hyday
  -- the days of the years are those of the year at the start, so the year has not changed
  have hsame : d.year = 1970 + (t.tmYear - 70).toNat := by
    have hyears : daysFrom 1970 (t.tmYear - 70).toNat = daysFrom 1970 (d.year - 1970) := by
      rw [show t.tmYear - 70 = ((t.tmYear - 70).toNat : Nat) by omega, daysSince_eq] at hday
      unfold Date.number at hnumber
      omega
    have hcount := daysFrom_injective hyears
    omega
  have hmonth : t.tmMon < 12 := by omega
  have hfirst : firstDay t = Date.newMonth d.year t.tmMon hmonth := by
    apply Date.ext
    · change (1900 + t.tmYear + (t.tmMon / 12 : Nat)).toNat = d.year
      omega
    · exact Nat.mod_eq_of_lt hmonth
    · rfl
  have hloop : carryDays t.tmYear t.tmMon (carriedMday t) hmonth =
      (t.tmYear, d.month, (d.day : Int)) := by
    have hyear : (d.year : Int) - 1900 = t.tmYear := by omega
    simpa only [Nat.mod_eq_of_lt hmonth, Nat.div_eq_of_lt hmonth, Int.natCast_zero, Int.add_zero,
      hyear] using hdays
  have hplace : place d.year d.month d.day = place d.year t.tmMon (carriedMday t) := by
    have hpos := d.day_pos
    rw [hfirst] at hn
    unfold Date.number Date.dayOfYear Date.newMonth at hn
    unfold Date.number Date.dayOfYear at hnumber
    dsimp only at hn
    unfold place
    omega
  obtain ⟨hmon, hmday⟩ := carryDays_stay d.year hmonth (by omega) hloop hplace
    (by exact_mod_cast d.day_le)
  have hlength := d.day_le
  have hpos := d.day_pos
  rw [hmon] at hlength
  have hcentury : (1900 + t.tmYear).toNat = d.year := by omega
  refine ⟨hisdst, hsixty, hmonth, ?_, .inl (by omega)⟩
  rw [hcentury, ← hmday]
  exact_mod_cast hlength

theorem Carries.inRange (h : NonNegative t) (hcarries : Carries t) : InRange t := by
  obtain ⟨hsameYear, hsameMon, hsameIsdst⟩ := carryTime_date t
  have hyear := h.tmYear
  obtain ⟨⟨year, mon, mday⟩, hdays⟩ : ∃ r, carryDays (t.tmYear + (t.tmMon / 12 : Nat))
      (t.tmMon % 12) (carryTime t).tmMday (Nat.mod_lt _ (by decide)) = r := ⟨_, rfl⟩
  have hle := le_carryDays (t.tmYear + (t.tmMon / 12 : Nat)) (t.tmMon % 12) (carryTime t).tmMday
    (Nat.mod_lt _ (by decide))
  rw [hdays] at hle
  obtain ⟨yday, hyday⟩ : ∃ yday,
      yday = spm mon + mday - 1 + if isLeap (year + 1900) ∧ mon > 1 then 1 else 0 := ⟨_, rfl⟩
  unfold Carries at hcarries
  rw [timegm_eq hdays (by omega) hyday rfl, mk.injEq] at hcarries
  obtain ⟨htime, htm⟩ := hcarries
  have hisdst : t.tmIsdst = 0 := hsameIsdst.symm.trans (congrArg Tm.tmIsdst htm)
  have hsixty : t.tmSec ≠ 60 := by
    intro hleap
    have hsecond : (carryTime t).tmSec = ((carried t).tmod spd).tmod 60 := congrArg Tm.tmSec htm
    have hless := Int.tmod_lt_of_pos ((carried t).tmod spd) (show 0 < (60 : Int) by decide)
    have hcases := h.carryTime.tmSec
    omega
  obtain ⟨sec, hlt, hmday, hhour, hmin, hsecond, hcarried⟩ := h.carryTime.carried hsixty
  have hday :
      daysSince (t.tmYear - 70) + yday = (firstDay t).number 1970 + (carriedMday t - 1) := by
    omega
  have hlow := h.carryTime.tmMday
  simp only [hmday] at hdays hlow
  rcases lt_or_ge ((firstDay t).number 1970 + (carriedMday t - 1)) 0 with hbefore | hafter
  · exact inRange_before h hisdst hsixty hlt hlow hcarried (congrArg Tm.tmMday htm) hdays
      hbefore
  · obtain ⟨n, hn⟩ := Int.eq_ofNat_of_zero_le hafter
    have hn' : carried t = (n * 86400 + sec : Nat) := by
      rw [hcarried, hn]
      rfl
    rw [hn', gmtimeR_eq, show (n * 86400 + sec) / 86400 = n by omega,
      show (n * 86400 + sec) % 86400 = sec by omega] at htm
    exact inRange_after h hisdst hsixty hdays hle hn (hday.trans hn) (Date.year_le_after 1970 n)
      (Date.number_after 1970 n) (congrArg Tm.tmYear htm) (congrArg Tm.tmMon htm)
      (congrArg Tm.tmMday htm) (congrArg Tm.tmYday htm)

/-- The 32nd of January of 1970. -/
def januaryExcess : Tm := ⟨0, 0, 0, 32, 0, 70, 0, 0, 0⟩

/-- It is not the first of February. -/
theorem timegm_januaryExcess : NonNegative januaryExcess ∧ carried januaryExcess = 31 * 86400 ∧
    (timegm januaryExcess).1 = 62 * 86400 ∧ ¬ Carries januaryExcess := by
  have htime : (timegm januaryExcess).1 = 62 * 86400 := by
    have hdays : carryDays (januaryExcess.tmYear + (januaryExcess.tmMon / 12 : Nat))
        (januaryExcess.tmMon % 12) (carryTime januaryExcess).tmMday (Nat.mod_lt _ (by decide)) =
          (70, 1, 32) := by
      refine (carryDays_next (by decide) (by decide)).trans ?_
      exact carryDays_eq (by decide) (by decide)
    rw [timegm_eq hdays (by decide) rfl rfl]
    decide
  have hcarried : carried januaryExcess = 31 * 86400 := by decide
  refine ⟨⟨by decide, by decide, by decide, by decide, by decide⟩, hcarried, htime, fun hno => ?_⟩
  rw [hno, hcarried] at htime
  exact absurd htime (by decide)

/-- `timegm` carries seconds, minutes and hours within the month; a month or a day that is not in
the calendar it takes for another one. -/
theorem carries_iff (h : NonNegative t) : Carries t ↔ InRange t :=
  ⟨Carries.inRange h, InRange.carries h⟩

/-- Hour 30 of the 30th of January. -/
theorem carries_hours : Carries ⟨0, 0, 30, 30, 0, 70, 0, 0, 0⟩ :=
  (carries_iff ⟨by decide, by decide, by decide, by decide, by decide⟩).mpr
    ⟨rfl, by decide, by decide, by decide, .inl (by decide)⟩

end RtKernel.Libc

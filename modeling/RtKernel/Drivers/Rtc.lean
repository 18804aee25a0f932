import Mathlib.Data.UInt
import RtKernel.Libc.Gmtime

/-!
# The real-time clock

`hc32_rtc_set_time_stamp` writes the time and then the date, and `hc32_rtc_get_time_stamp` reads
first the one and then the other. A register holds two decimal digits; what it takes a value for
that it cannot hold is left to the hardware. Hours are those of a day.
-/

open Nat (zero_le)

namespace RtKernel.Rtc

open Calendar Libc Function

/-- `RTC_DEC2BCD`. -/
def dec2bcd (x : UInt8) : UInt8 := (x / 10) <<< 4 + x % 10

/-- `RTC_BCD2DEC`. -/
def bcd2dec (x : UInt8) : UInt8 := (x >>> 4) * 10 + (x &&& 0x0F)

theorem bcd2dec_dec2bcd {x : UInt8} (h : x ≤ 99) : bcd2dec (dec2bcd x) = x := by
  have hall : ∀ n : Fin 100, bcd2dec (dec2bcd (UInt8.ofNat n)) = UInt8.ofNat n := by decide
  have hlt : x.toNat < 100 := Nat.lt_succ_of_le (UInt8.le_iff_toNat_le.mp h)
  have hx := hall ⟨x.toNat, hlt⟩
  rwa [UInt8.ofNat_toNat] at hx

inductive Register where
  | hour
  | min
  | sec
  | year
  | mon
  | day
  deriving DecidableEq

namespace Register

def low : Register → UInt8
  | mon | day => 1
  | _ => 0

def high : Register → UInt8
  | hour => 23
  | min | sec => 59
  | year => 99
  | mon => 12
  | day => 31

/-- `IS_RTC_HOUR_24H`, `IS_RTC_MINUTE`, `IS_RTC_SEC`, `IS_RTC_YEAR`, `IS_RTC_MONTH` and
`IS_RTC_DAY`. -/
def Holds (f : Register) (x : UInt8) : Prop := f.low ≤ x ∧ x ≤ f.high

theorem Holds.le {f : Register} {x : UInt8} (h : f.Holds x) : x ≤ 99 := by
  have hhigh : f.high ≤ 99 := by cases f <;> decide
  exact UInt8.le_trans h.2 hhigh

end Register

/-- The registers of the calendar; those that count stay in their ranges. -/
@[ext]
structure Regs where
  value : Register → UInt8
  week : UInt8
  holds : ∀ f : Register, f.Holds (bcd2dec (value f))

/-- What a register holds when it is written: a value of its range, or something else that is in
its range. -/
structure Hardware where
  hold : Register → UInt8 → UInt8 → UInt8
  hold_dec2bcd : ∀ {f : Register} {x : UInt8} (old : UInt8), f.Holds x →
    hold f old (dec2bcd x) = dec2bcd x
  holds_hold : ∀ {f : Register} {old : UInt8} (b : UInt8), f.Holds (bcd2dec old) →
    f.Holds (bcd2dec (hold f old b))

/-- `WRITE_REG8`. -/
def Regs.write (hw : Hardware) (r : Regs) (f : Register) (b : UInt8) : Regs where
  value := update r.value f (hw.hold f (r.value f) b)
  week := r.week
  holds g := by
    by_cases h : g = f
    · subst h
      rw [update_self]
      exact hw.holds_hold b (r.holds g)
    · rw [update_of_ne h]
      exact r.holds g

/-- `RTC_EnterRwMode` and `RTC_ExitRwMode`: whether they return before their timeouts. -/
structure Switches where
  enter : Bool
  exit : Bool

/-- `stc_rtc_time_t`. -/
structure StcRtcTime where
  u8Hour : UInt8
  u8Minute : UInt8
  u8Second : UInt8

/-- `stc_rtc_date_t`. -/
structure StcRtcDate where
  u8Year : UInt8
  u8Month : UInt8
  u8Day : UInt8
  u8Weekday : UInt8

/-- The writes of `RTC_SetTime`. -/
def Regs.putTime (hw : Hardware) (r : Regs) (stcRtcTime : StcRtcTime) : Regs :=
  let r := r.write hw .hour (dec2bcd stcRtcTime.u8Hour)
  let r := r.write hw .min (dec2bcd stcRtcTime.u8Minute)
  r.write hw .sec (dec2bcd stcRtcTime.u8Second)

/-- The writes of `RTC_SetDate`. -/
def Regs.putDate (hw : Hardware) (r : Regs) (stcRtcDate : StcRtcDate) : Regs :=
  let r := r.write hw .year (dec2bcd stcRtcDate.u8Year)
  let r := r.write hw .mon (dec2bcd stcRtcDate.u8Month)
  let r := r.write hw .day (dec2bcd stcRtcDate.u8Day)
  { r with week := stcRtcDate.u8Weekday }

/-- `RTC_SetTime` with `RTC_DATA_FMT_DEC`: whether it returns `LL_OK`, and the registers. -/
def rtcSetTime (hw : Hardware) (mode : Switches) (stcRtcTime : StcRtcTime) (r : Regs) :
    Bool × Regs :=
  if mode.enter then (mode.exit, r.putTime hw stcRtcTime) else (false, r)

/-- `RTC_SetDate` with `RTC_DATA_FMT_DEC`. -/
def rtcSetDate (hw : Hardware) (mode : Switches) (stcRtcDate : StcRtcDate) (r : Regs) :
    Bool × Regs :=
  if mode.enter then (mode.exit, r.putDate hw stcRtcDate) else (false, r)

/-- `RTC_GetTime` with `RTC_DATA_FMT_DEC`; what is not read stays zero. -/
def rtcGetTime (enter : Bool) (r : Regs) : StcRtcTime :=
  if enter then ⟨bcd2dec (r.value .hour), bcd2dec (r.value .min), bcd2dec (r.value .sec)⟩
  else ⟨0, 0, 0⟩

/-- `RTC_GetDate` with `RTC_DATA_FMT_DEC`. -/
def rtcGetDate (enter : Bool) (r : Regs) : StcRtcDate :=
  if enter then
    ⟨bcd2dec (r.value .year), bcd2dec (r.value .mon), bcd2dec (r.value .day), r.week⟩
  else ⟨0, 0, 0, 0⟩

/-- A field of `struct tm` in eight bits. -/
def narrow (x : Int) : UInt8 := UInt8.ofNat (x % 256).toNat

def timeOf (pTm : Tm) : StcRtcTime where
  u8Hour := narrow pTm.tmHour
  u8Minute := narrow pTm.tmMin
  u8Second := narrow pTm.tmSec

def dateOf (pTm : Tm) : StcRtcDate where
  u8Year := narrow (pTm.tmYear - 100)
  u8Month := narrow (pTm.tmMon + 1)
  u8Day := narrow pTm.tmMday
  u8Weekday := narrow pTm.tmWday

/-- `hc32_rtc_set_time_stamp`: whether it returns `RT_EOK`, and the registers. -/
def hc32RtcSetTimeStamp (hw : Hardware) (time date : Switches) (r : Regs) (timeStamp : Int) :
    Bool × Regs :=
  let pTm := gmtimeR timeStamp
  if pTm.tmYear < 100 then (false, r)
  else
    let (ok, r) := rtcSetTime hw time (timeOf pTm) r
    if ok then rtcSetDate hw date (dateOf pTm) r else (false, r)

/-- `tm_new`. -/
def tmNew (stcRtcTime : StcRtcTime) (stcRtcDate : StcRtcDate) : Tm where
  tmSec := stcRtcTime.u8Second.toNat
  tmMin := stcRtcTime.u8Minute.toNat
  tmHour := stcRtcTime.u8Hour.toNat
  tmMday := if stcRtcDate.u8Month = 0 then stcRtcDate.u8Day.toNat + 1 else stcRtcDate.u8Day.toNat
  tmMon := if stcRtcDate.u8Month = 0 then stcRtcDate.u8Month.toNat
    else stcRtcDate.u8Month.toNat - 1
  tmYear := stcRtcDate.u8Year.toNat + 100
  tmWday := 0
  tmYday := 0
  tmIsdst := 0

/-- `hc32_rtc_get_time_stamp`, where the time is read from `first` and the date from `second`.
What the two functions return is not looked at. -/
def hc32RtcGetTimeStamp (time date : Bool) (first second : Regs) : Int :=
  (timegm (tmNew (rtcGetTime time first) (rtcGetDate date second))).1

/-- A second of a day is read. -/
def StcRtcTime.Reads (stcRtcTime : StcRtcTime) (sec : Nat) : Prop :=
  stcRtcTime.u8Hour.toNat = sec / 3600 ∧ stcRtcTime.u8Minute.toNat = sec / 60 % 60 ∧
    stcRtcTime.u8Second.toNat = sec % 60

/-- A day is read, the first one of 2000 where there is no month. -/
def StcRtcDate.Reads (stcRtcDate : StcRtcDate) (d : Date) : Prop :=
  d.year = 2000 + stcRtcDate.u8Year.toNat ∧
    if stcRtcDate.u8Month = 0 then d.month = 0 ∧ d.day = stcRtcDate.u8Day.toNat + 1
    else d.month + 1 = stcRtcDate.u8Month.toNat ∧ d.day = stcRtcDate.u8Day.toNat

/-- The registers show a time and the day it is in. -/
def Regs.Shows (r : Regs) (t : Nat) : Prop :=
  (rtcGetTime true r).Reads (t % 86400) ∧
    (rtcGetDate true r).Reads (Date.after 1970 (t / 86400))

variable {stcRtcTime : StcRtcTime} {stcRtcDate : StcRtcDate} {r : Regs}

theorem tmNew_eq {sec : Nat} {d : Date}
    (htime : stcRtcTime.Reads sec) (hdate : stcRtcDate.Reads d) :
    tmNew stcRtcTime stcRtcDate = { civil d sec with tmWday := 0, tmYday := 0 } := by
  obtain ⟨hhour, hminute, hsecond⟩ := htime
  obtain ⟨hyear, hrest⟩ := hdate
  have hcentury : ((stcRtcDate.u8Year.toNat : Int) + 100) = (d.year : Int) - 1900 := by omega
  unfold tmNew civil
  rw [hhour, hminute, hsecond, hcentury]
  by_cases hmonth : stcRtcDate.u8Month = 0
  · rw [if_pos hmonth] at hrest
    obtain ⟨hfirst, hday⟩ := hrest
    rw [hmonth, hfirst, hday]
    rfl
  · rw [if_neg hmonth] at hrest
    obtain ⟨hnext, hday⟩ := hrest
    rw [if_neg hmonth, if_neg hmonth, ← hnext, ← hday, Nat.add_sub_cancel]

theorem timegm_tmNew {sec : Nat} {d : Date}
    (hsec : sec < 86400) (htime : stcRtcTime.Reads sec) (hdate : stcRtcDate.Reads d) :
    (timegm (tmNew stcRtcTime stcRtcDate)).1 = ((d.number 1970 * 86400 + sec : Nat) : Int) := by
  have hyear : 1970 ≤ d.year := by
    have hread := hdate.1
    omega
  have htm := tmNew_eq htime hdate
  have hcarry : carryTime (tmNew stcRtcTime stcRtcDate) =
      { civil d sec with tmWday := 0, tmYday := 0 } := by
    rw [← htm]
    apply carryTime_eq <;> rw [htm] <;> unfold civil <;> dsimp only <;> omega
  rw [timegm_carried d hyear hcarry]

theorem rtcGetTime_reads (time : Bool) {t : Nat} (hshows : r.Shows t) :
    (rtcGetTime time r).Reads (if time then t % 86400 else 0) := by
  cases time with
  | true => exact hshows.1
  | false =>
    have hnone : (⟨0, 0, 0⟩ : StcRtcTime).Reads 0 := ⟨by decide, by decide, by decide⟩
    exact hnone

theorem rtcGetDate_reads (date : Bool) {t : Nat} (hshows : r.Shows t) :
    (rtcGetDate date r).Reads
      (if date then Date.after 1970 (t / 86400) else Date.newYear 2000) := by
  cases date with
  | true => exact hshows.2
  | false => exact ⟨rfl, rfl, rfl⟩

theorem daysFrom_2000 : daysFrom 1970 30 = 10957 := by
  decide

theorem daysFrom_2100 : daysFrom 1970 130 = 47482 := by
  have hsince := daysSince_eq 130
  rw [show daysSince (130 : Nat) = 47482 by decide] at hsince
  omega

theorem number_newYear : (Date.newYear 2000).number 1970 = 10957 := by
  decide

/-- The time of one reading and the date of the other. -/
theorem hc32RtcGetTimeStamp_eq (time date : Bool) {first second : Regs} {t u : Nat}
    (hfirst : first.Shows t) (hsecond : second.Shows u) :
    hc32RtcGetTimeStamp time date first second =
      (((if date then u / 86400 else 10957) * 86400 + if time then t % 86400 else 0 : Nat) :
        Int) := by
  have hsec : (if time then t % 86400 else 0) < 86400 := by
    split_ifs <;> omega
  unfold hc32RtcGetTimeStamp
  rw [timegm_tmNew hsec (rtcGetTime_reads time hfirst) (rtcGetDate_reads date hsecond)]
  cases date with
  | true =>
    simp only [if_true]
    rw [Date.number_after]
  | false =>
    simp only [Bool.false_eq_true, if_false]
    rw [number_newYear]

/-- A time before 2100, in a month that need not have its day. -/
theorem timegm_lt {t : Tm} (hsec : t.tmSec ≤ 59) (hmin : t.tmMin ≤ 59) (hhour : t.tmHour ≤ 23)
    (hmday : t.tmMday ≤ 31) (hmon : t.tmMon < 12) {n : Nat} (hyear : t.tmYear = n + 70)
    (hlate : n < 130) : (timegm t).1 < 47482 * 86400 := by
  have hcarry : carryTime t = t := carryTime_eq (by omega) (by omega) (by omega)
  have hmonth : t.tmMon % 12 = t.tmMon := Nat.mod_eq_of_lt hmon
  have hlast : (31 : Int) ≤ spm (1 + t.tmMon) ∧ spm t.tmMon + 31 ≤ 365 := by
    generalize t.tmMon = mon at hmon
    interval_cases mon <;> decide
  have hdays : carryDays (t.tmYear + (t.tmMon / 12 : Nat)) (t.tmMon % 12) (carryTime t).tmMday
      (Nat.mod_lt _ (by decide)) = (t.tmYear, t.tmMon, t.tmMday) := by
    rw [carryDays_eq _ (by rw [hcarry, hmonth]; omega), hcarry, hmonth, Nat.div_eq_of_lt hmon,
      Int.natCast_zero, Int.add_zero]
  rw [timegm_eq hdays (by omega) rfl rfl, hcarry]
  have hyears : daysSince (t.tmYear - 70) = daysFrom 1970 n := by
    rw [hyear, Int.add_sub_cancel, daysSince_eq]
  have hmono := daysFrom_mono 1970 (show n + 1 ≤ 130 by omega)
  have hleap : (t.tmYear + 1900 : Int) = (1970 + n : Nat) := by omega
  rw [daysFrom, daysFrom_2100] at hmono
  simp only [hyears, hleap, isLeap_iff]
  unfold yearLength at hmono
  by_cases h : IsLeap (1970 + n)
  · rw [if_pos h] at hmono
    split_ifs <;> omega
  · rw [if_neg h] at hmono
    rw [if_neg fun hno => h hno.1]
    omega

theorem rtcGetTime_le (time : Bool) (r : Regs) : (rtcGetTime time r).u8Hour.toNat ≤ 23 ∧
    (rtcGetTime time r).u8Minute.toNat ≤ 59 ∧ (rtcGetTime time r).u8Second.toNat ≤ 59 := by
  cases time with
  | true => exact ⟨(r.holds .hour).2, (r.holds .min).2, (r.holds .sec).2⟩
  | false => exact ⟨zero_le _, zero_le _, zero_le _⟩

theorem rtcGetDate_le (date : Bool) (r : Regs) : (rtcGetDate date r).u8Year.toNat ≤ 99 ∧
    (rtcGetDate date r).u8Month.toNat ≤ 12 ∧ (rtcGetDate date r).u8Day.toNat ≤ 31 ∧
      ((rtcGetDate date r).u8Month = 0 → (rtcGetDate date r).u8Day.toNat = 0) := by
  cases date with
  | true =>
    refine ⟨(r.holds .year).2, (r.holds .mon).2, (r.holds .day).2, fun hzero => ?_⟩
    have hmon : (1 : UInt8) ≤ (rtcGetDate true r).u8Month := (r.holds .mon).1
    rw [hzero] at hmon
    exact absurd hmon (by decide)
  | false => exact ⟨zero_le _, zero_le _, zero_le _, fun _ => rfl⟩

theorem hc32RtcGetTimeStamp_lt (time date : Bool) (first second : Regs) :
    hc32RtcGetTimeStamp time date first second < 47482 * 86400 := by
  obtain ⟨hhour, hminute, hsecond⟩ := rtcGetTime_le time first
  obtain ⟨hyear, hmonth, hday, hzero⟩ := rtcGetDate_le date second
  unfold hc32RtcGetTimeStamp
  generalize rtcGetTime time first = stcRtcTime at *
  generalize rtcGetDate date second = stcRtcDate at *
  have hmday : (tmNew stcRtcTime stcRtcDate).tmMday ≤ 31 := by
    unfold tmNew
    dsimp only
    split_ifs with hnone
    · rw [hzero hnone]
      decide
    · omega
  have hmon : (tmNew stcRtcTime stcRtcDate).tmMon < 12 := by
    unfold tmNew
    dsimp only
    split_ifs with hnone
    · rw [hnone]
      decide
    · omega
  have hnew : (tmNew stcRtcTime stcRtcDate).tmYear =
      ((stcRtcDate.u8Year.toNat + 30 : Nat) : Int) + 70 := by
    unfold tmNew
    dsimp only
    omega
  refine timegm_lt ?_ ?_ ?_ hmday hmon hnew (by omega) <;> unfold tmNew <;> dsimp only <;> omega

theorem narrow_toNat {n : Nat} (h : n < 256) : (narrow n).toNat = n := by
  unfold narrow
  rw [show ((n : Int) % 256).toNat = n by omega, UInt8.toNat_ofNat', Nat.mod_eq_of_lt h]

namespace Regs

variable {hw : Hardware} {r : Regs}

@[simp]
theorem write_self (f : Register) (b : UInt8) :
    (r.write hw f b).value f = hw.hold f (r.value f) b :=
  update_self ..

@[simp]
theorem write_of_ne {f g : Register} (h : g ≠ f) (b : UInt8) :
    (r.write hw f b).value g = r.value g :=
  update_of_ne h ..

theorem write_eq_self {f : Register} {b : UInt8} (h : hw.hold f (r.value f) b = r.value f) :
    r.write hw f b = r := by
  refine Regs.ext ?_ rfl
  unfold write
  dsimp only
  rw [h, update_eq_self]

/-- To write a time would change nothing. -/
def HasTime (hw : Hardware) (r : Regs) (stcRtcTime : StcRtcTime) : Prop :=
  hw.hold .hour (r.value .hour) (dec2bcd stcRtcTime.u8Hour) = r.value .hour ∧
    hw.hold .min (r.value .min) (dec2bcd stcRtcTime.u8Minute) = r.value .min ∧
      hw.hold .sec (r.value .sec) (dec2bcd stcRtcTime.u8Second) = r.value .sec

/-- To write a date would change nothing. -/
def HasDate (hw : Hardware) (r : Regs) (stcRtcDate : StcRtcDate) : Prop :=
  hw.hold .year (r.value .year) (dec2bcd stcRtcDate.u8Year) = r.value .year ∧
    hw.hold .mon (r.value .mon) (dec2bcd stcRtcDate.u8Month) = r.value .mon ∧
      hw.hold .day (r.value .day) (dec2bcd stcRtcDate.u8Day) = r.value .day ∧
        stcRtcDate.u8Weekday = r.week

theorem HasTime.putTime_eq (h : r.HasTime hw stcRtcTime) : r.putTime hw stcRtcTime = r := by
  obtain ⟨hhour, hmin, hsec⟩ := h
  unfold putTime
  dsimp only
  rw [write_eq_self hhour, write_eq_self hmin, write_eq_self hsec]

theorem HasDate.putDate_eq (h : r.HasDate hw stcRtcDate) : r.putDate hw stcRtcDate = r := by
  obtain ⟨hyear, hmon, hday, hweek⟩ := h
  unfold putDate
  dsimp only
  rw [write_eq_self hyear, write_eq_self hmon, write_eq_self hday, hweek]

/-- The registers after a time and a date were written. -/
theorem value_put (hw : Hardware) (r : Regs) (stcRtcTime : StcRtcTime) (stcRtcDate : StcRtcDate) :
    let s := (r.putTime hw stcRtcTime).putDate hw stcRtcDate
    (s.value .hour = hw.hold .hour (r.value .hour) (dec2bcd stcRtcTime.u8Hour) ∧
      s.value .min = hw.hold .min (r.value .min) (dec2bcd stcRtcTime.u8Minute) ∧
      s.value .sec = hw.hold .sec (r.value .sec) (dec2bcd stcRtcTime.u8Second)) ∧
    s.value .year = hw.hold .year (r.value .year) (dec2bcd stcRtcDate.u8Year) ∧
      s.value .mon = hw.hold .mon (r.value .mon) (dec2bcd stcRtcDate.u8Month) ∧
      s.value .day = hw.hold .day (r.value .day) (dec2bcd stcRtcDate.u8Day) ∧
      s.week = stcRtcDate.u8Weekday := by
  simp [putTime, putDate]

theorem putTime_eq_iff : r.putTime hw stcRtcTime = r ↔ r.HasTime hw stcRtcTime := by
  refine ⟨fun h => ?_, HasTime.putTime_eq⟩
  have hvalue (f : Register) := congrFun (congrArg Regs.value h) f
  refine ⟨?_, ?_, ?_⟩
  · simpa [putTime] using hvalue .hour
  · simpa [putTime] using hvalue .min
  · simpa [putTime] using hvalue .sec

theorem put_eq_iff : (r.putTime hw stcRtcTime).putDate hw stcRtcDate = r ↔
      r.HasTime hw stcRtcTime ∧ r.HasDate hw stcRtcDate := by
  constructor
  · intro h
    have hput := value_put hw r stcRtcTime stcRtcDate
    dsimp only at hput
    rw [h] at hput
    obtain ⟨⟨hhour, hmin, hsec⟩, hyear, hmon, hday, hweek⟩ := hput
    exact ⟨⟨hhour.symm, hmin.symm, hsec.symm⟩, hyear.symm, hmon.symm, hday.symm, hweek.symm⟩
  · rintro ⟨htime, hdate⟩
    rw [htime.putTime_eq, hdate.putDate_eq]

end Regs

theorem Hardware.read_hold (hw : Hardware) (f : Register) (old : UInt8) {n : Nat}
    (hlow : f.low.toNat ≤ n) (hhigh : n ≤ f.high.toNat) :
    (bcd2dec (hw.hold f old (dec2bcd (narrow n)))).toNat = n := by
  have hbyte := f.high.toNat_lt
  have hn := narrow_toNat (show n < 256 by omega)
  have hholds : f.Holds (narrow n) := by
    refine ⟨UInt8.le_iff_toNat_le.mpr ?_, UInt8.le_iff_toNat_le.mpr ?_⟩ <;> rw [hn] <;> assumption
  rw [hw.hold_dec2bcd old hholds, bcd2dec_dec2bcd hholds.le, hn]

/-- A time from 2000 to 2099 that was written is read back. -/
theorem Regs.reads_put (hw : Hardware) (r : Regs) {d : Date} {sec : Nat} (hsec : sec < 86400)
    (hearly : 2000 ≤ d.year) (hlate : d.year < 2100) :
    let s := (r.putTime hw (timeOf (civil d sec))).putDate hw (dateOf (civil d sec))
    (rtcGetTime true s).Reads sec ∧ (rtcGetDate true s).Reads d := by
  intro s
  obtain ⟨⟨hhour, hmin, hsecond⟩, hyear, hmon, hday, -⟩ :=
    Regs.value_put hw r (timeOf (civil d sec)) (dateOf (civil d sec))
  have hmonth := d.month_lt
  have hpos := d.day_pos
  have hlength : d.day ≤ 31 := by
    have hmonthLength : monthLength d.year d.month ≤ 31 := by
      unfold monthLength
      split
      · split_ifs <;> decide
      all_goals decide
    exact d.day_le.trans hmonthLength
  have hcentury : (dateOf (civil d sec)).u8Year = narrow ((d.year - 2000 : Nat) : Int) := by
    unfold dateOf civil
    dsimp only
    congr 1
    omega
  have hreadYear : (bcd2dec (s.value .year)).toNat = d.year - 2000 := by
    rw [hyear, hcentury]
    exact hw.read_hold .year _ (zero_le _) (show d.year - 2000 ≤ 99 by omega)
  have hreadMonth : (bcd2dec (s.value .mon)).toNat = d.month + 1 := by
    exact hw.read_hold .mon _ (show 1 ≤ d.month + 1 by omega) (show d.month + 1 ≤ 12 by omega)
  have hreadDay : (bcd2dec (s.value .day)).toNat = d.day := by
    exact hw.read_hold .day _ hpos hlength
  refine ⟨⟨?_, ?_, ?_⟩, ?_, ?_⟩
  · change (bcd2dec (s.value .hour)).toNat = sec / 3600
    exact hw.read_hold .hour _ (zero_le _) (show sec / 3600 ≤ 23 by omega)
  · change (bcd2dec (s.value .min)).toNat = sec / 60 % 60
    exact hw.read_hold .min _ (zero_le _) (show sec / 60 % 60 ≤ 59 by omega)
  · change (bcd2dec (s.value .sec)).toNat = sec % 60
    rw [hsecond]
    exact hw.read_hold .sec _ (zero_le _) (show sec % 60 ≤ 59 by omega)
  · change d.year = 2000 + (bcd2dec (s.value .year)).toNat
    omega
  · change if bcd2dec (s.value .mon) = 0 then
        d.month = 0 ∧ d.day = (bcd2dec (s.value .day)).toNat + 1
      else d.month + 1 = (bcd2dec (s.value .mon)).toNat ∧ d.day = (bcd2dec (s.value .day)).toNat
    rw [if_neg, hreadMonth, hreadDay]
    · exact ⟨rfl, rfl⟩
    · intro hzero
      rw [hzero] at hreadMonth
      exact absurd hreadMonth (Nat.succ_ne_zero d.month).symm

theorem year_lt_iff (days n : Nat) :
    (Date.after 1970 days).year < 1970 + n ↔ days < daysFrom 1970 n := by
  have hnumber := Date.number_after 1970 days
  have hyear := Date.year_le_after 1970 days
  generalize Date.after 1970 days = d at *
  have hless := d.dayOfYear_lt_yearLength
  unfold Date.number at hnumber
  rcases Nat.lt_or_ge d.year (1970 + n) with hlt | hge
  · have hmono := daysFrom_mono 1970 (show d.year - 1970 + 1 ≤ n by omega)
    rw [daysFrom, Nat.add_sub_cancel' hyear] at hmono
    exact ⟨fun _ => by omega, fun _ => hlt⟩
  · have hmono := daysFrom_mono 1970 (show n ≤ d.year - 1970 by omega)
    exact ⟨fun h => absurd h (by omega), fun h => absurd h (by omega)⟩

/-- The first second of 2000. -/
def year2000 : Int := 10957 * 86400

/-- The first second of 2100. -/
def year2100 : Int := 47482 * 86400

theorem gmtimeR_neg {t : Int} (h : t < 0) : (gmtimeR t).tmYear = 70 := by
  have hdays : t.tdiv spd ≤ 0 := by
    have hnonneg : 0 ≤ (-t).tdiv spd := Int.tdiv_nonneg (by omega) (by decide)
    rw [Int.neg_tdiv] at hnonneg
    omega
  have hpos := yearDays_pos 1970
  have hyearOf : yearOf 1970 (t.tdiv spd) = (1970, t.tdiv spd) := by
    rw [yearOf, if_neg (by omega)]
  unfold gmtimeR
  dsimp only
  rw [hyearOf]
  rfl

theorem tmYear_lt_iff (t : Int) : (gmtimeR t).tmYear < 100 ↔ t < year2000 := by
  unfold year2000
  rcases lt_or_ge t 0 with hneg | hnonneg
  · rw [gmtimeR_neg hneg]
    exact ⟨fun _ => by omega, fun _ => by decide⟩
  · lift t to Nat using hnonneg
    have hyear := year_lt_iff (t / 86400) 30
    rw [daysFrom_2000] at hyear
    rw [gmtimeR_eq]
    unfold civil
    dsimp only
    omega

theorem hc32RtcSetTimeStamp_eq (hw : Hardware) (time date : Switches) (r : Regs) (t : Int) :
    hc32RtcSetTimeStamp hw time date r t =
      if t < year2000 ∨ ¬time.enter then (false, r)
      else if ¬time.exit ∨ ¬date.enter then (false, r.putTime hw (timeOf (gmtimeR t)))
      else (date.exit, (r.putTime hw (timeOf (gmtimeR t))).putDate hw (dateOf (gmtimeR t))) := by
  unfold hc32RtcSetTimeStamp rtcSetTime rtcSetDate
  simp only [tmYear_lt_iff]
  by_cases hearly : t < year2000
  · rw [if_pos hearly, if_pos (.inl hearly)]
  · rw [if_neg hearly]
    cases time.enter <;> cases time.exit <;> cases date.enter <;> simp [hearly]

/-- The time of one reading and the date of a later one come to a time between the two: where both
halves are read, no midnight is in between, and where one of them is not, the zeros that stand for
it do no harm. -/
def Between (time date : Bool) (t u : Int) : Prop :=
  match time, date with
  | true, true => t % 86400 ≤ u % 86400
  | true, false => t / 86400 = 10957
  | false, true => t % 86400 = 0 ∨ t / 86400 < u / 86400
  | false, false => t = year2000

theorem Regs.Shows.le {t : Nat} (h : r.Shows t) : 10957 ≤ t / 86400 := by
  have hyear := h.2.1
  have hiff := year_lt_iff (t / 86400) 30
  rw [daysFrom_2000] at hiff
  omega

theorem between_iff (time date : Bool) {first second : Regs} {t u : Nat} (hfirst : first.Shows t)
    (hsecond : second.Shows u) (hle : t ≤ u) :
    ((t : Int) ≤ hc32RtcGetTimeStamp time date first second ∧
      hc32RtcGetTimeStamp time date first second ≤ u) ↔ Between time date t u := by
  have hstart := hfirst.le
  rw [hc32RtcGetTimeStamp_eq time date hfirst hsecond]
  cases time <;> cases date <;> simp only [Between, year2000, if_true, if_false,
    Bool.false_eq_true] <;> omega

/-- A time stamp that was accepted is read again where it is from before 2100. -/
theorem accepted_iff {hw : Hardware} {time date : Switches} {t : Int}
    (h : (hc32RtcSetTimeStamp hw time date r t).1 = true) (readTime readDate : Bool) :
    hc32RtcGetTimeStamp readTime readDate (hc32RtcSetTimeStamp hw time date r t).2
      (hc32RtcSetTimeStamp hw time date r t).2 = t ↔
        t < year2100 ∧ Between readTime readDate t t := by
  rw [hc32RtcSetTimeStamp_eq] at h ⊢
  split_ifs at h ⊢ with hearly hhalf
  have hnonneg : 0 ≤ t := by
    have hyear : ¬t < year2000 := fun hlt => hearly (.inl hlt)
    unfold year2000 at hyear
    omega
  dsimp only
  rcases lt_or_ge t year2100 with hlt | hge
  · lift t to Nat using hnonneg
    have hfirst := year_lt_iff (t / 86400) 30
    have hlast := year_lt_iff (t / 86400) 130
    rw [daysFrom_2000] at hfirst
    rw [daysFrom_2100] at hlast
    unfold year2100 year2000 at *
    have hshows :
        ((r.putTime hw (timeOf (gmtimeR t))).putDate hw (dateOf (gmtimeR t))).Shows t := by
      rw [gmtimeR_eq]
      exact Regs.reads_put hw r (Nat.mod_lt _ (by decide)) (by omega) (by omega)
    have hbetween := between_iff readTime readDate hshows hshows (Nat.le_refl t)
    rw [← hbetween]
    omega
  · have hless := hc32RtcGetTimeStamp_lt readTime readDate
      ((r.putTime hw (timeOf (gmtimeR t))).putDate hw (dateOf (gmtimeR t)))
      ((r.putTime hw (timeOf (gmtimeR t))).putDate hw (dateOf (gmtimeR t)))
    unfold year2100 at hge ⊢
    exact ⟨fun heq => absurd heq (by omega), fun hno => absurd hno.1 (by omega)⟩

/-- The registers are left where nothing is written, or nothing new. -/
theorem unchanged_iff (hw : Hardware) (time date : Switches) (r : Regs) (t : Int) :
    (hc32RtcSetTimeStamp hw time date r t).2 = r ↔ t < year2000 ∨ ¬time.enter ∨
      r.HasTime hw (timeOf (gmtimeR t)) ∧
        (¬time.exit ∨ ¬date.enter ∨ r.HasDate hw (dateOf (gmtimeR t))) := by
  rw [hc32RtcSetTimeStamp_eq]
  split_ifs with hearly hhalf
  · exact ⟨fun _ => hearly.imp_right .inl, fun _ => rfl⟩
  · rw [Regs.putTime_eq_iff, ← or_assoc, or_iff_right hearly, ← or_assoc, and_iff_left (.inl hhalf)]
  · rw [Regs.put_eq_iff, ← or_assoc, or_iff_right hearly, ← or_assoc, or_iff_right hhalf]

/-- What is set is got as long as the hardware has the year, a refusal leaves the clock alone unless
the time was written before it, and a reading is right where no midnight divides it. -/
theorem hc32Rtc_timeStamp (hw : Hardware) :
    (∀ (time date : Switches) (r : Regs) (t : Int),
      let (ok, s) := hc32RtcSetTimeStamp hw time date r t
      if ok then ∀ readTime readDate : Bool, hc32RtcGetTimeStamp readTime readDate s s = t ↔
        t < year2100 ∧ Between readTime readDate t t
      else s = r ↔ t < year2000 ∨ ¬time.enter ∨ r.HasTime hw (timeOf (gmtimeR t)) ∧
        (¬time.exit ∨ ¬date.enter ∨ r.HasDate hw (dateOf (gmtimeR t)))) ∧
    ∀ (readTime readDate : Bool) (first second : Regs) (t ticks : Nat),
      first.Shows t → second.Shows (t + ticks) →
        (((t : Int) ≤ hc32RtcGetTimeStamp readTime readDate first second ∧
          hc32RtcGetTimeStamp readTime readDate first second ≤ (t + ticks : Nat)) ↔
            Between readTime readDate t (t + ticks : Nat)) := by
  refine ⟨fun time date r t => ?_, fun readTime readDate first second t ticks hfirst hsecond =>
    between_iff readTime readDate hfirst hsecond (Nat.le_add_right t ticks)⟩
  dsimp only
  split_ifs with hok
  · exact accepted_iff hok
  · exact unchanged_iff hw time date r t

/-- Hardware that keeps what it has where it is given anything else. -/
def rejecting : Hardware where
  hold f old b := if f.low ≤ bcd2dec b ∧ bcd2dec b ≤ f.high then b else old
  hold_dec2bcd {f x} old hx := by
    rw [bcd2dec_dec2bcd hx.le]
    exact if_pos hx
  holds_hold {f old} b hold := by
    by_cases h : f.low ≤ bcd2dec b ∧ bcd2dec b ≤ f.high
    · rw [if_pos h]
      exact h
    · rw [if_neg h]
      exact hold

/-- The first day of 2000, a second before midnight. -/
def lastSecond : Regs where
  value
    | .hour => 0x23
    | .min | .sec => 0x59
    | .year => 0
    | .mon | .day => 1
  week := 6
  holds f := by cases f <;> exact ⟨by decide, by decide⟩

/-- The day after it. -/
def midnight : Regs where
  value
    | .mon => 1
    | .day => 2
    | _ => 0
  week := 0
  holds f := by cases f <;> exact ⟨by decide, by decide⟩

theorem shows_lastSecond : lastSecond.Shows 946771199 := by
  have hday : Date.after 1970 10957 = Date.newYear 2000 :=
    (Date.eq_after (by decide) number_newYear).symm
  refine ⟨⟨by decide, by decide, by decide⟩, ?_⟩
  rw [hday]
  exact ⟨by decide, by decide, by decide⟩

theorem shows_midnight : midnight.Shows 946771200 := by
  have hday : Date.after 1970 10957 = Date.newYear 2000 :=
    (Date.eq_after (by decide) number_newYear).symm
  refine ⟨⟨by decide, by decide, by decide⟩, ?_⟩
  rw [Date.after_succ, hday]
  exact ⟨by decide, by decide, by decide⟩

/-- With midnight between the two halves the reading is no time that has passed. -/
theorem hc32Rtc_timeStamp_midnight :
    ((946771199 : Nat) : Int) ≤ hc32RtcGetTimeStamp true true lastSecond midnight ∧
      hc32RtcGetTimeStamp true true lastSecond midnight ≤ (946771199 + 1 : Nat) ↔
        Between true true (946771199 : Nat) (946771199 + 1 : Nat) :=
  (hc32Rtc_timeStamp rejecting).2 true true lastSecond midnight 946771199 1 shows_lastSecond
    shows_midnight

/-- Where the second between the two halves ends a day, almost a day too much is read; and where
only the time can be written, the registers are changed though the time stamp is refused. -/
theorem hc32Rtc_timeStamp_halves :
    hc32RtcGetTimeStamp true true lastSecond midnight = 946771200 + 86399 ∧
      (hc32RtcSetTimeStamp rejecting ⟨true, true⟩ ⟨false, true⟩ lastSecond 946684800).1 = false ∧
      (hc32RtcSetTimeStamp rejecting ⟨true, true⟩ ⟨false, true⟩ lastSecond 946684800).2 ≠
        lastSecond := by
  refine ⟨hc32RtcGetTimeStamp_eq true true shows_lastSecond shows_midnight, ?_, ?_⟩
  · rw [hc32RtcSetTimeStamp_eq]
    rfl
  · rw [Ne, unchanged_iff]
    rintro (hearly | hno | ⟨⟨hhour, -⟩, -⟩)
    · exact absurd hearly (by decide)
    · exact absurd rfl hno
    · rw [show ((946684800 : Int)) = ((946684800 : Nat) : Int) from rfl, gmtimeR_eq] at hhour
      exact absurd hhour (by decide)

end RtKernel.Rtc

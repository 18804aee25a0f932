import Mathlib.Data.List.Nodup
import RtKernel.Core.Run

/-!
# Daily alarms

All alarms share the one alarm of the RTC. It is armed anew when an alarm is started or stopped and
when the service has handled an event, each time after a reading of the clock, and the clock goes on
meanwhile. A call has the mutex of the container from its first step to its last.
-/

namespace RtKernel.Alarm

open Function

/-- `24 * 3600`. -/
def daySeconds : Nat := 86400

/-- `RT_ALARM_DELAY`. -/
def rtAlarmDelay : Nat := 2

/-- Who calls `alarm_update`: the service, or `rt_alarm_stop` and `rt_alarm_delete`, the latter with
the alarm that it deletes afterwards. -/
inductive Caller (ι : Type*)
  | service
  | user (deletes : Option ι)
  deriving DecidableEq

/-- Where the call is that has the mutex: `rt_alarm_start` before it reads the clock; `alarm_update`
before its first and its second reading; before `alarm_set`. -/
inductive Phase (ι : Type*)
  | idle
  | starts (alarm : ι)
  | wakes (caller : Caller ι)
  | selects (caller : Caller ι)
  | arms (alarm : Option ι) (caller : Caller ι)
  deriving DecidableEq

/-- The container, the RTC and the service. Times of alarms are in seconds of the day. -/
structure Container (ι : Type*) where
  now : Nat
  /-- `_container.head`, and the fields of the alarms. -/
  list : List ι
  wktime : ι → Nat
  started : ι → Bool
  current : Option ι
  /-- The time that the RTC is armed for. -/
  armed : Option Nat
  /-- The event that the RTC has raised, and the one that the service has received and has not yet
  read the clock for, with the time when they were raised. -/
  event : Option Nat
  received : Option Nat
  phase : Phase ι
  /-- When an alarm was started, and the invocations of its callback. -/
  since : ι → Nat
  calls : ι → List Nat
  /-- When an update last looked for alarms in their time. -/
  lastUpdate : Option Nat

/-- What happens: the clock goes on by a second, the service receives an event or takes the mutex,
a user takes it, or who has it goes on. -/
inductive Act (ι : Type*)
  | tick
  | receive
  | serve
  | create (alarm : ι) (wktime : Nat)
  | start (alarm : ι)
  | stop (alarm : ι)
  | delete (alarm : ι)
  | goOn

/-- What `alarm_setup` makes of the time of a daily alarm. -/
def alarmSetup (wktime : Nat) : Nat :=
  if wktime = 23 * 3600 + 59 * 60 + 59 then 23 * 3600 + 59 * 60 + (60 - rtAlarmDelay) else wktime

namespace Container

variable {ι : Type*}

/-- `alarm_mkdaysec` of the clock. -/
def secNow (s : Container ι) : Nat := s.now % daySeconds

/-- The condition of `alarm_wakeup`. -/
def wakesUp (s : Container ι) (alarm : ι) : Prop :=
  s.started alarm = true ∧ s.wktime alarm ≤ s.secNow ∧ s.secNow - s.wktime alarm ≤ rtAlarmDelay

instance (s : Container ι) (alarm : ι) : Decidable (s.wakesUp alarm) := instDecidableAnd

/-- `sec_next`, `alm_next`, `sec_prev` and `alm_prev`. -/
structure Choice (ι : Type*) where
  secNext : Int
  almNext : Option ι
  secPrev : Int
  almPrev : Option ι

/-- A turn of the second loop of `alarm_update`. -/
def choose (s : Container ι) (c : Choice ι) (alarm : ι) : Choice ι :=
  if s.started alarm = true then
    let secTmp : Int := s.wktime alarm - s.secNow
    if secTmp > 0 then
      if secTmp < c.secNext then { c with secNext := secTmp, almNext := some alarm } else c
    else if secTmp < c.secPrev then { c with secPrev := secTmp, almPrev := some alarm }
    else c
  else c

/-- The alarm that `alarm_update` arms the RTC for. -/
def selected (s : Container ι) : Option ι :=
  let c := s.list.foldl s.choose ⟨daySeconds, none, 0, none⟩
  if c.secNext < daySeconds then c.almNext
  else if c.secPrev < 0 then c.almPrev
  else s.current

/-- `alarm_set`, and the alarm is the current one. -/
def alarmSet (s : Container ι) (alarm : ι) : Container ι :=
  { s with
    armed := if s.started alarm = true then some (s.wktime alarm) else none
    current := some alarm }

/-- Whether `rt_alarm_start` sets the alarm, with `sec_now`, `sec_old` and `sec_new`. -/
def sooner (secNow secOld secNew : Nat) : Prop :=
  secNew < secOld ∧ secNew > secNow ∨ secNew > secNow ∧ secOld < secNow ∨
    secNew < secOld ∧ secOld < secNow

instance (secNow secOld secNew : Nat) : Decidable (sooner secNow secOld secNew) := instDecidableOr

/-- An event that was raised at that time is handled in time. -/
def inTime (raised : Option Nat) (now : Nat) : Bool :=
  raised.all fun t => now ≤ t + rtAlarmDelay

section

variable [DecidableEq ι]

/-- `alarm_wakeup`. -/
def alarmWakeup (s : Container ι) (alarm : ι) : Container ι :=
  if s.wakesUp alarm then
    { s with calls := update s.calls alarm (s.calls alarm ++ [s.now]) }
  else s

/-- `alarm_update` returns, and the mutex is released. -/
def finish (s : Container ι) : Caller ι → Container ι
  | .service | .user none => { s with phase := .idle }
  | .user (some alarm) => { s with phase := .idle, list := s.list.erase alarm }

/-- The alarm is stopped, and the RTC is no longer armed for it. -/
def clear (s : Container ι) (alarm : ι) : Container ι :=
  let s := { s with started := update s.started alarm false }
  if s.current = some alarm then { s with armed := none, current := none } else s

/-- The step of the call that has the mutex. -/
def goOn (s : Container ι) : Option (Container ι) :=
  match s.phase with
  | .idle => none
  | .starts alarm =>
    let s := { s with
      started := update s.started alarm true
      since := update s.since alarm s.now }
    match s.current with
    | none => some { s with phase := .arms (some alarm) (.user none) }
    | some current =>
      if sooner s.secNow (s.wktime current) (s.wktime alarm) then
        some { s with phase := .arms (some alarm) (.user none) }
      else some { s with phase := .idle }
  | .wakes caller =>
    let s := match caller with
      | .service => { s with received := none }
      | .user _ => s
    if s.list = [] then some (s.finish caller)
    else
      some { s.list.foldl alarmWakeup s with
        phase := .selects caller
        lastUpdate := some s.now }
  | .selects caller => some { s with phase := .arms s.selected caller }
  | .arms none caller => some (s.finish caller)
  | .arms (some alarm) caller => some ((s.alarmSet alarm).finish caller)

def exec (s : Container ι) : Act ι → Option (Container ι)
  | .tick =>
    let now := s.now + 1
    -- the service reads the clock within `RT_ALARM_DELAY` of the event
    if inTime s.event now && inTime s.received now then
      some { s with
        now := now
        event := if s.armed = some (now % daySeconds) then s.event.or (some now) else s.event }
    else none
  | .receive =>
    if s.received = none ∧ s.event ≠ none then some { s with event := none, received := s.event }
    else none
  | .serve =>
    if s.phase = .idle ∧ s.received ≠ none then some { s with phase := .wakes .service } else none
  | .create alarm wktime =>
    if s.phase = .idle ∧ alarm ∉ s.list ∧ wktime < daySeconds then
      some { s with
        list := alarm :: s.list
        wktime := update s.wktime alarm wktime
        started := update s.started alarm false
        calls := update s.calls alarm [] }
    else none
  | .start alarm =>
    if s.phase = .idle ∧ alarm ∈ s.list then
      if s.started alarm = true then some s
      else
        some { s with
          wktime := update s.wktime alarm (alarmSetup (s.wktime alarm))
          phase := .starts alarm }
    else none
  | .stop alarm =>
    if s.phase = .idle ∧ alarm ∈ s.list then
      if s.started alarm = true then some { s.clear alarm with phase := .wakes (.user none) }
      else some s
    else none
  | .delete alarm =>
    if s.phase = .idle ∧ alarm ∈ s.list then
      if s.current = some alarm then
        some { s.clear alarm with phase := .wakes (.user (some alarm)) }
      else some ((s.clear alarm).finish (.user (some alarm)))
    else none
  | .goOn => s.goOn

def Step (s : Container ι) (a : Act ι) (s' : Container ι) : Prop := s.exec a = some s'

end

/-- No alarm has been created. -/
def Initial (s : Container ι) : Prop :=
  s.list = [] ∧ (∀ a, s.started a = false) ∧ s.current = none ∧ s.armed = none ∧ s.event = none ∧
    s.received = none ∧ s.phase = .idle ∧ (∀ a, s.calls a = []) ∧ s.lastUpdate = none

/-- The seconds until a time of the day comes next. -/
def till (now sec : Nat) : Nat :=
  if now % daySeconds < sec then sec - now % daySeconds else sec + daySeconds - now % daySeconds

/-- No started alarm comes before this one. -/
def Next (s : Container ι) (alarm : ι) : Prop :=
  ∀ other, s.started other = true → till s.now (s.wktime alarm) ≤ till s.now (s.wktime other)

/-- The time of an alarm on a day. -/
def timeOn (s : Container ι) (alarm : ι) (day : Nat) : Nat := day * daySeconds + s.wktime alarm

/-- The invocations of a callback on a day. -/
def callsOn (s : Container ι) (alarm : ι) (day : Nat) : List Nat :=
  (s.calls alarm).filter fun t => t / daySeconds = day

/-- The callback has been invoked once on that day, and in time. -/
def Once (s : Container ι) (alarm : ι) (day : Nat) : Prop :=
  ∃ t, s.callsOn alarm day = [t] ∧ s.timeOn alarm day ≤ t ∧ t ≤ s.timeOn alarm day + rtAlarmDelay

/-- An event has been raised that the service has not handled. -/
def Waits (s : Container ι) : Prop := s.event ≠ none ∨ s.received ≠ none

/-- The RTC is armed for the alarm that comes next, and each day an alarm has been called that was
started when the day began, and still is. -/
structure Kept (s : Container ι) : Prop where
  armed : s.phase = .idle → ¬ s.Waits → (∃ alarm, s.started alarm = true) →
    ∃ alarm, s.started alarm = true ∧ s.armed = some (s.wktime alarm) ∧ s.Next alarm
  daily : ∀ alarm day, s.started alarm = true → s.since alarm < day * daySeconds →
    (day + 1) * daySeconds ≤ s.now → s.Once alarm day

/-- What a call may meet. An alarm is not started in the second of the current one; no two updates
look for alarms in the time of one; and a current alarm is not stopped in the second of all
others. -/
def CallCareful (s : Container ι) : Prop :=
  match s.phase with
  | .starts alarm => ∀ current ∈ s.current, s.wktime current = s.secNow →
      s.wktime alarm = s.secNow ∨ s.Waits
  | .wakes _ => ∀ alarm, s.wakesUp alarm →
      s.since alarm < s.timeOn alarm (s.now / daySeconds) →
        ∀ last ∈ s.lastUpdate, last < s.timeOn alarm (s.now / daySeconds)
  | .selects _ => s.current = none → s.Waits ∨ ∀ alarm, s.started alarm = true →
      ∃ other, s.started other = true ∧ s.wktime other ≠ s.secNow
  | .idle | .arms _ _ => True

/-- While a call has the mutex the time of a started alarm comes only where the RTC raises an event
for it, or one waits; and no event waits when a day begins. -/
def TickCareful (s : Container ι) : Prop :=
  (s.phase ≠ .idle → s.Waits ∨ s.armed = some ((s.now + 1) % daySeconds) ∨
    ∀ alarm, s.started alarm = true → s.wktime alarm ≠ (s.now + 1) % daySeconds) ∧
  ((s.now + 1) % daySeconds = 0 → ¬ s.Waits)

def Careful (s : Container ι) : Act ι → Prop
  | .tick => s.TickCareful
  | .goOn => s.CallCareful
  | .receive | .serve | .create _ _ | .start _ | .stop _ | .delete _ => True

end Container

end RtKernel.Alarm

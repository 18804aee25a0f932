import RtKernel.Libc.Clock
import RtKernel.Timer.Deadlines

/-!
# POSIX timers

`timer_settime` arms a timer of the kernel, and `timer_gettime` says what is left of it. The timers
are made already; what a timer of the kernel is made with is not read before it is set. The
notification is the callback of the kernel's timer.
-/

namespace RtKernel.PosixTimer

open Libc Timer Timers Function List

/-- `struct timer_obj`, without the timer of the kernel. -/
structure TimerObj where
  interval : Timespec
  reload : Nat
  /-- `status`. -/
  active : Bool

/-- Since when a timer is armed, and with what. -/
structure Arming where
  since : Nat
  itValue : Timespec
  itInterval : Timespec

/-- What `timer_gettime` has said was left of a timer, and what was, in ticks. -/
structure Reply where
  itValue : Timespec
  left : Nat

/-- The timers of the kernel, and which of them are POSIX timers. -/
structure System (τ : Type*) where
  sys : Sys τ
  obj : τ → Option TimerObj
  armed : τ → Option Arming
  replies : List Reply

/-- `tv_sec == 0 && tv_nsec == 0`. -/
def IsZero (ts : Timespec) : Prop := ts.tvSec = 0 ∧ ts.tvNsec = 0

instance (ts : Timespec) : Decidable (IsZero ts) := inferInstanceAs (Decidable (_ ∧ _))

/-- The nanoseconds are those of a second. -/
def Proper (ts : Timespec) : Prop := 0 ≤ ts.tvNsec ∧ ts.tvNsec < 1000000000

instance (ts : Timespec) : Decidable (Proper ts) := inferInstanceAs (Decidable (_ ∧ _))

/-- `reload`, where the product is one of 32 bits and divided without a sign. -/
def reloadOf (itInterval : Timespec) : Nat :=
  ((itInterval.tvSec * tickPerSecond +
    itInterval.tvNsec * tickPerSecond % 2 ^ 32 / 1000000000) % 2 ^ 32).toNat

/-- The `it_value` of `timer_gettime`, from `timeout_tick` and the tick. -/
def remainingOf (timeoutTick tick : Nat) : Timespec :=
  let remaining := sub32 timeoutTick tick
  { tvSec := (remaining / tickPerSecond : Nat)
    tvNsec := (remaining % tickPerSecond * 1000 * 1000000 % 2 ^ 32 / tickPerSecond : Nat) }

namespace System

variable {τ : Type*} [DecidableEq τ]

/-- The `it_value` and the `it_interval` that `timer_gettime` stores. -/
def timerGettime (s : System τ) (t : τ) (o : TimerObj) : Timespec × Timespec :=
  if o.active then
    (remainingOf (s.sys.timers.timer t).timeoutTick s.sys.timers.rtTick, o.interval)
  else (⟨0, 0⟩, o.interval)

def setObj (s : System τ) (t : τ) (o : TimerObj) : System τ :=
  { s with obj := update s.obj t (some o) }

/-- `rt_timer_stop`, where the status is `ACTIVE`. -/
def stopActive (s : System τ) (t : τ) (o : TimerObj) : System τ :=
  if o.active then { s with sys := s.sys.apply (.stop t) } else s

/-- `timer_settime`, where `word` is what the memory holds at an address: the ticks of the kernel's
timer are read from the address that `reload` is taken for. An assertion that fails ends the run. -/
def timerSettime (s : System τ) (t : τ) (o : TimerObj) (itValue itInterval : Timespec)
    (word : Nat → Nat) : Option (System τ) :=
  if ¬Proper itInterval ∨ ¬Proper itValue then some s
  else if IsZero itValue then
    some { (s.stopActive t o).setObj t { o with active := false } with
      armed := update s.armed t none }
  else
    let reload := reloadOf itInterval
    let s := s.stopActive t o
    if word reload < rtTickMax / 2 then
      let sys := s.sys.apply (.control t (.setTime (word reload)))
      let sys := sys.apply (.control t .setPeriodic)
      let sys := sys.apply (.start t)
      some { s.setObj t { interval := itInterval, reload := reload, active := true } with
        sys := sys
        armed := update s.armed t (some ⟨s.sys.now, itValue, itInterval⟩) }
    else none

/-- `rtthread_timer_wrapper`, up to the notification. -/
def wrapper (o : TimerObj) : TimerObj := if o.reload = 0 then { o with active := false } else o

/-- The callback of a timer begins. -/
def notified (s : System τ) (t : τ) : System τ :=
  match s.obj t with
  | some o => s.setObj t (wrapper o)
  | none => s

end System

/-- A way to round a time to ticks. -/
structure Rounding where
  ticks : Timespec → Nat
  low : ∀ ts, 0 ≤ ts.nanos → ts.nanos < (ticks ts + 1) * 10 ^ 6
  high : ∀ ts, 0 ≤ ts.nanos → ticks ts * 10 ^ 6 < ts.nanos + 10 ^ 6

/-- The first notification of a timer that was armed. -/
def Arming.first (a : Arming) (r : Rounding) : Nat := a.since + r.ticks a.itValue

/-- When a timer is to notify, up to the count `now`. -/
def Arming.expiries (a : Arming) (r : Rounding) (now : Nat) : List Nat :=
  if now < a.first r then []
  else if IsZero a.itInterval then [a.first r]
  else (List.range ((now - a.first r) / r.ticks a.itInterval + 1)).map
    fun k => a.first r + k * r.ticks a.itInterval

/-- The ticks to the next notification, when there were so many. -/
def Arming.left (a : Arming) (r : Rounding) (now : Nat) : Nat → Nat
  | 0 => a.first r - now
  | k + 1 => if IsZero a.itInterval then 0 else a.first r + (k + 1) * r.ticks a.itInterval - now

/-- A time of that many ticks. -/
def timespecOf (ticks : Nat) : Timespec where
  tvSec := (ticks / 1000 : Nat)
  tvNsec := (ticks % 1000 * 10 ^ 6 : Nat)

/-- The timer that is operated on. -/
def opTimer {τ : Type*} : TimerOp τ → τ
  | .init t .. | .start t | .stop t | .detach t | .control t _ => t

inductive Act (τ : Type*)
  /-- The clock, the check of the timers, and the other timers. -/
  | kernel (a : Timer.Act τ)
  | settime (t : τ) (itValue itInterval : Timespec) (word : Nat → Nat)
  | gettime (t : τ)

namespace System

variable {τ : Type*} [DecidableEq τ]

/-- The ticks that are left of a timer. -/
def left (r : Rounding) (s : System τ) (t : τ) : Nat :=
  match s.armed t with
  | some a => a.left r s.sys.now (s.sys.fires t).length
  | none => 0

/-- A step of the kernel; where it calls a timer, the notification begins. -/
def after (s : System τ) (a : Timer.Act τ) (sys : Sys τ) : System τ :=
  match a, sys.check with
  | .iterate, .callback t => { s.notified t with sys := sys }
  | _, _ => { s with sys := sys }

/-- The steps of the system. The two functions are not called while the check looks at its list. -/
inductive Step (r : Rounding) : System τ → Act τ → System τ → Prop
  | kernel {s a sys} (h : Sys.Step s.sys a sys)
      (hother : ∀ o, a = .op o → s.obj (opTimer o) = none) :
      Step r s (.kernel a) (s.after a sys)
  | settime {s s' t o itValue itInterval word} (h : ∀ tick, s.sys.check ≠ .loop tick)
      (hobj : s.obj t = some o) (hvalue : 0 ≤ itValue.tvSec ∧ Proper itValue)
      (hinterval : 0 ≤ itInterval.tvSec ∧ Proper itInterval)
      (hset : s.timerSettime t o itValue itInterval word = some s') :
      Step r s (.settime t itValue itInterval word) s'
  | gettime {s t o} (h : ∀ tick, s.sys.check ≠ .loop tick) (hobj : s.obj t = some o) :
      Step r s (.gettime t)
        { s with replies := s.replies ++ [⟨(s.timerGettime t o).1, s.left r t⟩] }

/-- Timers that are made, and not armed. -/
def Initial (s : System τ) : Prop :=
  s.sys.Initial ∧ (∀ t, ∀ o ∈ s.obj t, o.active = false) ∧ (∀ t, s.armed t = none) ∧ s.replies = []

/-- What the functions are for: an armed timer has notified when it was to, but for the
notifications of this tick that are still to come, and the replies were right. -/
structure Kept (r : Rounding) (s : System τ) : Prop where
  notifies : ∀ t, ∀ a ∈ s.armed t, s.sys.fires t = a.expiries r s.sys.now ∨
    s.sys.check ≠ .idle ∧ s.sys.fires t = a.expiries r (s.sys.now - 1)
  replies : ∀ reply ∈ s.replies, reply.itValue = timespecOf reply.left

/-- The word at the address has the ticks of the value, and those of the interval; and no more than
four ticks of a broken second are left, of a timer that is not in its notification. -/
def Careful (r : Rounding) (s : System τ) : Act τ → Prop
  | .kernel _ => True
  | .settime _ itValue itInterval word => IsZero itValue ∨
      reloadOf itInterval ≠ 0 ∧ ¬IsZero itInterval ∧ ValidTime (word (reloadOf itInterval)) ∧
        r.ticks itValue = word (reloadOf itInterval) ∧
          r.ticks itInterval = word (reloadOf itInterval)
  | .gettime t => s.armed t = none ∨ t ∉ s.sys.timers.list ∧ s.left r t % 1000 ≤ 4

section

variable {r : Rounding} {s s' : System τ} {t : τ}

/-- What a step of the kernel leaves of a timer that is not operated on. -/
def Same (t : τ) (s s' : Sys τ) : Prop :=
  s'.started t = s.started t ∧ (s'.timers.timer t).initTick = (s.timers.timer t).initTick ∧
    (s'.timers.timer t).periodic = (s.timers.timer t).periodic

/-- A timer is changed by no operation on another one. -/
theorem same_apply {s : Sys τ} {o : TimerOp τ} (h : t ≠ opTimer o) : Same t s (s.apply o) := by
  have hsame : ∀ {s' : Sys τ}, s'.started t = s.started t → s'.timers.timer t = s.timers.timer t →
      Same t s s' := fun hstarted htimer =>
    ⟨hstarted, congrArg RtTimer.initTick htimer, congrArg RtTimer.periodic htimer⟩
  have hstop := fun u (hu : t ≠ u) => setTimer_of_ne (s.timers.timerRemove u) u
    (fun x => { x with activated := false }) hu
  cases o with
  | init u time periodic => exact hsame (update_of_ne h ..) (setTimer_of_ne s.timers u (fun _ =>
      { initTick := time, timeoutTick := 0, activated := false, periodic := periodic }) h)
  | start u => exact hsame (update_of_ne h ..) (rtTimerStart_of_ne _ _ h)
  | stop u =>
    rw [Sys.apply, rtTimerStop]
    by_cases hactive : (s.timers.timer u).activated = true
    · rw [if_pos hactive]
      exact hsame (update_of_ne h ..) (hstop u h)
    · rw [if_neg hactive]
      exact ⟨rfl, rfl, rfl⟩
  | detach u => exact hsame (update_of_ne h ..) (hstop u h)
  | control u cmd =>
    refine hsame (update_of_ne h ..) ?_
    cases cmd with
    | setTime time => exact setTimer_of_ne s.timers u (fun x => { x with initTick := time }) h
    | setOneshot => exact setTimer_of_ne s.timers u (fun x => { x with periodic := false }) h
    | setPeriodic => exact setTimer_of_ne s.timers u (fun x => { x with periodic := true }) h

theorem same_finish (s : Sys τ) (u : τ) : Same t s (s.finish u) := by
  have htimer : ((s.timers.afterCallback u).timer t).initTick = (s.timers.timer t).initTick ∧
      ((s.timers.afterCallback u).timer t).periodic = (s.timers.timer t).periodic := by
    by_cases hlist : s.timers.list = []
    · rw [afterCallback, if_pos hlist]
      exact ⟨rfl, rfl⟩
    · by_cases hper : (s.timers.timer u).periodic ∧ (s.timers.timer u).activated
      · rw [afterCallback_restart hlist hper]
        by_cases htu : t = u
        · rw [htu, rtTimerStart_self]
          exact ⟨rfl, rfl⟩
        · rw [rtTimerStart_of_ne _ _ htu]
          exact ⟨rfl, rfl⟩
      · rw [afterCallback_remove hlist hper]
        exact ⟨rfl, rfl⟩
  unfold Sys.finish
  split_ifs
  · exact ⟨rfl, htimer⟩
  · exact ⟨rfl, htimer⟩

variable {a : Timer.Act τ}

theorem same_step {s s' : Sys τ} (h : Sys.Step s a s')
    (hother : ∀ o, a = .op o → t ≠ opTimer o) : Same t s s' := by
  cases h with
  | tick hidle | check hpending | leave hloop hexpired => exact ⟨rfl, rfl, rfl⟩
  | @fire _ u hloop hexpired =>
    by_cases htu : t = u
    · subst htu
      refine ⟨rfl, ?_, ?_⟩ <;> dsimp only <;> rw [beforeCallback_self]
    · refine ⟨rfl, ?_, ?_⟩ <;> dsimp only <;> rw [beforeCallback_of_ne _ _ htu]
  | callbackReturn hcall => exact same_finish ..
  | op hfree hlegal => exact same_apply (hother _ rfl)

/-- A timer is armed as the kernel's timer is, and what was armed stays active. -/
structure Sound (r : Rounding) (s : System τ) : Prop where
  reach : Reachable Sys.Initial Sys.Step s.sys
  armed : ∀ t, ∀ a ∈ s.armed t, ∃ o, s.obj t = some o ∧ o.active = true ∧ o.reload ≠ 0 ∧
    ¬IsZero a.itInterval ∧ s.sys.started t = some a.since ∧
      (s.sys.timers.timer t).initTick = r.ticks a.itValue ∧
        r.ticks a.itInterval = r.ticks a.itValue ∧ (s.sys.timers.timer t).periodic = true
  disarmed : ∀ t, ∀ o ∈ s.obj t, s.armed t = none → o.active = false
  replies : ∀ reply ∈ s.replies, reply.itValue = timespecOf reply.left

omit [DecidableEq τ] in
/-- With one time for the value and the interval the notifications are those of a periodic timer. -/
theorem expiries_eq {a : Arming} {d now : Nat} (hd : 1 ≤ d) (hvalue : r.ticks a.itValue = d)
    (hinterval : r.ticks a.itInterval = d) (hperiodic : ¬IsZero a.itInterval) :
    schedule a.since d true now = a.expiries r now := by
  unfold schedule Arming.expiries Arming.first
  rw [if_pos rfl, hvalue, hinterval]
  split_ifs with hearly
  · rw [Nat.div_eq_of_lt (by omega)]
    rfl
  · have hcount : (now - a.since) / d = (now - (a.since + d)) / d + 1 := by
      rw [← Nat.add_div_right _ hd]
      congr 1
      omega
    rw [hcount]
    refine map_congr_left fun k _ => ?_
    rw [Nat.add_mul]
    omega

theorem Sound.notifies (h : Sound r s) {a : Arming} (ha : a ∈ s.armed t) :
    s.sys.fires t = a.expiries r s.sys.now ∨
      s.sys.check ≠ .idle ∧ s.sys.fires t = a.expiries r (s.sys.now - 1) := by
  obtain ⟨o, -, -, -, hzero, hstarted, htick, hsame, hperiodic⟩ := h.armed t a ha
  obtain ⟨-, hfires, -⟩ := Sys.reachable_onTime s.sys h.reach
  have hd := ((Sys.reachable_good h.reach).initTick t).1
  rw [htick] at hd
  have hnow := hfires t a.since hstarted
  rw [hperiodic, htick, expiries_eq hd rfl hsame hzero, expiries_eq hd rfl hsame hzero] at hnow
  exact hnow

theorem Sound.kept (h : Sound r s) : Kept r s :=
  ⟨fun _ _ ha => h.notifies ha, h.replies⟩

/-- Four ticks of a broken second still fit into 32 bits. -/
theorem remainingOf_eq {timeoutTick tick ticks : Nat} (hleft : sub32 timeoutTick tick = ticks)
    (hfew : ticks % 1000 ≤ 4) : remainingOf timeoutTick tick = timespecOf ticks := by
  have hnsec : ticks % 1000 * 1000 * 1000000 % 2 ^ 32 / 1000 = ticks % 1000 * 10 ^ 6 := by
    omega
  unfold remainingOf timespecOf tickPerSecond
  dsimp only
  rw [hleft, hnsec]

/-- What is left of the kernel's timer is what is left of the timer. -/
theorem Sound.left_eq (h : Sound r s) {a : Arming} (ha : a ∈ s.armed t)
    (hlist : t ∉ s.sys.timers.list) :
    sub32 (s.sys.timers.timer t).timeoutTick s.sys.timers.rtTick = s.left r t := by
  obtain ⟨o, -, -, -, hzero, hstarted, htick, hsame, hperiodic⟩ := h.armed t a ha
  have hgood := Sys.reachable_good h.reach
  obtain ⟨k, hk⟩ := hgood.schedule t a.since hstarted
  rcases hk.place with ⟨hin, hdeadline, -⟩ | ⟨hin, -⟩ | ⟨-, hone, -⟩
  · obtain ⟨htimeout, hle, hlt⟩ := hgood.timeout t hin
    have hcount : (s.sys.fires t).length = k := by
      rw [hk.fires, length_map, length_range]
    have hleft : s.left r t = s.sys.deadline t - s.sys.now := by
      unfold left
      rw [show s.armed t = some a from ha]
      dsimp only
      rw [hcount, hdeadline, htick]
      cases k with
      | zero =>
        unfold Arming.left Arming.first
        rw [Nat.one_mul]
      | succ k =>
        rw [Arming.left, Arming.first, if_neg hzero, hsame, Nat.add_mul (k + 1) 1]
        omega
    rw [htimeout, hgood.tick, sub32_mod_of_le hle (by omega), hleft]
  · exact absurd hin hlist
  · rw [hperiodic] at hone
    cases hone

theorem notified_obj (s : System τ) (t u : τ) :
    (s.notified u).obj t = if t = u then (s.obj t).map wrapper else s.obj t := by
  unfold notified
  split
  · next o ho =>
    unfold setObj
    dsimp only
    rw [update_apply]
    split_ifs with htu
    · rw [htu, ho]
      rfl
    · rfl
  · next ho =>
    split_ifs with htu
    · rw [htu, ho]
      rfl
    · rfl

theorem notified_others (s : System τ) (u : τ) :
    (s.notified u).armed = s.armed ∧ (s.notified u).replies = s.replies := by
  unfold notified
  split <;> exact ⟨rfl, rfl⟩

/-- A step of the kernel, and the notification it may begin. -/
theorem after_spec (s : System τ) (a : Timer.Act τ) (sys : Sys τ) :
    (s.after a sys).sys = sys ∧ (s.after a sys).armed = s.armed ∧
      (s.after a sys).replies = s.replies ∧
        ∀ t, (s.after a sys).obj t = s.obj t ∨ (s.after a sys).obj t = (s.obj t).map wrapper := by
  unfold after
  split
  · next u hcheck =>
    obtain ⟨harmed, hreplies⟩ := notified_others s u
    refine ⟨rfl, harmed, hreplies, fun t => ?_⟩
    have hobj := notified_obj s t u
    split_ifs at hobj
    · exact .inr hobj
    · exact .inl hobj
  · exact ⟨rfl, rfl, rfl, fun t => .inl rfl⟩

theorem Sound.kernel (h : Sound r s) {sys : Sys τ} (hstep : Sys.Step s.sys a sys)
    (hother : ∀ o, a = .op o → s.obj (opTimer o) = none) : Sound r (s.after a sys) := by
  obtain ⟨hsys, harmed, hreplies, hobj⟩ := after_spec s a sys
  refine ⟨hsys.symm ▸ h.reach.next hstep, fun t b hb => ?_, fun t o ho hnone => ?_,
    hreplies.symm ▸ h.replies⟩
  · rw [harmed] at hb
    obtain ⟨o, ho, hactive, hreload, hzero, hstarted, htick, hinterval, hperiodic⟩ := h.armed t b hb
    have hkeep : (s.after a sys).obj t = some o := by
      rcases hobj t with hsame | hmap
      · rw [hsame, ho]
      · rw [hmap, ho]
        unfold wrapper
        rw [Option.map_some, if_neg hreload]
    obtain ⟨hstarted', htick', hperiodic'⟩ := same_step (t := t) hstep fun op hop heq => by
      have hfree := hother op hop
      rw [← heq, ho] at hfree
      cases hfree
    rw [hsys]
    exact ⟨o, hkeep, hactive, hreload, hzero, hstarted'.trans hstarted, htick'.trans htick,
      hinterval, hperiodic'.trans hperiodic⟩
  · rw [harmed] at hnone
    rcases hobj t with hsame | hmap
    · rw [hsame] at ho
      exact h.disarmed t o ho hnone
    · rw [hmap] at ho
      obtain ⟨before, hbefore, rfl⟩ := Option.map_eq_some_iff.mp ho
      unfold wrapper
      split_ifs
      · rfl
      · exact h.disarmed t before hbefore hnone

omit [DecidableEq τ] in
theorem Same.trans {s s' s'' : Sys τ} (h : Same t s s') (h' : Same t s' s'') : Same t s s'' :=
  ⟨h'.1.trans h.1, h'.2.1.trans h.2.1, h'.2.2.trans h.2.2⟩

/-- An operation of the two functions. -/
structure Reaches (t : τ) (s s' : Sys τ) : Prop where
  reach : Reachable Sys.Initial Sys.Step s'
  check : s'.check = s.check
  now : s'.now = s.now
  others : ∀ u ≠ t, Same u s s'

theorem Reaches.apply {s s' : Sys τ} (h : Reaches t s s') (hfree : ∀ tick, s.check ≠ .loop tick)
    {o : TimerOp τ} (ht : opTimer o = t) (hlegal : s'.Legal o) : Reaches t s (s'.apply o) := by
  have hstep := h.reach.next (Sys.Step.op (by rw [h.check]; exact hfree) hlegal)
  have hfields : (s'.apply o).check = s'.check ∧ (s'.apply o).now = s'.now := by
    cases o with
    | stop t =>
      rw [Sys.apply]
      cases s'.timers.rtTimerStop t <;> exact ⟨rfl, rfl⟩
    | init t time periodic | start t | detach t | control t cmd => exact ⟨rfl, rfl⟩
  exact ⟨hstep, hfields.1.trans h.check, hfields.2.trans h.now,
    fun u hu => (h.others u hu).trans (same_apply (ht ▸ hu))⟩

theorem Sound.stopActive (h : Sound r s) (hfree : ∀ tick, s.sys.check ≠ .loop tick) (o : TimerObj) :
    Reaches t s.sys (s.stopActive t o).sys ∧ (s.stopActive t o).obj = s.obj ∧
      (s.stopActive t o).armed = s.armed ∧ (s.stopActive t o).replies = s.replies := by
  have hstart : Reaches t s.sys s.sys := ⟨h.reach, rfl, rfl, fun _ _ => ⟨rfl, rfl, rfl⟩⟩
  unfold System.stopActive
  split_ifs
  · exact ⟨hstart.apply hfree (o := .stop t) rfl trivial, rfl, rfl, rfl⟩
  · exact ⟨hstart, rfl, rfl, rfl⟩

theorem Sound.of_reaches (h : Sound r s) (hsys : Reaches t s.sys s'.sys)
    (hobj : ∀ u ≠ t, s'.obj u = s.obj u) (harmed : ∀ u ≠ t, s'.armed u = s.armed u)
    (hreplies : s'.replies = s.replies)
    (ht : ∀ a ∈ s'.armed t, ∃ o, s'.obj t = some o ∧ o.active = true ∧ o.reload ≠ 0 ∧
      ¬IsZero a.itInterval ∧ s'.sys.started t = some a.since ∧
        (s'.sys.timers.timer t).initTick = r.ticks a.itValue ∧
          r.ticks a.itInterval = r.ticks a.itValue ∧ (s'.sys.timers.timer t).periodic = true)
    (hnone : ∀ o ∈ s'.obj t, s'.armed t = none → o.active = false) : Sound r s' := by
  refine ⟨hsys.reach, fun u a ha => ?_, fun u o ho hfree => ?_, hreplies ▸ h.replies⟩
  · by_cases hu : u = t
    · subst hu
      exact ht a ha
    · rw [harmed u hu] at ha
      obtain ⟨o, ho, hactive, hreload, hzero, hstarted, htick, hinterval, hperiodic⟩ :=
        h.armed u a ha
      obtain ⟨hstarted', htick', hperiodic'⟩ := hsys.others u hu
      exact ⟨o, (hobj u hu).trans ho, hactive, hreload, hzero, hstarted'.trans hstarted,
        htick'.trans htick, hinterval, hperiodic'.trans hperiodic⟩
  · by_cases hu : u = t
    · subst hu
      exact hnone o ho hfree
    · rw [harmed u hu] at hfree
      rw [hobj u hu] at ho
      exact h.disarmed u o ho hfree

/-- The timer of the kernel is set, made periodic, and started. -/
theorem armed_timer (s : Sys τ) (t : τ) (ticks : Nat) :
    let sys := ((s.apply (.control t (.setTime ticks))).apply (.control t .setPeriodic)).apply
      (.start t)
    (sys.timers.timer t).initTick = ticks ∧ (sys.timers.timer t).periodic = true := by
  simp [Sys.apply, Sys.recordStop, rtTimerControl]

theorem Sound.settime (h : Sound r s) {o : TimerObj} {itValue itInterval : Timespec}
    {word : Nat → Nat} (hfree : ∀ tick, s.sys.check ≠ .loop tick)
    (hcareful : s.Careful r (.settime t itValue itInterval word))
    (hset : s.timerSettime t o itValue itInterval word = some s') : Sound r s' := by
  obtain ⟨hstop, hobj, harmed, hreplies⟩ := h.stopActive hfree (t := t) o
  unfold timerSettime at hset
  dsimp only at hset
  split_ifs at hset with hproper hzero
  · cases hset
    exact h
  · cases hset
    refine h.of_reaches (t := t) hstop (fun u hu => ?_) (fun u hu => update_of_ne hu ..)
      hreplies (fun a ha => ?_) fun o' ho _ => ?_
    · exact (update_of_ne hu ..).trans (congrFun hobj u)
    · dsimp only at ha
      rw [update_self] at ha
      cases ha
    · unfold setObj at ho
      dsimp only at ho
      rw [update_self] at ho
      cases ho
      rfl
  · cases hset
    obtain ⟨hreload, hinterval, hvalid, hvalue, hsame⟩ := hcareful.resolve_left hzero
    have htime := hstop.apply hfree (o := .control t (.setTime (word (reloadOf itInterval)))) rfl
      hvalid
    have hperiod := htime.apply hfree (o := .control t .setPeriodic) rfl trivial
    have hstart := hperiod.apply hfree (o := .start t) rfl trivial
    refine h.of_reaches (t := t) hstart (fun u hu => ?_) (fun u hu => ?_)
      hreplies (fun a ha => ?_) fun o' _ hnone => ?_
    · exact (update_of_ne hu ..).trans (congrFun hobj u)
    · exact (update_of_ne hu ..).trans (congrFun harmed u)
    · dsimp only at ha
      rw [update_self] at ha
      cases ha
      obtain ⟨htick, hperiodic⟩ := armed_timer (s.stopActive t o).sys t (word (reloadOf itInterval))
      refine ⟨_, update_self .., rfl, hreload, hinterval, ?_, htick.trans hvalue.symm,
        hsame.trans hvalue.symm, hperiodic⟩
      exact (update_self ..).trans (congrArg some (hperiod.now.trans hstop.now.symm))
    · dsimp only at hnone
      rw [update_self] at hnone
      cases hnone

theorem Sound.gettime (h : Sound r s) {o : TimerObj} (hobj : s.obj t = some o)
    (hcareful : s.Careful r (.gettime t)) : (s.timerGettime t o).1 = timespecOf (s.left r t) := by
  unfold timerGettime
  cases harmed : s.armed t with
  | none =>
    have hleft : s.left r t = 0 := by
      unfold left
      rw [harmed]
    rw [h.disarmed t o hobj harmed, hleft]
    rfl
  | some a =>
    obtain ⟨o', ho', hactive, -⟩ := h.armed t a harmed
    rw [hobj] at ho'
    cases ho'
    rw [if_pos hactive]
    rcases hcareful with hnone | ⟨hlist, hfew⟩
    · rw [harmed] at hnone
      cases hnone
    · exact remainingOf_eq (h.left_eq harmed hlist) hfew

theorem Sound.step (h : Sound r s) {a : Act τ} (hcareful : s.Careful r a) (hstep : Step r s a s') :
    Sound r s' := by
  cases hstep with
  | kernel hstep hother => exact h.kernel hstep hother
  | settime hfree hobj hvalue hinterval hset => exact h.settime hfree hcareful hset
  | gettime hfree hobj =>
    refine ⟨h.reach, h.armed, h.disarmed, fun reply hreply => ?_⟩
    rcases mem_append.mp hreply with hold | hnew
    · exact h.replies reply hold
    · obtain rfl := mem_singleton.mp hnew
      exact h.gettime hobj hcareful

theorem Initial.sound (h : Initial s) : Sound r s := by
  obtain ⟨hsys, hobj, harmed, hreplies⟩ := h
  refine ⟨Reachable.start hsys, fun t a ha => ?_, fun t o ho _ => hobj t o ho,
    fun reply hreply => ?_⟩
  · rw [harmed t] at ha
    cases ha
  · rw [hreplies] at hreply
    cases hreply

section

variable (h : Reachable Initial (Within (Step r) (Careful r)) s)
include h

end

end

/-- Times are rounded down. -/
def down : Rounding where
  ticks ts := (ts.nanos / 10 ^ 6).toNat
  low ts h := by omega
  high ts h := by omega

/-- A timer that is made, at the first tick. -/
def fresh : System Unit where
  sys :=
    { timers :=
        { rtTick := 0
          timer := fun _ =>
            { initTick := 1, timeoutTick := 0, activated := false, periodic := false }
          timerList := []
          list := [] }
      check := .idle, now := 0, starts := 0, deadline := fun _ => 0, serial := fun _ => 0
      started := fun _ => none, fires := fun _ => [], log := [] }
  obj _ := some { interval := ⟨0, 0⟩, reload := 0, active := false }
  armed _ := none
  replies := []

end System

end RtKernel.PosixTimer

import RtKernel.Timer.Timer
import RtKernel.Core.Run

/-!
# The timers at work

The clock interrupt advances the tick and runs `rt_timer_check` once. Between
two checks threads and interrupts operate on the timers, and so does every
callback while it runs. Beside the timers the state records what has happened
since: the count of ticks that `rt_tick` wraps, the calls of `rt_timer_start`,
and the invocations of callbacks.
-/

namespace RtKernel.Timer

open Timers Function

/-- Where `rt_timer_check` is. -/
inductive Check (τ : Type*)
  /-- Not running; the check of the last tick is complete. -/
  | idle
  /-- The tick has advanced and the check has not begun. -/
  | pending
  /-- At the head of its loop. -/
  | loop (currentTick : Nat)
  /-- In the callback of a timer. -/
  | callback (t : τ)

/-- One invocation of a callback. -/
structure Invocation (τ : Type*) where
  timer : τ
  /-- The count of ticks at the invocation. -/
  time : Nat
  /-- The number of the `rt_timer_start` call that set the timeout. -/
  serial : Nat

/-- The timers, the progress of the check, and the record of the run. -/
structure Sys (τ : Type*) where
  timers : Timers τ
  check : Check τ
  /-- The count of ticks. -/
  now : Nat
  /-- The number of calls of `rt_timer_start` so far. -/
  starts : Nat
  /-- The count of ticks each timer times out at. -/
  deadline : τ → Nat
  /-- The number of the call that started each timer last. -/
  serial : τ → Nat
  /-- When the application started a timer that it has not stopped or changed since. -/
  started : τ → Option Nat
  /-- When the callback of a timer was invoked since then. -/
  fires : τ → List Nat
  log : List (Invocation τ)

/-- What threads, interrupts and callbacks do to a timer. -/
inductive TimerOp (τ : Type*)
  | init (t : τ) (time : Nat) (periodic : Bool)
  | start (t : τ)
  | stop (t : τ)
  | detach (t : τ)
  | control (t : τ) (cmd : Control)

inductive Act (τ : Type*)
  /-- `rt_tick_increase`, up to the call of `rt_timer_check`. -/
  | tick
  /-- The check begins. -/
  | check
  /-- The test of the loop, and the statements up to the callback. -/
  | iterate
  /-- The callback returns; the rest of the loop body. -/
  | callbackReturn
  | op (o : TimerOp τ)

/-- A timeout that `rt_timer_init` and `RT_TIMER_CTRL_SET_TIME` accept, other than zero. -/
def ValidTime (time : Nat) : Prop := 1 ≤ time ∧ time < rtTickMax / 2

instance (time : Nat) : Decidable (ValidTime time) := inferInstanceAs (Decidable (_ ∧ _))

namespace Sys

variable {τ : Type*} [DecidableEq τ]

/-- Record a call of `rt_timer_start`. -/
def recordStart (s : Sys τ) (t : τ) : Sys τ :=
  { s with
    starts := s.starts + 1
    deadline := update s.deadline t (s.now + (s.timers.timer t).initTick)
    serial := update s.serial t s.starts }

/-- Record an invocation of the callback of `t`. -/
def recordFire (s : Sys τ) (t : τ) : Sys τ :=
  { s with
    fires := update s.fires t (s.fires t ++ [s.now])
    log := s.log ++ [⟨t, s.now, s.serial t⟩] }

/-- Record that `t` no longer is as the application started it. -/
def recordStop (s : Sys τ) (t : τ) : Sys τ :=
  { s with started := update s.started t none }

/-- May the operation be called? -/
def Legal (s : Sys τ) : TimerOp τ → Prop
  | .init t time _ => t ∉ s.timers.timerList ∧ t ∉ s.timers.list ∧ ValidTime time
  | .control _ (.setTime time) => ValidTime time
  | _ => True

/-- An operation on a timer. -/
def apply (s : Sys τ) : TimerOp τ → Sys τ
  | .init t time periodic =>
      { s with timers := s.timers.timerInit t time periodic }.recordStop t
  | .start t =>
      { s.recordStart t with
        timers := s.timers.rtTimerStart t
        started := update s.started t (some s.now)
        fires := update s.fires t [] }
  | .stop t =>
      match s.timers.rtTimerStop t with
      | some timers => { s with timers := timers }.recordStop t
      | none => s
  | .detach t => { s with timers := s.timers.rtTimerDetach t }.recordStop t
  | .control t cmd => { s with timers := s.timers.rtTimerControl t cmd }.recordStop t

/-- The loop body after the callback, with the restart of a periodic timer recorded. -/
def finish (s : Sys τ) (t : τ) : Sys τ :=
  let timers := s.timers.afterCallback t
  let s' := if s.timers.list ≠ [] ∧ (s.timers.timer t).periodic ∧ (s.timers.timer t).activated then
    s.recordStart t else s
  { s' with timers := timers, check := .loop timers.rtTick }

/-- The steps of the system. -/
inductive Step : Sys τ → Act τ → Sys τ → Prop
  | tick {s} (h : s.check = .idle) :
      Step s .tick
        { s with
          timers := { s.timers with rtTick := add32 s.timers.rtTick 1 }
          now := s.now + 1
          check := .pending }
  | check {s} (h : s.check = .pending) : Step s .check { s with check := .loop s.timers.rtTick }
  | fire {s currentTick t} (h : s.check = .loop currentTick)
      (ht : s.timers.expired currentTick = some t) :
      Step s .iterate
        { s.recordFire t with timers := s.timers.beforeCallback t, check := .callback t }
  | leave {s currentTick} (h : s.check = .loop currentTick)
      (ht : s.timers.expired currentTick = none) : Step s .iterate { s with check := .idle }
  | callbackReturn {s t} (h : s.check = .callback t) : Step s .callbackReturn (s.finish t)
  -- the check itself runs with interrupts disabled; its callbacks may operate on the timers
  | op {s o} (h : ∀ currentTick, s.check ≠ .loop currentTick) (hlegal : s.Legal o) :
      Step s (.op o) (s.apply o)

/-- A system whose timers are not started, at any tick. -/
def Initial (s : Sys τ) : Prop :=
  s.timers.rtTick = s.now % 2 ^ 32 ∧ s.timers.timerList = [] ∧ s.timers.list = [] ∧
    (∀ t, ValidTime (s.timers.timer t).initTick) ∧ s.check = .idle ∧
    (∀ t, s.started t = none) ∧ s.log = []

end Sys

/-- When the callback of a timer started at `n` with `init_tick` `d` is invoked, up to the count
`now`. -/
def schedule (n d : Nat) (periodic : Bool) (now : Nat) : List Nat :=
  (List.range (if periodic then (now - n) / d else if n + d ≤ now then 1 else 0)).map
    fun i => n + (i + 1) * d

/-- Earlier, or at the same count and started earlier. -/
def Earlier (time serial time' serial' : Nat) : Prop :=
  time < time' ∨ time = time' ∧ serial < serial'

theorem Earlier.trans {a b c x y z : Nat} (h : Earlier a x b y) (h' : Earlier b y c z) :
    Earlier a x c z := by
  rcases h with h | ⟨h, hx⟩ <;> rcases h' with h' | ⟨h', hy⟩
  · exact .inl (by omega)
  · exact .inl (by omega)
  · exact .inl (by omega)
  · exact .inr ⟨by omega, by omega⟩

end RtKernel.Timer

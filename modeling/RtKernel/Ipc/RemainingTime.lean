import RtKernel.Core.HalfRange
import RtKernel.Ipc.Mailbox
import RtKernel.Ipc.MessageQueue
import RtKernel.Mem.MemPool

/-!
# The time that is left of a wait

A thread that was woken may find that another one was faster. It subtracts the ticks
that have passed from its timeout and waits for the rest. The subtraction is one of
unsigned words with the result read as a signed one, and `rt_mp_alloc`, unlike its
siblings, makes it with interrupts enabled.
-/

namespace RtKernel.RemainingTime

open Kernel

/-- A word read as `rt_int32_t`. -/
def toInt32 (x : Int) : Int := x.bmod (2 ^ 32)

/-- The calls that wait in a loop. -/
inductive Caller
  | rtMbRecv
  | rtMbSendWait
  | rtMqRecv
  | rtMqSendWait
  | rtMpAlloc
  deriving DecidableEq

/-- What a call returns when no time is left. -/
def Caller.noTime : Caller → RtErr
  | .rtMbRecv | .rtMqRecv | .rtMpAlloc => .etimeout
  | .rtMbSendWait | .rtMqSendWait => .efull

/-- The call has interrupts enabled when it computes what is left. -/
def Caller.unlocked : Caller → Bool
  | .rtMpAlloc => true
  | _ => false

/-- Where a turn of the loop ends: the thread waits, the call fails, or it goes on with the item. -/
inductive Turn
  | waits
  | fails (err : RtErr)
  | proceeds
  deriving DecidableEq

/-- A turn of the loop, when the item is lacking or not. -/
def turn (c : Caller) (lacks : Bool) (timeout : Int) : Turn :=
  if lacks then if timeout = 0 then .fails c.noTime else .waits else .proceeds

section

variable {τ ω β : Type*} [DecidableEq τ] [DecidableEq ω]

section

variable (k : Kernel τ ω)
include k

theorem turn_rtMbRecv (mb : Mailbox.RtMailbox β) (x : Side → ω) (timeout : Int) :
    (Mailbox.recvLoop k mb x timeout).2.2.1 =
      match turn .rtMbRecv (mb.entry = 0) timeout with
      | .waits => .waits
      | .fails err => .returns err
      | .proceeds => (k.resumeFirst (x .sender)).2 := by
  unfold Mailbox.recvLoop turn
  by_cases hentry : mb.entry = 0
  · by_cases ht : timeout = 0 <;> simp [hentry, ht, Caller.noTime]
  · simp [hentry]

theorem turn_rtMbSendWait (mb : Mailbox.RtMailbox β) (x : Side → ω) (value : β)
    (timeout : Int) (hroom : mb.entry < Mailbox.rtMbEntryMax) :
    (Mailbox.sendLoop k mb x value timeout).2.2 =
      match turn .rtMbSendWait (mb.entry = mb.size) timeout with
      | .waits => .waits
      | .fails err => .returns err
      | .proceeds => (k.resumeFirst (x .receiver)).2 := by
  unfold Mailbox.sendLoop turn
  by_cases hentry : mb.entry = mb.size
  · by_cases ht : timeout = 0 <;> simp [hentry, ht, Caller.noTime]
  · simp [hentry, hroom]

theorem turn_rtMqSendWait (mq : MessageQueue.RtMessagequeue β) (x : Side → ω)
    (buffer : List β) (timeout : Int) :
    (MessageQueue.sendLoop k mq x buffer timeout).2.2 =
      match turn .rtMqSendWait (mq.msgQueueFree = none) timeout, mq.msgQueueFree with
      | .waits, _ => .goes (.sendWait buffer timeout)
      | .fails err, _ => .returns err
      | .proceeds, some msg => .goes (.sendCopy msg buffer false)
      | .proceeds, none => .schedules := by
  unfold MessageQueue.sendLoop turn
  cases mq.msgQueueFree with
  | none => by_cases ht : timeout = 0 <;> simp [ht, Caller.noTime]
  | some msg => simp

theorem turn_rtMqRecv (mq : MessageQueue.RtMessagequeue β) (x : Side → ω)
    (size : Nat) (timeout : Int) :
    (MessageQueue.recvLoop k mq x size timeout).map (fun r => r.2.2) =
      match turn .rtMqRecv (mq.entry = 0) timeout with
      | .waits => some (.goes (.recvWait size timeout))
      | .fails err => some (.returns err)
      | .proceeds => mq.msgQueueHead.map fun msg => .goes (.recvCopy msg size) := by
  unfold MessageQueue.recvLoop turn
  by_cases hentry : mq.entry = 0
  · by_cases ht : timeout = 0 <;> simp [hentry, ht, Caller.noTime]
  · simp [hentry, Function.comp_def]

end

theorem turn_rtMpAlloc (k : Kernel τ Nat) (mem : Nat → UInt8) (mp : MemPool.RtMempool) (x : Nat)
    (time : Int) (hlist : mp.blockFreeCount ≠ 0 → mp.blockList ≠ 0) :
    (MemPool.rtMpAlloc k mem mp x time).map (fun r => (r.1, r.2.2.2)) =
      match turn .rtMpAlloc (mp.blockFreeCount = 0) time with
      | .waits => some (MemPool.suspendFirst k x (0 < time), .waits)
      | .fails err => some (k.setError err, .returns 0)
      | .proceeds => some (k, .returns (add32 mp.blockList 4)) := by
  unfold MemPool.rtMpAlloc turn
  by_cases hcount : mp.blockFreeCount = 0
  · by_cases ht : time = 0 <;> simp [hcount, ht, Caller.noTime]
  · simp [hcount, hlist hcount]

end

/-- Where the thread is with its call. -/
inductive Place
  /-- At the test of the loop. -/
  | head
  | asleep
  /-- Resumed, with `thread->error`. -/
  | ready (err : RtErr)
  /-- Returned, with an error unless the call has succeeded. -/
  | done (err : Option RtErr)
  deriving DecidableEq

/-- What happens while the call is made. -/
inductive Act
  /-- The thread runs until it waits or returns. -/
  | run
  /-- It runs until it has computed what is left, and is interrupted there. -/
  | pause
  /-- The tick is counted, ... -/
  | tick
  /-- ... and then the timers are checked. -/
  | check
  /-- The thread is resumed by others, with `thread->error`. -/
  | wake (err : RtErr)
  /-- Others give or take the item. -/
  | other (lacks : Bool)

/-- The call, the timer of its thread, and what time it is. -/
structure Sys where
  /-- The item is lacking. -/
  lacks : Bool
  rtTick : Nat
  timeout : Int
  /-- `tick_delta`, or `before_sleep`. -/
  tickDelta : Nat
  /-- `timeout_tick` of the timer of the thread. -/
  timeoutTick : Nat
  place : Place
  /-- The timers have not been checked since the last tick. -/
  unchecked : Bool
  /-- The ticks that have passed, without wrapping. -/
  now : Nat
  /-- When the thread was first suspended, ... -/
  began : Option Nat
  /-- ... when it was last suspended, ... -/
  since : Nat
  /-- ... and when it last computed what is left. -/
  computed : Nat
  /-- The ticks that have passed with the timer armed. -/
  armed : Nat

namespace Sys

/-- `tick_delta = rt_tick_get() - tick_delta; timeout -= tick_delta`, and no less than zero. -/
def recalculate (s : Sys) : Sys :=
  let delta := sub32 s.rtTick s.tickDelta
  let timeout :=
    if 0 < s.timeout then
      if toInt32 (s.timeout - delta) < 0 then 0 else toInt32 (s.timeout - delta)
    else s.timeout
  { s with timeout := timeout, computed := s.now }

/-- The thread is suspended, with its timer armed when the time is limited; there is no result where
the assertion of `rt_timer_control` fails. -/
def suspend (s : Sys) : Option Sys :=
  let s := { s with place := .asleep, since := s.now, began := s.began.or (some s.now) }
  if 0 < s.timeout then
    if s.timeout < ((rtTickMax / 2 : Nat) : Int) then
      some { s with tickDelta := s.rtTick, timeoutTick := add32 s.rtTick s.timeout.toNat }
    else none
  else some s

/-- A turn of the loop. -/
def loop (c : Caller) (s : Sys) : Option Sys :=
  match turn c s.lacks s.timeout with
  | .waits => s.suspend
  | .fails err => some { s with place := .done (some err) }
  | .proceeds => some { s with place := .done none }

/-- `rt_timer_check`. -/
def rtTimerCheck (s : Sys) : Sys :=
  let s := { s with unchecked := false }
  if s.place = .asleep ∧ 0 < s.timeout ∧ sub32 s.rtTick s.timeoutTick < rtTickMax / 2 then
    { s with place := .ready .etimeout }
  else s

/-- A step; there is none where it cannot happen or an assertion fails. -/
def exec (c : Caller) (s : Sys) : Act → Option Sys
  | .run =>
      match s.place with
      | .head => s.loop c
      | .ready err =>
          if err ≠ .eok then some { s with place := .done (some err) }
          else s.recalculate.loop c
      | .asleep | .done _ => none
  | .pause =>
      if c.unlocked = true ∧ s.place = .ready .eok then
        some { s.recalculate with place := .head }
      else none
  | .tick =>
      if s.unchecked then none
      else
        some { s with
          rtTick := add32 s.rtTick 1, now := s.now + 1, unchecked := true
          armed := if s.place = .asleep ∧ 0 < s.timeout then s.armed + 1 else s.armed }
  | .check => if s.unchecked then some s.rtTimerCheck else none
  | .wake err => if s.place = .asleep then some { s with place := .ready err } else none
  | .other lacks => some { s with lacks := lacks }

def Step (c : Caller) (s : Sys) (a : Act) (s' : Sys) : Prop := s.exec c a = some s'

/-- The call is made with the timeout `t`, whatever the tick counter reads. -/
structure Initial (t : Nat) (s : Sys) : Prop where
  place : s.place = .head
  timeout : s.timeout = t
  tick : s.rtTick = s.now % 2 ^ 32
  began : s.began = none
  armed : s.armed = 0

/-- The thread waits no longer than it was asked to. -/
structure Timely (t : Nat) (s : Sys) : Prop where
  /-- The timer has not been armed for longer than `t` in all, ... -/
  armed : s.armed ≤ t
  /-- ... and the thread sleeps until `t` ticks have passed and the timers are checked at most. -/
  asleep : ∀ began, s.began = some began → s.place = .asleep →
    s.now < began + t ∨ s.now = began + t ∧ s.unchecked = true

/-- The call ends when the thread runs. -/
def Ends (c : Caller) (s : Sys) : Prop := ∃ s' err, Step c s .run s' ∧ s'.place = .done err

/-- The thread has its next run after `t` ticks to come. -/
def Late (t : Nat) (s : Sys) : Prop :=
  (∃ began, s.began = some began ∧ began + t ≤ s.now) ∧
    (s.place = .head ∨ ∃ err, s.place = .ready err)

/-- The ticks since the thread was suspended are less than what is left, or come to no less and not
to more than half a turn more when they are counted by the tick counter. -/
def InRange (s : Sys) : Prop :=
  s.timeout ≤ (s.now - s.since : Nat) → s.timeout ≤ ((s.now - s.since) % 2 ^ 32 : Nat) ∧
    ((s.now - s.since) % 2 ^ 32 : Nat) ≤ s.timeout + 2 ^ 31

instance (s : Sys) : Decidable s.InRange := inferInstanceAs (Decidable (_ → _))

/-- What has passed is in range when it is computed, and nothing passes before the thread waits for
the rest. -/
def Careful (s : Sys) : Act → Prop
  | .run => (s.place = .ready .eok → s.lacks = true → s.InRange) ∧
      (s.place = .head → s.began ≠ none → s.lacks = true → s.timeout = 0 ∨ s.computed = s.now)
  | .pause => s.InRange
  | _ => True

instance (s : Sys) : DecidablePred s.Careful := fun a =>
  match a with
  | .run => inferInstanceAs (Decidable (_ ∧ _))
  | .pause => inferInstanceAs (Decidable s.InRange)
  | .tick | .check | .wake _ | .other _ => inferInstanceAs (Decidable True)

/-- What is known of a call that has been suspended, by where it is. -/
def Where (t : Nat) (s : Sys) (began : Nat) : Prop :=
  match s.place with
  | .asleep => 0 < s.timeout ∧ s.since + s.timeout = began + t ∧ began ≤ s.since ∧ s.since ≤ s.now ∧
      s.tickDelta = s.since % 2 ^ 32 ∧ s.timeoutTick = (began + t) % 2 ^ 32 ∧
      (s.now < began + t ∨ s.now = began + t ∧ s.unchecked = true)
  | .ready err => err = .eok → 0 < s.timeout ∧ s.since + s.timeout = began + t ∧ began ≤ s.since ∧
      s.since ≤ s.now ∧ s.tickDelta = s.since % 2 ^ 32
  | .head => 0 ≤ s.timeout ∧ s.computed ≤ s.now ∧
      (s.timeout = 0 ∧ began + t ≤ s.computed ∨ s.computed + s.timeout = began + t)
  | .done _ => True

/-- The invariant of careful runs. -/
structure Good (t : Nat) (s : Sys) : Prop where
  tick : s.rtTick = s.now % 2 ^ 32
  /-- What has been armed and what is left until the deadline come to the timeout at most. -/
  spent : ∀ began, s.began = some began → began ≤ s.now ∧ s.armed + (began + t - s.now) ≤ t
  /-- Before the thread is suspended. -/
  start : s.began = none → s.armed = 0 ∧ (s.place = .head ∧ s.timeout = t ∨ ∃ e, s.place = .done e)
  place : ∀ began, s.began = some began → s.Where t began

variable {t : Nat} {s s' : Sys} {c : Caller} {b : Nat}

theorem Initial.good (h : s.Initial t) : s.Good t := by
  refine ⟨h.tick, fun began hb => ?_, fun _ => ?_, fun began hb => ?_⟩
  · cases h.began.symm.trans hb
  · exact ⟨h.armed, .inl ⟨h.place, h.timeout⟩⟩
  · cases h.began.symm.trans hb

/-- The ticks since the wait began, across a turn of the counter. -/
theorem sub32_tickDelta (htick : s.rtTick = s.now % 2 ^ 32) (hdelta : s.tickDelta = s.since % 2 ^ 32)
    (hsince : s.since ≤ s.now) : sub32 s.rtTick s.tickDelta = (s.now - s.since) % 2 ^ 32 := by
  unfold sub32
  omega

theorem recalculate_timeout (htick : s.rtTick = s.now % 2 ^ 32)
    (hdelta : s.tickDelta = s.since % 2 ^ 32) (hsince : s.since ≤ s.now) (hpos : 0 < s.timeout)
    (hlt : s.timeout < 2 ^ 31) :
    (s.InRange → s.recalculate.timeout = max (s.timeout - (s.now - s.since : Nat)) 0) ∧
      (¬ s.InRange → 0 < s.recalculate.timeout) := by
  unfold InRange recalculate toInt32
  dsimp only
  rw [if_pos hpos, sub32_tickDelta htick hdelta hsince]
  generalize s.now - s.since = d at *
  simp only [Int.bmod_def]
  constructor
  all_goals
    intro hrange
    split_ifs <;> omega

/-- Out of range, after the deadline, there is always something left. -/
theorem loop_done (h : turn c s.lacks s.timeout ≠ .waits) :
    ∃ err, s.loop c = some { s with place := .done err } := by
  unfold loop
  cases hturn : turn c s.lacks s.timeout with
  | waits => exact absurd hturn h
  | fails err => exact ⟨some err, rfl⟩
  | proceeds => exact ⟨none, rfl⟩

theorem turn_waits_iff {lacks : Bool} {timeout : Int} :
    turn c lacks timeout = .waits ↔ lacks = true ∧ timeout ≠ 0 := by
  unfold turn
  cases lacks <;> by_cases ht : timeout = 0 <;> simp [ht]

section

variable {began : Nat} (hb : s.began.or (some s.now) = some began)
include hb

/-- The thread is suspended at the head of the loop, for `timeout` ticks up to its deadline. -/
theorem Good.suspend
    (htick : s.rtTick = s.now % 2 ^ 32) (hspent : began ≤ s.now ∧ s.armed + (began + t - s.now) ≤ t)
    (hpos : 0 < s.timeout) (hdeadline : s.now + s.timeout = began + t)
    (hs : s.suspend = some s') : s'.Good t := by
  unfold Sys.suspend at hs
  rw [if_pos hpos] at hs
  split_ifs at hs with hlt
  cases hs
  have hadd : add32 s.rtTick s.timeout.toNat = (began + t) % 2 ^ 32 := by
    rw [htick, add32_mod]
    congr 1
    omega
  refine ⟨htick, fun b h => ?_, fun h => ?_, fun b h => ?_⟩
  · cases hb.symm.trans h
    exact hspent
  · cases hb.symm.trans h
  · cases hb.symm.trans h
    exact ⟨hpos, hdeadline, hspent.1, le_refl _, htick, hadd, .inl (by dsimp only; omega)⟩

/-- A turn of the loop of a call that has time left up to its deadline, or none. -/
theorem Good.loop (htick : s.rtTick = s.now % 2 ^ 32) (harmed : s.began = none → s.armed = 0)
    (hspent : began ≤ s.now ∧ s.armed + (began + t - s.now) ≤ t)
    (hleft : s.lacks = true → s.timeout ≠ 0 → 0 < s.timeout ∧ s.now + s.timeout = began + t)
    (hs : s.loop c = some s') : s'.Good t := by
  by_cases hwaits : turn c s.lacks s.timeout = .waits
  · obtain ⟨hlacks, hne⟩ := (turn_waits_iff).mp hwaits
    obtain ⟨hpos, hdeadline⟩ := hleft hlacks hne
    unfold Sys.loop at hs
    rw [hwaits] at hs
    exact Good.suspend hb htick hspent hpos hdeadline hs
  · obtain ⟨err, hdone⟩ := loop_done hwaits
    cases hdone.symm.trans hs
    refine ⟨htick, fun b h => ?_, fun h => ⟨harmed h, .inr ⟨err, rfl⟩⟩, fun b h => trivial⟩
    rw [h, Option.some_or, Option.some.injEq] at hb
    exact hb ▸ hspent

end

section

variable (h : s.Good t)
include h

theorem Good.ready (hready : s.place = .ready .eok) :
    ∃ began, s.began = some began ∧ 0 < s.timeout ∧ s.timeout ≤ t ∧
      s.since + s.timeout = began + t ∧ s.since ≤ s.now ∧ s.tickDelta = s.since % 2 ^ 32 := by
  cases hb : s.began with
  | none =>
    obtain ⟨-, ⟨hhead, -⟩ | ⟨e, he⟩⟩ := h.start hb
    · cases hready.symm.trans hhead
    · cases hready.symm.trans he
  | some began =>
    have hwhere := h.place began hb
    unfold Where at hwhere
    rw [hready] at hwhere
    obtain ⟨hpos, hdeadline, hbegan, hsince, hdelta⟩ := hwhere rfl
    exact ⟨began, rfl, hpos, by omega, hdeadline, hsince, hdelta⟩

theorem Good.left (hready : s.place = .ready .eok) (hrange : s.InRange) (ht : t < rtTickMax / 2) :
    s.recalculate.timeout = max (s.timeout - (s.now - s.since : Nat)) 0 := by
  rw [rtTickMax_half] at ht
  obtain ⟨began, -, hpos, hle, -, hsince, hdelta⟩ := h.ready hready
  exact (recalculate_timeout h.tick hdelta hsince hpos (by omega)).1 hrange

theorem Good.run (hpos : 0 < t) (ht : t < rtTickMax / 2)
    (hcare : s.Careful .run) (hstep : Step c s .run s') : s'.Good t := by
  obtain ⟨hready, hhead⟩ := hcare
  simp only [Step, exec] at hstep
  cases hplace : s.place with
  | asleep | done =>
    rw [hplace] at hstep
    cases hstep
  | head =>
    rw [hplace] at hstep
    cases hb : s.began with
    | none =>
      obtain ⟨harmed, ⟨-, htimeout⟩ | ⟨e, he⟩⟩ := h.start hb
      · have hor : s.began.or (some s.now) = some s.now := by rw [hb]; rfl
        exact Good.loop hor h.tick (fun _ => harmed) ⟨le_refl _, by omega⟩ (fun _ _ => by omega)
          hstep
      · cases hplace.symm.trans he
    | some began =>
      have hwhere := h.place began hb
      unfold Where at hwhere
      rw [hplace] at hwhere
      obtain ⟨hzero, -, hleft⟩ := hwhere
      have hor : s.began.or (some s.now) = some began := by rw [hb]; rfl
      refine Good.loop hor h.tick (fun hn => (h.start hn).1) (h.spent began hb)
        (fun hlacks hne => ?_) hstep
      have hnow := (hhead hplace (by simp [hb]) hlacks).resolve_left hne
      omega
  | ready err =>
    rw [hplace] at hstep
    dsimp only at hstep
    split_ifs at hstep with herr
    · cases hstep
      refine ⟨h.tick, h.spent, fun hn => ⟨(h.start hn).1, .inr ⟨_, rfl⟩⟩, fun _ _ => trivial⟩
    · obtain rfl : err = .eok := not_not.mp herr
      obtain ⟨began, hb, htpos, hle, hdeadline, hsince, -⟩ := h.ready hplace
      have hb' : s.recalculate.began.or (some s.recalculate.now) = some began :=
        congrArg (·.or (some s.now)) hb
      refine Good.loop hb' h.tick (fun hn => (h.start hn).1) (h.spent began hb)
        (fun hlacks hne => ?_) hstep
      have hleft := h.left hplace (hready hplace hlacks) ht
      have hnow : s.recalculate.now = s.now := rfl
      omega

/-- What is left is computed, and the thread is interrupted. -/
theorem Good.pause (ht : t < rtTickMax / 2) (hcare : s.Careful .pause)
    (hstep : Step c s .pause s') : s'.Good t := by
  simp only [Step, exec] at hstep
  split_ifs at hstep with hready
  cases hstep
  obtain ⟨began, hb, hpos, hle, hdeadline, hsince, -⟩ := h.ready hready.2
  have hleft := h.left hready.2 hcare ht
  refine ⟨h.tick, h.spent, fun hn => ?_, fun b hb' => ?_⟩
  · cases hb.symm.trans hn
  · cases hb.symm.trans hb'
    have hnow : s.recalculate.computed = s.now := rfl
    unfold Where
    dsimp only
    refine ⟨by omega, le_refl _, ?_⟩
    omega

theorem Good.count (hstep : Step c s .tick s') : s'.Good t := by
  simp only [Step, exec] at hstep
  by_cases hunchecked : s.unchecked = true
  · rw [if_pos hunchecked] at hstep
    cases hstep
  rw [if_neg hunchecked] at hstep
  cases hstep
  -- a thread that sleeps has time left
  have hasleep : ∀ b, s.began = some b → s.place = .asleep → s.now < b + t := by
    intro b hb hplace
    have hwhere := h.place b hb
    unfold Where at hwhere
    rw [hplace] at hwhere
    exact hwhere.2.2.2.2.2.2.resolve_right fun hlast => hunchecked hlast.2
  refine ⟨by rw [h.tick, add32_mod_one], fun b hb => ?_, fun hn => ?_, fun b hb => ?_⟩
  · obtain ⟨hbegan, hspent⟩ := h.spent b hb
    dsimp only at hb ⊢
    split_ifs with hsleep
    · have := hasleep b hb hsleep.1
      omega
    · omega
  · obtain ⟨harmed, hstart⟩ := h.start hn
    have hsleep : ¬ (s.place = .asleep ∧ 0 < s.timeout) := by
      rintro ⟨hplace, -⟩
      rcases hstart with ⟨hhead, -⟩ | ⟨e, he⟩
      · cases hplace.symm.trans hhead
      · cases hplace.symm.trans he
    rw [if_neg hsleep]
    exact ⟨harmed, hstart⟩
  · have hwhere := h.place b hb
    unfold Where at hwhere ⊢
    dsimp only at hb ⊢
    cases hplace : s.place with
    | asleep =>
      rw [hplace] at hwhere
      obtain ⟨hpos, hdeadline, hbegan, hsince, hdelta, htick, -⟩ := hwhere
      have hlt := hasleep b hb hplace
      exact ⟨hpos, hdeadline, hbegan, by omega, hdelta, htick, by simp only [and_true]; omega⟩
    | ready err =>
      rw [hplace] at hwhere
      intro herr
      obtain ⟨hpos, hdeadline, hbegan, hsince, hdelta⟩ := hwhere herr
      exact ⟨hpos, hdeadline, hbegan, by omega, hdelta⟩
    | head =>
      rw [hplace] at hwhere
      obtain ⟨hzero, hcomputed, hleft⟩ := hwhere
      exact ⟨hzero, by omega, hleft⟩
    | done err => trivial

/-- The timers are checked: the thread is woken when its deadline has come, and not before. -/
theorem Good.check (ht : t < rtTickMax / 2) (hstep : Step c s .check s') : s'.Good t := by
  rw [rtTickMax_half] at ht
  simp only [Step, exec] at hstep
  by_cases hunchecked : s.unchecked = true
  · rw [if_pos hunchecked] at hstep
    cases hstep
    have hdue : ∀ b, s.began = some b → s.place = .asleep →
        (sub32 s.rtTick s.timeoutTick < rtTickMax / 2 ↔ b + t ≤ s.now) := by
      intro b hb hplace
      have hwhere := h.place b hb
      unfold Where at hwhere
      rw [hplace] at hwhere
      obtain ⟨hpos, hdeadline, hbegan, hsince, -, htimeout, hlate⟩ := hwhere
      rw [h.tick, htimeout]
      exact sub32_lt_half_iff (by omega) (by omega)
    unfold rtTimerCheck
    dsimp only
    split_ifs with hfires
    · refine ⟨h.tick, h.spent, fun hn => ?_, fun b hb => nofun⟩
      obtain ⟨-, ⟨hhead, -⟩ | ⟨e, he⟩⟩ := h.start hn
      · cases hfires.1.symm.trans hhead
      · cases hfires.1.symm.trans he
    · refine ⟨h.tick, h.spent, h.start, fun b hb => ?_⟩
      have hwhere := h.place b hb
      unfold Where at hwhere ⊢
      dsimp only at hb ⊢
      cases hplace : s.place with
      | asleep =>
        rw [hplace] at hwhere
        obtain ⟨hpos, hdeadline, hbegan, hsince, hdelta, htick, -⟩ := hwhere
        have hnot := (hdue b hb hplace).not.mp fun hd => hfires ⟨hplace, hpos, hd⟩
        exact ⟨hpos, hdeadline, hbegan, hsince, hdelta, htick, .inl (by omega)⟩
      | _ =>
        rw [hplace] at hwhere
        exact hwhere
  · rw [if_neg hunchecked] at hstep
    cases hstep

theorem Good.wake {err : RtErr} (hstep : Step c s (.wake err) s') : s'.Good t := by
  simp only [Step, exec] at hstep
  split_ifs at hstep with hplace
  cases hstep
  refine ⟨h.tick, h.spent, fun hn => ?_, fun b hb _ => ?_⟩
  · obtain ⟨-, ⟨hhead, -⟩ | ⟨e, he⟩⟩ := h.start hn
    · cases hplace.symm.trans hhead
    · cases hplace.symm.trans he
  · have hwhere := h.place b hb
    unfold Where at hwhere
    rw [hplace] at hwhere
    obtain ⟨hpos, hdeadline, hbegan, hsince, hdelta, -⟩ := hwhere
    exact ⟨hpos, hdeadline, hbegan, hsince, hdelta⟩

theorem Good.step (hpos : 0 < t) (ht : t < rtTickMax / 2) {a : Act}
    (hcare : s.Careful a) (hstep : Step c s a s') : s'.Good t := by
  cases a with
  | run => exact h.run hpos ht hcare hstep
  | pause => exact h.pause ht hcare hstep
  | tick => exact h.count hstep
  | check => exact h.check ht hstep
  | wake err => exact h.wake hstep
  | other lacks =>
    cases hstep
    exact ⟨h.tick, h.spent, h.start, h.place⟩

end

theorem reachable_good (hpos : 0 < t) (ht : t < rtTickMax / 2)
    (h : Reachable (Initial t) (Within (Step c) Careful) s) : s.Good t :=
  h.invariant (fun _ h₀ => h₀.good) fun _ _ _ _ hgood hstep =>
    hgood.step hpos ht hstep.1 hstep.2

theorem Good.timely (h : s.Good t) : s.Timely t := by
  refine ⟨?_, fun b hb hplace => ?_⟩
  · cases hb : s.began with
    | none =>
      rw [(h.start hb).1]
      exact Nat.zero_le t
    | some b => exact (Nat.le_add_right _ _).trans (h.spent b hb).2
  · have hwhere := h.place b hb
    unfold Where at hwhere
    rw [hplace] at hwhere
    exact hwhere.2.2.2.2.2.2

/-- A turn of the loop ends the call exactly when the item is there or no time is left. -/
theorem loop_ends_iff : (∃ s' err, s.loop c = some s' ∧ s'.place = .done err) ↔
    (s.lacks = true → s.timeout = 0) := by
  constructor
  · rintro ⟨s', err, hs, hdone⟩ hlacks
    by_contra hne
    unfold Sys.loop at hs
    rw [(turn_waits_iff).mpr ⟨hlacks, hne⟩] at hs
    unfold Sys.suspend at hs
    dsimp only at hs
    split_ifs at hs
    · cases hs
      cases hdone
    · cases hs
      cases hdone
  · intro hzero
    obtain ⟨err, hs⟩ := loop_done (c := c) (s := s) fun hwaits =>
      ((turn_waits_iff).mp hwaits).2 (hzero ((turn_waits_iff).mp hwaits).1)
    exact ⟨_, err, hs, rfl⟩

/-- The thread is at the head of the loop when it runs. -/
theorem Good.ends_iff_of_head (h : s.Good t) (hb : s.began = some b)
    (hnow : b + t ≤ s.now) (hplace : s.place = .head) : s.Ends c ↔ s.Careful .run := by
  have hrun : s.Ends c ↔ ∃ s' err, s.loop c = some s' ∧ s'.place = .done err := by
    simp only [Ends, Step, exec, hplace]
  have hwhere := h.place b hb
  unfold Where at hwhere
  rw [hplace] at hwhere
  obtain ⟨hzero, hcomputed, hleft⟩ := hwhere
  rw [hrun, loop_ends_iff]
  constructor
  · intro hends
    refine ⟨fun hready => ?_, fun _ _ hlacks => .inl (hends hlacks)⟩
    cases hplace.symm.trans hready
  · rintro ⟨-, hhead⟩ hlacks
    rcases hhead hplace (by simp [hb]) hlacks with hdone | hcomputed'
    · exact hdone
    · omega

theorem Good.ends_iff_of_ready (h : s.Good t) (ht : t < rtTickMax / 2)
    (hb : s.began = some b) (hnow : b + t ≤ s.now) {err : RtErr} (hplace : s.place = .ready err) :
    s.Ends c ↔ s.Careful .run := by
  by_cases herr : err = .eok
  · subst herr
    have hrun : s.Ends c ↔ ∃ s' err, s.recalculate.loop c = some s' ∧ s'.place = .done err := by
      simp only [Ends, Step, exec, hplace, ne_eq, not_true_eq_false, if_false]
    obtain ⟨b', hb', hpos, hle, hdeadline, hsince, hdelta⟩ := h.ready hplace
    cases hb.symm.trans hb'
    have hzero : s.recalculate.timeout = 0 ↔ s.InRange := by
      constructor
      · intro hzero
        by_contra hrange
        rw [rtTickMax_half] at ht
        have := (recalculate_timeout h.tick hdelta hsince hpos (by omega)).2 hrange
        omega
      · intro hrange
        rw [h.left hplace hrange ht]
        omega
    rw [hrun, loop_ends_iff, hzero]
    constructor
    · intro hrange
      refine ⟨fun _ => hrange, fun hhead => ?_⟩
      cases hplace.symm.trans hhead
    · exact fun hcare => hcare.1 hplace
  · refine iff_of_true ?_ ⟨fun hready => ?_, fun hhead => ?_⟩
    · have hstep : Step c s .run { s with place := .done (some err) } := by
        simp only [Step, exec, hplace, ne_eq, herr, not_false_eq_true, if_true]
      exact ⟨_, some err, hstep, rfl⟩
    · cases hplace.symm.trans hready
      exact absurd rfl herr
    · cases hplace.symm.trans hhead

/-- In careful runs of a call with a timeout of `t` ticks the timer is armed for `t` ticks at most
and the thread sleeps for no longer; and its next run after `t` ticks ends the call exactly when
that run is careful. -/
theorem reachable_timely : ∀ (c : Caller) (t : Nat), 0 < t → t < rtTickMax / 2 →
    ∀ s : Sys, Reachable (Initial t) (Within (Step c) Careful) s →
      s.Timely t ∧ (s.Late t → (s.Ends c ↔ s.Careful .run)) := by
  intro c t hpos ht s hs
  have h := reachable_good hpos ht hs
  refine ⟨h.timely, ?_⟩
  rintro ⟨⟨b, hb, hnow⟩, hplace | ⟨err, hplace⟩⟩
  · exact h.ends_iff_of_head hb hnow hplace
  · exact h.ends_iff_of_ready ht hb hnow hplace

/-- A call with a timeout of `t` ticks, made when the tick counter is about to wrap. -/
def start (t : Nat) : Sys :=
  { lacks := true, rtTick := 2 ^ 32 - 2, timeout := t, tickDelta := 0, timeoutTick := 0
    place := .head, unchecked := false, now := 2 ^ 32 - 2, began := none, since := 0
    computed := 0, armed := 0 }

theorem start_initial (t : Nat) : (start t).Initial t := ⟨rfl, rfl, rfl, rfl, rfl⟩

/-- Ticks, each with a check of the timers. -/
def ticks (n : Nat) : List Act := (List.replicate n [.tick, .check]).flatten

/-- A thread is woken after three ticks of ten, loses the item, waits on, and is woken once more at
the end. -/
theorem reachable_timely_woken : ∃ s : Sys,
    s.armed = 9 ∧ s.Timely 10 ∧ s.Late 10 ∧ (s.Ends .rtMbRecv ↔ s.Careful .run) := by
  obtain ⟨s, hs, harmed, hbegan, hnow, hplace⟩ :
      ∃ s ∈ runWithin (exec .rtMbRecv) Careful (start 10) (.run :: ticks 3 ++ ([.wake .eok,
      .run] : List Act) ++ ticks 6 ++ ([.wake .eok] : List Act) ++ ticks 1),
      s.armed = 9 ∧ s.began = some (2 ^ 32 - 2) ∧ s.now = 2 ^ 32 + 8 ∧
      s.place = .ready .eok := by decide +kernel
  obtain ⟨htimely, hends⟩ := reachable_timely .rtMbRecv 10 (by decide) (by decide) s
    ((Reachable.start (start_initial 10)).runWithin hs)
  have hlate : s.Late 10 := by
    refine ⟨⟨_, hbegan, ?_⟩, .inr ⟨_, hplace⟩⟩
    rw [hnow]
    decide
  exact ⟨s, harmed, htimely, hlate, hends hlate⟩

/-- `rt_mp_alloc` is interrupted for ten ticks after it has computed that seven are left. -/
theorem interrupted_waits_on : ∃ s s' : Sys,
    Reachable (Initial 10) (Step .rtMpAlloc) s ∧ s.Late 10 ∧
      Step .rtMpAlloc s .run s' ∧ s'.place = .asleep ∧ s'.timeout = 7 := by
  obtain ⟨s, hs, hbegan, hnow, hplace, s', hstep, hasleep⟩ :
      ∃ s ∈ runAll (exec .rtMpAlloc) (start 10) (.run :: ticks 3 ++ ([.wake .eok,
      .pause] : List Act) ++ ticks 10),
      s.began = some (2 ^ 32 - 2) ∧ s.now = 2 ^ 32 + 11 ∧ s.place = .head ∧
      ∃ s' ∈ s.exec .rtMpAlloc .run, s'.place = .asleep ∧ s'.timeout = 7 := by decide +kernel
  have hreach := (Reachable.start (start_initial 10)).runAll hs
  refine ⟨s, s', hreach, ⟨⟨_, hbegan, ?_⟩, .inl hplace⟩, hstep, hasleep⟩
  rw [hnow]
  decide

end Sys

end RtKernel.RemainingTime

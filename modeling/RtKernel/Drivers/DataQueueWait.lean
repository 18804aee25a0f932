import RtKernel.Core.HalfRange
import RtKernel.Drivers.DataQueueFifo

/-!
# The time a call waits for a data queue

A call that finds the queue full or empty arms the timer of its thread with the whole
timeout. It does so again in each turn, whatever time it has waited before, so that the
times add up to at most the timeout only when no turn finds the queue as before after a
tick has passed.
-/

open Option

namespace RtKernel.DataQueue

variable {τ β : Type*} [DecidableEq τ]

/-- A call of `rt_data_queue_push` or `rt_data_queue_pop`. -/
inductive Op (β : Type*)
  | push (data : β)
  | pop

/-- Who calls what, and with which timeout. -/
structure Call (τ β : Type*) where
  self : τ
  op : Op β
  timeout : Int

/-- What a call returns. -/
inductive Result
  | eok
  | etimeout
  | error
  deriving DecidableEq

/-- Where a call is: at the head of its loop, suspended, or at its end. -/
inductive Phase
  | ready
  | suspended
  | returned (result : Result)
  deriving DecidableEq

/-- A data queue with a call, and the timer of its thread. -/
structure Waiting (τ β : Type*) where
  base : Sys τ β
  phase : Phase
  rtTick : Nat
  /-- `timeout_tick` of the timer. -/
  timeoutTick : Nat
  /-- The timers have not been checked since the last tick. -/
  unchecked : Bool
  /-- The ticks that have passed with the timer armed. -/
  armed : Nat

/-- The thread that takes an action. -/
def Act.thread? : Act τ β → Option τ
  | .push thread _ _ => some thread
  | .pop thread _ => some thread
  | .peek => none
  | .reset => none
  | .expire thread => some thread

/-- What happens: a turn of the call's loop, a tick, the check of the timers after it, or what
others do. -/
inductive Event (τ β : Type*)
  | turn
  | tick
  | check
  | other (act : Act τ β)

namespace Call

variable (c : Call τ β)

/-- The condition of the call's loop. -/
def blocked (w : Waited τ β) : Bool :=
  match c.op with
  | .push _ => w.queue.isFull
  | .pop => w.queue.isEmpty

/-- The list in which the call waits. -/
def list (w : Waited τ β) : List τ :=
  match c.op with
  | .push _ => w.queue.suspendedPushList
  | .pop => w.suspendedPopList

/-- A turn of the call, as an action on the queue. -/
def act : Act τ β :=
  match c.op with
  | .push data => .push c.self data c.timeout
  | .pop => .pop c.self c.timeout

/-- How a turn of the call ends. -/
def answer (w : Waited τ β) : Answer :=
  match c.op with
  | .push data => (w.push c.self data c.timeout).2
  | .pop => (w.pop c.self c.timeout).2.2

/-- A thread that is no longer in the list has been resumed; `rt_data_queue_reset` leaves it an
error number, with which the call returns. -/
def resume (w : Waited τ β) (act : Act τ β) : Phase → Phase
  | .suspended =>
    if c.self ∈ c.list w then .suspended
    else match act with
      | .reset => .returned .error
      | _ => .ready
  | phase => phase

/-- The call waits, and its timer is started with the whole timeout; there is no result where the
assertion of `rt_timer_control` fails. -/
def suspend (s : Waiting τ β) : Option (Waiting τ β) :=
  if 0 < c.timeout then
    if c.timeout < (rtTickMax / 2 : Nat) then
      some { s with phase := .suspended, timeoutTick := add32 s.rtTick c.timeout.toNat }
    else none
  else some { s with phase := .suspended }

/-- `rt_timer_check`. -/
def rtTimerCheck (s : Waiting τ β) : Waiting τ β :=
  let s := { s with unchecked := false }
  if s.phase = .suspended ∧ 0 < c.timeout ∧ sub32 s.rtTick s.timeoutTick < rtTickMax / 2 then
    { s with base := s.base.exec (.expire c.self), phase := .returned .etimeout }
  else s

def exec (s : Waiting τ β) : Event τ β → Option (Waiting τ β)
  | .turn =>
    if s.phase = .ready then
      let base := s.base.exec c.act
      match c.answer s.base.waited with
      | .eok => some { s with base := base, phase := .returned .eok }
      | .etimeout => some { s with base := base, phase := .returned .etimeout }
      | .waits => c.suspend { s with base := base }
    else none
  | .tick =>
    if s.unchecked then none
    else
      some { s with
        rtTick := add32 s.rtTick 1, unchecked := true
        armed := if s.phase = .suspended ∧ 0 < c.timeout then s.armed + 1 else s.armed }
  | .check => if s.unchecked then some (c.rtTimerCheck s) else none
  | .other act =>
    if act.thread? = some c.self then none
    else
      let base := s.base.exec act
      some { s with base := base, phase := c.resume base.waited act s.phase }

def Step (s : Waiting τ β) (e : Event τ β) (s' : Waiting τ β) : Prop := c.exec s e = some s'

/-- The call has been made, and others may use the queue before its first turn. -/
def Initial (size : Nat) (s : Waiting τ β) : Prop :=
  Sys.Initial size s.base ∧ s.phase = .ready ∧ s.armed = 0

/-- The ticks that the timer still has to run. -/
def left (s : Waiting τ β) : Int :=
  if s.phase = .suspended then ticksAhead s.timeoutTick s.rtTick else 0

/-- The waiting times that the call has armed: the ticks that have passed, and those to come. -/
def spent (s : Waiting τ β) : Int := s.armed + left s

/-- A turn that finds the queue full, or empty, again comes before a tick of the waits. -/
def Prompt (s : Waiting τ β) : Event τ β → Prop
  | .turn => c.blocked s.base.waited = true → s.armed = 0
  | .tick => True
  | .check => True
  | .other _ => True

/-- The timer runs, and it has not been passed over. -/
structure Running (s : Waiting τ β) : Prop where
  nonneg : 0 ≤ ticksAhead s.timeoutTick s.rtTick
  small : ticksAhead s.timeoutTick s.rtTick < (rtTickMax / 2 : Nat)
  ahead : s.unchecked = false → 0 < ticksAhead s.timeoutTick s.rtTick

variable {c} {s s' : Waiting τ β} {e : Event τ β} {size : Nat}

omit [DecidableEq τ] in
/-- With a timeout, a turn waits just when the condition of the loop holds. -/
theorem answer_waits_iff (ht : 0 < c.timeout) (w : Waited τ β) :
    c.answer w = .waits ↔ c.blocked w = true := by
  have hne : c.timeout ≠ 0 := ne_of_gt ht
  unfold answer blocked
  cases c.op with
  | push data =>
    unfold Waited.push rtDataQueuePush
    by_cases hfull : w.queue.isFull = true <;> simp [hfull, hne]
  | pop =>
    unfold Waited.pop
    by_cases hempty : w.queue.isEmpty = true <;> simp [hempty, hne]

omit [DecidableEq τ] in
theorem spent_of_ne (h : s.phase ≠ .suspended) : spent s = s.armed := by
  rw [spent, left, if_neg h, add_zero]

omit [DecidableEq τ] in
theorem spent_of_suspended (h : s.phase = .suspended) :
    spent s = s.armed + ticksAhead s.timeoutTick s.rtTick := by
  rw [spent, left, if_pos h]

omit [DecidableEq τ] in
theorem armed_le_spent (h : s.phase = .suspended → Running s) : s.armed ≤ spent s := by
  by_cases hphase : s.phase = .suspended
  · have hnonneg := (h hphase).nonneg
    rw [spent_of_suspended hphase]
    omega
  · exact (spent_of_ne hphase).ge

theorem suspended_of_resume {w : Waited τ β} {act : Act τ β} {phase : Phase}
    (h : c.resume w act phase = .suspended) : phase = .suspended := by
  cases phase with
  | suspended => rfl
  | ready => cases h
  | returned result => cases h

omit [DecidableEq τ] in
theorem suspend_spent (ht : 0 < c.timeout) (h : c.suspend s = some s') :
    spent s' = s.armed + c.timeout ∧ Running s' := by
  simp only [suspend, if_pos ht, ite_none_right_eq_some] at h
  obtain ⟨hsmall, hs⟩ := h
  have hahead : ticksAhead (add32 s.rtTick c.timeout.toNat) s.rtTick = c.timeout := by
    rw [ticksAhead_add32 (by omega)]
    omega
  cases hs
  refine ⟨?_, ⟨?_, ?_, fun _ => ?_⟩⟩
  · rw [spent_of_suspended rfl, hahead]
  · exact ht.le.trans_eq hahead.symm
  · exact hahead.trans_lt hsmall
  · exact ht.trans_eq hahead.symm

section

variable (h : s.phase = .suspended → Running s)
include h

theorem rtTimerCheck_spent (ht : 0 < c.timeout) : spent (c.rtTimerCheck s) ≤ spent s ∧
      ((c.rtTimerCheck s).phase = .suspended → Running (c.rtTimerCheck s)) := by
  unfold rtTimerCheck
  dsimp only
  split_ifs with hdue
  · exact ⟨(spent_of_ne Phase.noConfusion).trans_le (armed_le_spent h),
      fun hno => (by cases hno)⟩
  · refine ⟨le_refl _, fun hphase => ?_⟩
    obtain ⟨hlow, hsmall, -⟩ := h hphase
    -- the timer would have expired
    refine ⟨hlow, hsmall, fun _ => ?_⟩
    have hiff := sub32_lt_half_iff_ticksAhead (by omega) hsmall
    by_contra hno
    exact hdue ⟨hphase, ht, hiff.mpr (not_lt.mp hno)⟩

/-- A tick passes, and the timer has one less to run. -/
theorem tick_spent (ht : 0 < c.timeout) (hstep : c.Step s .tick s') :
    spent s' ≤ spent s ∧ (s'.phase = .suspended → Running s') := by
  simp only [Step, exec, ite_none_left_eq_some, Bool.not_eq_true] at hstep
  obtain ⟨hchecked, htick⟩ := hstep
  by_cases hphase : s.phase = .suspended
  · obtain ⟨hlow, hsmall, hahead⟩ := h hphase
    have hone := ticksAhead_add32_one hlow
    have hpos := hahead hchecked
    rw [if_pos ⟨hphase, ht⟩] at htick
    cases htick
    rw [spent_of_suspended hphase]
    refine ⟨(spent_of_suspended (by exact hphase)).trans_le ?_,
      fun _ => ⟨?_, ?_, fun hno => (by cases hno)⟩⟩
    all_goals
      dsimp only
      omega
  · rw [if_neg (fun hno => hphase hno.1)] at htick
    cases htick
    exact ⟨(spent_of_ne (by exact hphase)).trans_le (armed_le_spent h),
      fun hno => absurd hno hphase⟩

end

section

variable (ht : 0 < c.timeout)
include ht

/-- What a step does to the waiting times: a turn in vain arms the whole timeout, and nothing else
adds to them. -/
theorem exec_spent (h : s.phase = .suspended → Running s)
    (hstep : c.Step s e s') : (s'.phase = .suspended → Running s') ∧
      ((e = .turn ∧ c.blocked s.base.waited = true ∧ spent s' = s.armed + c.timeout) ∨
        (e = .turn → c.blocked s.base.waited = false) ∧ spent s' ≤ spent s) := by
  cases e with
  | turn =>
    have hwaits := answer_waits_iff ht s.base.waited
    simp only [Step, exec, ite_none_right_eq_some] at hstep
    obtain ⟨-, hturn⟩ := hstep
    cases hanswer : c.answer s.base.waited with
    | waits =>
      rw [hanswer] at hturn
      obtain ⟨hspent, hrunning⟩ := suspend_spent ht hturn
      exact ⟨fun _ => hrunning, .inl ⟨rfl, hwaits.mp hanswer, hspent⟩⟩
    | eok | etimeout =>
      have hfree : c.blocked s.base.waited = false := by
        rw [Bool.eq_false_iff]
        intro hblocked
        have hno := hanswer.symm.trans (hwaits.mpr hblocked)
        cases hno
      rw [hanswer] at hturn
      cases hturn
      exact ⟨fun hno => (by cases hno),
        .inr ⟨fun _ => hfree, (spent_of_ne Phase.noConfusion).trans_le (armed_le_spent h)⟩⟩
  | tick =>
    obtain ⟨hle, hrunning⟩ := tick_spent h ht hstep
    exact ⟨hrunning, .inr ⟨fun hno => (by cases hno), hle⟩⟩
  | check =>
    simp only [Step, exec, ite_none_right_eq_some] at hstep
    obtain ⟨-, hcheck⟩ := hstep
    cases hcheck
    obtain ⟨hle, hrunning⟩ := rtTimerCheck_spent h ht
    exact ⟨hrunning, .inr ⟨fun hno => (by cases hno), hle⟩⟩
  | other act =>
    simp only [Step, exec, ite_none_left_eq_some] at hstep
    obtain ⟨-, hother⟩ := hstep
    cases hother
    refine ⟨fun hphase => ?_, .inr ⟨fun hno => (by cases hno), ?_⟩⟩
    · obtain ⟨hlow, hsmall, hahead⟩ := h (suspended_of_resume hphase)
      exact ⟨hlow, hsmall, hahead⟩
    · by_cases hphase : c.resume (s.base.exec act).waited act s.phase = .suspended
      · rw [spent_of_suspended hphase, spent_of_suspended (suspended_of_resume hphase)]
      · exact (spent_of_ne hphase).trans_le (armed_le_spent h)

/-- The bound, and the timer that keeps it. -/
theorem spent_le_of_prompt (h : Reachable (Initial size) (Within c.Step c.Prompt) s) :
    spent s ≤ c.timeout ∧ (s.phase = .suspended → Running s) := by
  apply h.invariant
  · rintro s ⟨-, hready, harmed⟩
    have hne : s.phase ≠ .suspended := by
      rw [hready]
      exact Phase.noConfusion
    rw [spent_of_ne hne, harmed]
    exact ⟨ht.le, fun hno => absurd hno hne⟩
  · rintro s e s' - ⟨hle, hrunning⟩ ⟨hprompt, hstep⟩
    obtain ⟨hrunning', ⟨rfl, hblocked, hsum⟩ | ⟨-, hless⟩⟩ := exec_spent ht hrunning hstep
    · have hzero : s.armed = 0 := hprompt hblocked
      rw [hsum, hzero]
      exact ⟨(zero_add _).le, hrunning'⟩
    · exact ⟨hless.trans hle, hrunning'⟩

/-- In a run without a turn in vain after a tick of the waits the waiting times add up to at most the
timeout; just such a turn exceeds it. -/
theorem reachable_spent_le (h : Reachable (Initial size) (Within c.Step c.Prompt) s) :
    spent s ≤ c.timeout ∧
      ∀ e s', c.Step s e s' → (spent s' ≤ c.timeout ↔ c.Prompt s e) := by
  obtain ⟨hle, hrunning⟩ := spent_le_of_prompt ht h
  refine ⟨hle, fun e s' hstep => ?_⟩
  obtain ⟨-, ⟨rfl, hblocked, hsum⟩ | ⟨hfree, hless⟩⟩ := exec_spent ht hrunning hstep
  · rw [hsum, Prompt]
    constructor
    · intro hsmall _
      omega
    · intro hprompt
      rw [hprompt hblocked]
      exact (zero_add _).le
  · refine iff_of_true (hless.trans hle) ?_
    cases e with
    | turn =>
      intro hblocked
      cases hblocked.symm.trans (hfree rfl)
    | tick | check | other _ => exact trivial

end

/-- Thread 0 pushes 7 and waits for at most 5 ticks. -/
def pushFive : Call (Fin 2) Nat := { self := 0, op := .push 7, timeout := 5 }

/-- After `rt_data_queue_init` of a queue for one buffer, when the tick counter is about to wrap. -/
def single : Waiting (Fin 2) Nat :=
  { base :=
      { waited := { queue := rtDataQueueInit (fun _ => 0) 1 0, suspendedPopList := [] }
        held := [] }
    phase := .ready
    rtTick := 2 ^ 32 - 2
    timeoutTick := 0
    unchecked := false
    armed := 0 }

theorem initial_single : Initial 1 single := ⟨⟨_, _, rfl⟩, rfl, rfl⟩

instance (s : Waiting (Fin 2) Nat) (e : Event (Fin 2) Nat) : Decidable (pushFive.Prompt s e) := by
  unfold Prompt
  cases e <;> infer_instance

/-- Ticks, each with a check of the timers. -/
def ticks (n : Nat) : List (Event (Fin 2) Nat) := (List.replicate n [.tick, .check]).flatten

/-- The other thread fills the queue, the call waits for three ticks, and the other thread takes the
buffer. -/
def woken : List (Event (Fin 2) Nat) :=
  [.other (.push 1 3 0), .turn] ++ ticks 3 ++ [.other (.pop 1 0)]

/-- The call stores its buffer after it has waited for three ticks. -/
theorem reachable_spent_le_five :
    ∃ s, runWithin pushFive.exec pushFive.Prompt single
        (woken ++ [.turn] : List (Event (Fin 2) Nat)) = some s ∧
      s.phase = .returned .eok ∧ s.armed = 3 ∧ spent s ≤ pushFive.timeout := by
  have hinit : Reachable (Initial 1) (Within pushFive.Step pushFive.Prompt) single :=
    .start initial_single
  obtain ⟨s, hrun, hphase, harmed⟩ : ∃ s, runWithin pushFive.exec pushFive.Prompt single
      (woken ++ [.turn] : List (Event (Fin 2) Nat)) = some s ∧ s.phase = .returned .eok ∧
        s.armed = 3 :=
    ⟨_, rfl, rfl, rfl⟩
  exact ⟨s, hrun, hphase, harmed, (reachable_spent_le (by decide) (hinit.runWithin hrun)).1⟩

/-- The other thread fills the queue again before the call runs, and the call waits for 5 ticks
more, 8 in all. -/
theorem waits_again :
    ¬ ∀ s, Reachable (Initial 1) pushFive.Step s → spent s ≤ pushFive.timeout := by
  intro hall
  obtain ⟨s, hrun, hspent⟩ : ∃ s, runAll pushFive.exec single
      (woken ++ [.other (.push 1 4 0), .turn] ++ ticks 5 : List (Event (Fin 2) Nat)) = some s ∧
        spent s = 8 :=
    ⟨_, rfl, rfl⟩
  have hle := hall s ((Reachable.start initial_single).runAll hrun)
  rw [hspent] at hle
  exact absurd hle (by decide)

end Call

end RtKernel.DataQueue

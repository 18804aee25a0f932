import RtKernel.Kernel.Invariant
import RtKernel.Core.Run

/-!
# Thread operations under any interleaving

A call that disables interrupts more than once, or looks at a thread before it
does, can be interrupted in between, and by any other call. Here such a call
stays pending between its parts, and any pending call may go on at any time.
-/

open List Option

namespace RtKernel.Threads

open Kernel

/-- Calls that have begun and have a locked part to come. -/
inductive Call (τ : Type*)
  /-- `rt_thread_startup` before its call of `rt_thread_resume`. -/
  | startup (t : τ)
  /-- `rt_thread_resume`, having found the thread suspended. -/
  | resume (t : τ)
  /-- `rt_thread_suspend`, having found the thread running. -/
  | suspend (t : τ)
  /-- `rt_thread_detach` or `rt_thread_delete`, after `rt_schedule_remove_thread`. -/
  | detach (t : τ)
  deriving DecidableEq

/-- What threads, interrupts and the timer do. -/
inductive Act (τ : Type*)
  | startup (t : τ)
  | resume (t : τ)
  | suspend
  | detach (t : τ)
  /-- A pending call goes on. -/
  | go (c : Call τ)
  | exit
  | yield
  | sleep
  | changePriority (t : τ) (priority : Nat)
  /-- The timer of a thread expires. -/
  | timeout (t : τ)
  | schedule
  | tick
  | enterCritical
  | exitCritical

/-- The scheduler, the calls under way, and the threads that were started. -/
structure Sys (τ ω : Type*) where
  kernel : Kernel τ ω
  pending : List (Call τ)
  started : List τ

namespace Sys

variable {τ ω : Type*} [DecidableEq τ]

/-- The thread is in the state `stat`. -/
def hasStat (s : Sys τ ω) (t : τ) (stat : Stat) : Prop := (s.kernel.thread t).stat = stat

instance (s : Sys τ ω) (t : τ) (stat : Stat) : Decidable (s.hasStat t stat) :=
  inferInstanceAs (Decidable (_ = _))

/-- A step; there is none where it cannot happen or an assertion fails. -/
def exec (s : Sys τ ω) : Act τ → Option (Sys τ ω)
  | .startup t => (s.kernel.rtThreadStartup t).map fun k =>
      { kernel := k, pending := .startup t :: s.pending, started := t :: s.started }
  | .resume t =>
      if s.hasStat t .suspend then some { s with pending := .resume t :: s.pending } else some s
  | .suspend =>
      if s.hasStat s.kernel.current .running then
        some { s with pending := .suspend s.kernel.current :: s.pending }
      else some s
  | .detach t =>
      if s.hasStat t .close then some s
      else some
        { s with
          kernel := if s.hasStat t .init then s.kernel else s.kernel.rtScheduleRemoveThread t
          pending := .detach t :: s.pending }
  | .go c =>
      if c ∈ s.pending then
        let s := { s with pending := s.pending.erase c }
        match c with
        | .startup t =>
            if s.hasStat t .suspend then some { s with pending := .resume t :: s.pending }
            else some s
        | .resume t => some { s with kernel := s.kernel.resume t }
        | .suspend t => if t = s.kernel.current then some { s with kernel := s.kernel.suspend } else none
        | .detach t => some { s with kernel := s.kernel.closeThread t }
      else none
  | .exit => some { s with kernel := s.kernel.threadExit }
  | .yield => s.kernel.rtThreadYield.rtSchedule.map fun k => { s with kernel := k }
  | .sleep => some { s with kernel := s.kernel.rtThreadSleep }
  | .changePriority t priority =>
      if priority < rtThreadPriorityMax then
        some { s with kernel := s.kernel.changePriority t priority }
      else none
  | .timeout t =>
      if (s.kernel.thread t).timer then
        (s.kernel.threadTimeout t).map fun k => { s with kernel := k }
      else none
  | .schedule => s.kernel.rtSchedule.map fun k => { s with kernel := k }
  | .tick => some { s with kernel := s.kernel.tickSlice.1 }
  | .enterCritical => some { s with kernel := s.kernel.rtEnterCritical }
  | .exitCritical => some { s with kernel := s.kernel.rtExitCritical }

def Step (s : Sys τ ω) (a : Act τ) (s' : Sys τ ω) : Prop := s.exec a = some s'

/-- The scheduler has been started with its first thread, and no other was started yet. -/
structure Initial (s : Sys τ ω) : Prop where
  group : s.kernel.ready.group = 0
  queue : ∀ p, s.kernel.ready.queue p = []
  priority : ∀ t, (s.kernel.thread t).currentPriority < rtThreadPriorityMax
  current : s.hasStat s.kernel.current .running
  mask : (s.kernel.thread s.kernel.current).numberMask =
    bit (s.kernel.thread s.kernel.current).currentPriority
  others : ∀ t, t ≠ s.kernel.current → s.hasStat t .init
  pending : s.pending = []
  started : s.started = [s.kernel.current]

/-- The ready queues and what is known of them elsewhere agree. -/
structure Consistent (s : Sys τ ω) : Prop where
  /-- A bit of the group is set exactly when the queue of its priority has members. -/
  group : ∀ p < rtThreadPriorityMax,
    s.kernel.ready.group.getLsbD p = true ↔ s.kernel.ready.queue p ≠ []
  /-- A thread is linked in a queue exactly when it is ready and has its priority, ... -/
  linked : ∀ p t, t ∈ s.kernel.ready.queue p ↔
    s.hasStat t .ready ∧ (s.kernel.thread t).currentPriority = p
  /-- ... and is linked there once. -/
  once : ∀ p, (s.kernel.ready.queue p).Nodup
  mask : ∀ t ∈ s.started, (s.kernel.thread t).numberMask = bit (s.kernel.thread t).currentPriority
  /-- The running thread is in no queue. -/
  current : ∀ p, s.kernel.current ∉ s.kernel.ready.queue p

/-- Neither locked part of `rt_thread_detach` and `rt_thread_delete` meets a ready thread. -/
def Careful (s : Sys τ ω) : Act τ → Prop
  | .detach t => ¬ s.hasStat t .ready
  | .go (.detach t) => ¬ s.hasStat t .ready
  | _ => True

/-- The invariant of careful runs. -/
structure Good (s : Sys τ ω) : Prop where
  inv : s.kernel.Inv (· ∈ s.started)
  current : s.kernel.current ∈ s.started
  /-- A thread about to be resumed was started. -/
  pending : ∀ t, .resume t ∈ s.pending → t ∈ s.started

section

omit [DecidableEq τ]

variable {s : Sys τ ω} {k : Kernel τ ω}

theorem Good.consistent (h : s.Good) : s.Consistent := by
  have hq := h.inv.queues
  have hlinked : ∀ p t, t ∈ s.kernel.ready.queue p ↔
      s.hasStat t .ready ∧ (s.kernel.thread t).currentPriority = p := by
    intro p t
    rw [hq.holds.mem]
    constructor
    · exact key_eq_some
    · rintro ⟨hs, rfl⟩
      exact key_of_ready hs
  refine ⟨fun p _ => hq.holds.group p, hlinked, hq.holds.nodup, fun t ht => hq.mask t ht, ?_⟩
  intro p hp
  exact h.inv.current ((hlinked p _).mp hp).1

theorem Initial.good (h : s.Initial) : s.Good := by
  have hnot : ∀ t, (s.kernel.thread t).stat ≠ .ready := by
    intro t hr
    by_cases ht : t = s.kernel.current
    · have := h.current
      rw [hasStat, ← ht, hr] at this
      cases this
    · cases hr.symm.trans (h.others t ht)
  have hmem : s.kernel.current ∈ s.started := h.started ▸ mem_singleton_self _
  refine ⟨.of_empty h.group h.queue hnot h.priority ?_ ?_ ?_, hmem, ?_⟩
  · intro t ht
    rw [h.started, mem_singleton] at ht
    exact ht ▸ h.mask
  · intro t hi _
    by_cases ht : t = s.kernel.current
    · exact ht ▸ hmem
    · exact absurd (h.others t ht) hi
  · intro t hr
    by_contra ht
    cases hr.symm.trans (h.others t ht)
  · intro t ht
    rw [h.pending] at ht
    cases ht

/-- Another kernel state and other pending calls, which resume no thread that is not started. -/
theorem Good.mono (h : s.Good) {pending : List (Call τ)}
    (hk : k.Inv (· ∈ s.started)) (hc : k.current ∈ s.started)
    (hp : ∀ t, .resume t ∈ pending → .resume t ∈ s.pending ∨ s.hasStat t .suspend) :
    Good { s with kernel := k, pending := pending } := by
  refine ⟨hk, hc, ?_⟩
  intro t ht
  rcases hp t ht with hold | hs
  · exact h.pending t hold
  · exact h.inv.live t (by rw [hs]; nofun) (by rw [hs]; nofun)

/-- The kernel goes on with the same calls pending. -/
theorem Good.kernel (h : s.Good) (hk : k.Inv (· ∈ s.started))
    (hc : k.current = s.kernel.current) : Good { s with kernel := k } :=
  h.mono hk (hc ▸ h.current) fun _ ht => .inl ht

end

theorem Good.schedule {s : Sys τ ω} (h : s.Good) {k k' : Kernel τ ω}
    (hk : k.Inv (· ∈ s.started)) (hc : k.current = s.kernel.current)
    (hk' : k.rtSchedule = some k') : Good { s with kernel := k' } := by
  obtain ⟨k'', hk'', hinv, -⟩ := hk.rtSchedule
  obtain rfl := some.inj (hk'.symm.trans hk'')
  apply h.mono hinv _ fun _ ht => .inl ht
  rcases rtSchedule_current hk hk' with he | hr
  · rw [he, hc]
    exact h.current
  · exact hk.live _ (by rw [hr]; nofun) (by rw [hr]; nofun)

variable {s s' : Sys τ ω} {a : Act τ}

theorem Good.go {c : Call τ} (h : s.Good) (hcare : s.Careful (.go c))
    (hstep : Step s (.go c) s') : s'.Good := by
  have herase : ∀ t, Call.resume t ∈ s.pending.erase c → .resume t ∈ s.pending ∨ s.hasStat t .suspend :=
    fun t ht => .inl (mem_of_mem_erase ht)
  rw [Step, exec] at hstep
  by_cases hmem : c ∈ s.pending
  · rw [if_pos hmem] at hstep
    cases c with
    | startup t =>
      simp only at hstep
      split_ifs at hstep with hs
      · cases hstep
        apply h.mono h.inv h.current
        intro x hx
        rcases mem_cons.mp hx with hx | hx
        · cases hx
          exact .inr hs
        · exact herase x hx
      · cases hstep
        exact h.mono h.inv h.current herase
    | resume t =>
      cases hstep
      have hc := (current_eq (k := s.kernel) t 0).1
      exact h.mono (h.inv.resume (h.pending t hmem)) (hc ▸ h.current) herase
    | suspend t =>
      simp only at hstep
      split_ifs at hstep with hs
      cases hstep
      exact h.mono (h.inv.suspend h.current) h.current herase
    | detach t =>
      cases hstep
      exact h.mono (h.inv.closeThread hcare) h.current herase
  · rw [if_neg hmem] at hstep
    cases hstep

theorem Good.step (h : s.Good) (hcare : s.Careful a) (hstep : Step s a s') : s'.Good := by
  cases a with
  | startup t =>
    obtain ⟨k, hk, rfl⟩ := map_eq_some_iff.mp hstep
    have hinv := h.inv.rtThreadStartup hk
    have hcur : k.current = s.kernel.current := by
      unfold rtThreadStartup at hk
      split_ifs at hk
      cases hk
      rfl
    refine ⟨?_, ?_, ?_⟩
    · have hpred : (fun x => x ∈ s.started ∨ x = t) = fun x => x ∈ t :: s.started := by
        funext x
        rw [mem_cons, or_comm]
      exact hpred ▸ hinv
    · exact hcur ▸ mem_cons_of_mem t h.current
    · intro x hx
      rcases mem_cons.mp hx with hx | hx
      · cases hx
      · exact mem_cons_of_mem t (h.pending x hx)
  | resume t =>
    rw [Step, exec] at hstep
    split_ifs at hstep with hs
    · cases hstep
      apply h.mono h.inv h.current
      intro x hx
      rcases mem_cons.mp hx with hx | hx
      · cases hx
        exact .inr hs
      · exact .inl hx
    · cases hstep
      exact h
  | suspend =>
    rw [Step, exec] at hstep
    split_ifs at hstep with hs
    · cases hstep
      apply h.mono h.inv h.current
      intro x hx
      rcases mem_cons.mp hx with hx | hx
      · cases hx
      · exact .inl hx
    · cases hstep
      exact h
  | detach t =>
    rw [Step, exec] at hstep
    split_ifs at hstep with hclose hinit
    · cases hstep
      exact h
    · cases hstep
      apply h.mono h.inv h.current
      intro x hx
      exact .inl ((mem_cons.mp hx).resolve_left nofun)
    · cases hstep
      apply h.mono (h.inv.remove (h.inv.live t hinit hclose) hcare) h.current
      intro x hx
      exact .inl ((mem_cons.mp hx).resolve_left nofun)
  | go c => exact h.go hcare hstep
  | exit =>
    cases hstep
    exact h.kernel (h.inv.threadExit h.current) rfl
  | yield =>
    obtain ⟨k, hk, rfl⟩ := map_eq_some_iff.mp hstep
    exact h.schedule h.inv.rtThreadYield rfl hk
  | sleep =>
    cases hstep
    refine h.kernel h.inv.rtThreadSleep ?_
    exact (current_eq (k := s.kernel.setThread s.kernel.current fun x => { x with error := .eok })
      s.kernel.current 0).2.2.2.1
  | changePriority t priority =>
    rw [Step, exec] at hstep
    split_ifs at hstep with hp
    cases hstep
    exact h.kernel (h.inv.changePriority t hp) (current_eq t priority).2.2.2.2.1
  | timeout t =>
    rw [Step, exec] at hstep
    split_ifs at hstep
    obtain ⟨k, hk, rfl⟩ := map_eq_some_iff.mp hstep
    exact h.kernel (h.inv.threadTimeout hk) ((current_eq t 0).2.2.2.2.2.2 k hk)
  | schedule =>
    obtain ⟨k, hk, rfl⟩ := map_eq_some_iff.mp hstep
    exact h.schedule h.inv rfl hk
  | tick =>
    cases hstep
    exact h.kernel h.inv.tickSlice (current_eq s.kernel.current 0).2.2.2.2.2.1
  | enterCritical | exitCritical =>
    cases hstep
    exact h.kernel ⟨⟨h.inv.queues.holds, h.inv.queues.priority, h.inv.queues.mask⟩, h.inv.live,
      h.inv.current, h.inv.running⟩ rfl

theorem reachable_good {s : Sys τ ω} (h : Reachable Initial (Within Step Careful) s) : s.Good :=
  h.inductWithin (·.good) (·.step)

/-- A step that is not careful breaks the agreement. -/
theorem Good.careless (h : s.Good) (hcare : ¬ s.Careful a)
    (hstep : Step s a s') : ¬ s'.Consistent := by
  intro hcon
  have hq := h.inv.queues.holds
  cases a with
  | detach t =>
    -- the thread is ready but linked nowhere
    have hready : s.hasStat t .ready := not_not.mp hcare
    have hclose : ¬ s.hasStat t .close := fun hc => by cases hready.symm.trans hc
    have hinit : ¬ s.hasStat t .init := fun hc => by cases hready.symm.trans hc
    rw [Step, exec, if_neg hclose, if_neg hinit] at hstep
    cases hstep
    have hin := (hcon.linked _ t).mpr ⟨hready, rfl⟩
    rw [rtScheduleRemoveThread, ReadyTable.clear_queue] at hin
    exact (mem_rtListRemove.mp hin).2 rfl
  | go c =>
    cases c with
    | detach t =>
      -- the thread is closed and still linked in its queue
      have hready : s.hasStat t .ready := not_not.mp hcare
      rw [Step, exec] at hstep
      split_ifs at hstep with hmem
      cases hstep
      have hin := (hq.mem _ t).mpr (key_of_ready hready)
      have hstat := ((hcon.linked _ t).mp hin).1
      simp [hasStat, closeThread] at hstat
    | _ => exact hcare trivial
  | _ => exact hcare trivial

/-- In a run whose steps are all careful the ready queues agree with the threads in every state, and
any further step keeps the agreement exactly when it is careful. -/
theorem reachable_consistent :
    ∀ s : Sys τ ω, Reachable Initial (Within Step Careful) s →
      s.Consistent ∧ ∀ a s', Step s a s' → (s'.Consistent ↔ s.Careful a) := by
  intro s hs
  have h := reachable_good hs
  refine ⟨h.consistent, ?_⟩
  intro a s' hstep
  constructor
  · intro hcon
    by_contra hcare
    exact h.careless hcare hstep hcon
  · intro hcare
    exact (h.step hcare hstep).consistent

/-- A thread that has run only its initialisation. -/
def fresh (priority : Nat) : RtThread :=
  { stat := .init, yield := false, currentPriority := priority, numberMask := 0, initTick := 10
    remainingTick := 10, error := .eok, timer := false }

/-- Thread `0` runs at priority 10; thread `1` has priority 20 and thread `2`, the idle one, 31. -/
def boot : Sys (Fin 3) Empty :=
  { kernel :=
      { thread := fun
          | 0 => { fresh 10 with stat := .running, numberMask := bit 10 }
          | 1 => fresh 20
          | 2 => fresh 31
        ready := { group := 0, queue := fun _ => [] }
        wait := nofun, defunct := [], current := 0, schedulerLockNest := 0 }
    pending := [], started := [0] }

theorem boot_initial : boot.Initial where
  group := rfl
  queue _ := rfl
  priority t := by revert t; decide
  current := rfl
  mask := rfl
  others t := by revert t; decide
  pending := rfl
  started := rfl

/-- Thread `1` is started and queued. -/
theorem reachable_consistent_startup : ∃ s : Sys (Fin 3) Empty,
    s.kernel.ready.queue 20 = [1] ∧ s.Consistent ∧ ¬ s.Careful (.detach 1) := by
  have h₀ : Reachable Initial (Within Step Careful) boot := .start boot_initial
  have h₁ := h₀.next (show Within Step Careful boot (.startup 1) _ from ⟨trivial, rfl⟩)
  have h₂ := h₁.next (show Within Step Careful _ (.go (.startup 1)) _ from ⟨trivial, rfl⟩)
  have h₃ := h₂.next (show Within Step Careful _ (.go (.resume 1)) _ from ⟨trivial, rfl⟩)
  refine ⟨_, ?_, (reachable_consistent _ h₃).1, ?_⟩
  · decide
  · exact not_not.mpr (by decide)

/-- The timer of thread `1` expires between the two locked parts of its detach. -/
def closedWhileReady : List (Act (Fin 3)) :=
  [.startup 2, .go (.startup 2), .go (.resume 2), .schedule,
    .startup 1, .go (.startup 1), .go (.resume 1), .schedule,
    .sleep, .schedule, .sleep, .schedule, .timeout 0, .schedule,
    .detach 1, .timeout 1, .schedule, .go (.detach 1)]

/-- A closed thread is left in a ready queue. -/
theorem closedWhileReady_inconsistent :
    ∃ s : Sys (Fin 3) Empty, Reachable Initial Step s ∧ ¬ s.Consistent := by
  have hrun : ∃ s ∈ runAll exec boot closedWhileReady, s.pending = [] ∧
      (s.kernel.thread 1).stat = .close ∧ s.kernel.ready.queue 20 = [1] ∧
      s.kernel.current = 0 := by decide +kernel
  obtain ⟨s, hs, -, hclose, hqueue, -⟩ := Reachable.of_runAll boot_initial hrun
  refine ⟨s, hs, ?_⟩
  intro hcon
  have hin : (1 : Fin 3) ∈ s.kernel.ready.queue 20 := hqueue ▸ List.mem_singleton_self _
  cases hclose.symm.trans ((hcon.linked 20 1).mp hin).1

end Sys

end RtKernel.Threads

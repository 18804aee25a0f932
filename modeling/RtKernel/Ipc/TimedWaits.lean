import RtKernel.Ipc.ObjectRuns
import RtKernel.Ipc.ThreadTimer

/-!
# Timers of threads in all runs

The calls that wait, wake, sleep, exit and delete are taken apart into their locked
parts, which follow each other in any order. What a part finds in its object is
left open, so the runs here are those of any objects in any state.
-/

open Option

namespace RtKernel.TimedWaits

open Kernel

/-- A locked part of a call on an object, which has the suspend lists `x`. -/
inductive Part (τ β : Type*)
  | semTake (sem : Sem.RtSemaphore) (x : Nat) (timeout : Int)
  | semRelease (sem : Sem.RtSemaphore) (x : Nat)
  | mutexTake (mutex : Mutex.RtMutex τ) (x : Nat) (timeout : Int)
  | mutexRelease (mutex : Mutex.RtMutex τ) (x : Nat)
  | eventRecv (event : Event.RtEvent) (info : τ → Event.EventInfo) (x : Nat) (set : BitVec 32)
      (option : BitVec 8) (timeout : Int)
  | eventSend (event : Event.RtEvent) (info : τ → Event.EventInfo) (x : Nat) (set : BitVec 32)
  | mbSendWait (mb : Mailbox.RtMailbox β) (x : Side → Nat) (value : β) (timeout : Int)
  /-- `rt_mb_send_wait`, back at the head of its loop. -/
  | mbSendLoop (mb : Mailbox.RtMailbox β) (x : Side → Nat) (value : β) (timeout : Int)
  | mbUrgent (mb : Mailbox.RtMailbox β) (x : Side → Nat) (value : β)
  | mbRecv (mb : Mailbox.RtMailbox β) (x : Side → Nat) (timeout : Int)
  /-- `rt_mb_recv`, back at the head of its loop. -/
  | mbRecvLoop (mb : Mailbox.RtMailbox β) (x : Side → Nat) (timeout : Int)
  | mqStart (mq : MessageQueue.RtMessagequeue β) (x : Side → Nat) (r : MessageQueue.Request β)
  /-- The other parts of the message queue calls. -/
  | mqProceed (mq : MessageQueue.RtMessagequeue β) (x : Side → Nat) (left : Nat)
      (c : MessageQueue.Call β)
  | mpAlloc (mem : Nat → UInt8) (mp : MemPool.RtMempool) (x : Nat) (time : Int)
  | mpFree (mem : Nat → UInt8) (pool : Nat → MemPool.RtMempool) (block : Nat)
  /-- An object is reset, detached or deleted. -/
  | resumeAll (x : Nat)

variable {τ β : Type*} [DecidableEq τ]

/-- What a part does to the threads; there is no result where an assertion fails. -/
def Part.run (k : Kernel τ Nat) : Part τ β → Option (Kernel τ Nat)
  | .semTake sem x timeout => (Sem.rtSemTake k sem x timeout).map fun r => r.1
  | .semRelease sem x => some (Sem.rtSemRelease k sem x).1
  | .mutexTake mutex x timeout => (Mutex.rtMutexTake k mutex x timeout).map fun r => r.1
  | .mutexRelease mutex x => some (Mutex.rtMutexRelease k mutex x).1
  | .eventRecv event info x set option timeout =>
      (Event.rtEventRecv k event info x set option timeout).map fun r => r.1
  | .eventSend event info x set => some (Event.rtEventSend k event info x set).1
  | .mbSendWait mb x value timeout => (Mailbox.rtMbSendWait k mb x value timeout).map fun r => r.1
  | .mbSendLoop mb x value timeout => some (Mailbox.sendLoop k mb x value timeout).1
  | .mbUrgent mb x value => some (Mailbox.rtMbUrgent k mb x value).1
  | .mbRecv mb x timeout => (Mailbox.rtMbRecv k mb x timeout).map fun r => r.1
  | .mbRecvLoop mb x timeout => some (Mailbox.recvLoop k mb x timeout).1
  | .mqStart mq x r => (MessageQueue.start k mq x r).map fun r => r.1
  | .mqProceed mq x left c => (MessageQueue.proceed k mq x left c).map fun r => r.1
  | .mpAlloc mem mp x time => (MemPool.rtMpAlloc k mem mp x time).map fun r => r.1
  | .mpFree mem pool block => some (MemPool.rtMpFree k mem pool block).1
  | .resumeAll x => some (k.ipcListResumeAll x)

/-- What threads, interrupts and the timer do. -/
inductive Act (τ β : Type*)
  | thread (a : Threads.Act τ)
  | part (c : Part τ β)

/-- The threads, and those whose timer has been detached. -/
structure Sys (τ : Type*) extends Threads.Sys τ Nat where
  detached : List τ

namespace Sys

/-- `rt_timer_stop`, `rt_timer_start` and `rt_timer_detach` assert that the timer they are given is
one: that it has not been detached. -/
def Asserts (s : Sys τ) : Threads.Act τ → Prop
  | .go (.resume t) | .go (.suspend t) | .go (.detach t) => t ∉ s.detached
  | .exit | .sleep => s.kernel.current ∉ s.detached
  | _ => True

instance (s : Sys τ) : DecidablePred s.Asserts := fun a =>
  match a with
  | .go (.resume t) | .go (.suspend t) | .go (.detach t) => inferInstanceAs (Decidable (t ∉ _))
  | .exit | .sleep => inferInstanceAs (Decidable (_ ∉ _))
  | .go (.startup _) | .startup _ | .resume _ | .suspend | .detach _ | .yield
  | .changePriority _ _ | .timeout _ | .schedule | .tick | .enterCritical | .exitCritical =>
      inferInstanceAs (Decidable True)

/-- The threads whose timer an action detaches. -/
def detaches (s : Sys τ) : Threads.Act τ → List τ
  | .go (.detach t) => [t]
  | .exit => [s.kernel.current]
  | _ => []

/-- A step; there is none where it cannot happen or an assertion fails. -/
def exec (s : Sys τ) : Act τ β → Option (Sys τ)
  | .thread a =>
      if s.Asserts a then
        (s.toSys.exec a).map fun threads =>
          { toSys := threads, detached := s.detaches a ++ s.detached }
      else none
  | .part c =>
      (c.run s.kernel).bind fun k =>
        -- a wait with a timeout starts the timer of the current thread
        if (k.thread s.kernel.current).timer = true ∧ s.kernel.current ∈ s.detached then none
        else some { s with kernel := k }

def Step (s : Sys τ) (a : Act τ β) (s' : Sys τ) : Prop := s.exec a = some s'

/-- The scheduler has been started with its first thread, and nobody waits. -/
structure Initial (s : Sys τ) : Prop where
  threads : s.toSys.Initial
  timer : ∀ t, (s.kernel.thread t).timer = false
  detached : s.detached = []

/-- The invariant of a run. -/
def Good (s : Sys τ) : Prop := s.kernel.Armed (· ∈ s.detached)

end Sys

section

variable {k k' : Kernel τ Nat} {detached : τ → Prop}

section

variable (h : k.Armed detached) {x : Nat}
include h

theorem armed_mutexTake {mutex mutex' : Mutex.RtMutex τ} {timeout : Int} {outcome : Outcome}
    (hk : Mutex.rtMutexTake k mutex x timeout = some (k', mutex', outcome))
    (hd : (k'.thread k.current).timer = true → ¬ detached k.current) : k'.Armed detached := by
  have herror := h.setError .eok
  unfold Mutex.rtMutexTake at hk
  dsimp only at hk
  split_ifs at hk with hlock howner hhold hvalue hhold ht
  · cases hk
    exact herror
  · cases hk
    exact herror
  · cases hk
    exact herror
  · cases hk
    exact herror
  · cases hk
    exact herror.setError .etimeout
  · obtain ⟨owner, -, heq⟩ := map_eq_some_iff.mp hk
    cases heq
    have hlend : (Mutex.lend (k.setError .eok) owner).Armed detached := by
      rcases lend_cases (k.setError .eok) owner with heq | heq
      · rw [heq]
        exact herror
      · rw [heq]
        exact herror.changePriority owner _
    have hcur : (Mutex.lend (k.setError .eok) owner).current = k.current := by
      rcases lend_cases (k.setError .eok) owner with heq | heq
      · rw [heq]
        rfl
      · rw [heq, changePriority_current]
        rfl
    rw [← hcur] at hd
    exact hlend.block x _ _ hd

theorem armed_mutexRelease (mutex : Mutex.RtMutex τ) (x : Nat) :
    (Mutex.rtMutexRelease k mutex x).1.Armed detached := by
  unfold Mutex.rtMutexRelease
  dsimp only
  have hrestore : ∀ p, (Mutex.restore k p).Armed detached := by
    intro p
    rcases restore_cases k p with heq | heq
    · rw [heq]
      exact h
    · rw [heq]
      exact h.changePriority k.current p
  by_cases howner : mutex.owner ≠ some k.current
  · rw [if_pos howner]
    exact h.setError .error
  rw [if_neg howner]
  by_cases hzero : (mutex.hold + 255) % 256 = 0
  · rw [if_pos hzero]
    cases (Mutex.restore k mutex.originalPriority).wait x with
    | nil =>
      dsimp only
      split_ifs
      · exact hrestore _
      · exact hrestore _
    | cons head rest =>
      dsimp only
      split_ifs
      · exact (hrestore _).rtThreadResume head
      · exact hrestore _
  · rw [if_neg hzero]
    exact h

theorem armed_sendWalk (event : Event.RtEvent) (info : τ → Event.EventInfo)
    (needSchedule : Bool) (list : List τ) :
    (Event.sendWalk k event info needSchedule list).1.Armed detached := by
  induction list generalizing k event info needSchedule with
  | nil => exact h
  | cons thread rest ih =>
    unfold Event.sendWalk
    cases Event.status (info thread) event.set with
    | none => exact h
    | some met =>
      cases met with
      | false => exact ih h event info needSchedule
      | true => exact ih (h.rtThreadResume thread) _ _ true

theorem armed_eventSend (event : Event.RtEvent)
    (info : τ → Event.EventInfo) (x : Nat) (set : BitVec 32) :
    (Event.rtEventSend k event info x set).1.Armed detached := by
  unfold Event.rtEventSend
  split_ifs
  · exact h
  · exact armed_sendWalk h _ info false _

theorem armed_mpAlloc {mem : Nat → UInt8} {mp : MemPool.RtMempool}
    {time : Int} {r : Kernel τ Nat × (Nat → UInt8) × MemPool.RtMempool × MemPool.Result}
    (hk : MemPool.rtMpAlloc k mem mp x time = some r)
    (hd : (r.1.thread k.current).timer = true → ¬ detached k.current) : r.1.Armed detached := by
  unfold MemPool.rtMpAlloc at hk
  dsimp only at hk
  split_ifs at hk with hempty ht hblock
  · cases hk
    exact h.setError .etimeout
  · cases hk
    exact (h.setError .eok).suspendOn _ _ rfl hd
  · cases hk
    exact h

theorem armed_mpFree (mem : Nat → UInt8) (pool : Nat → MemPool.RtMempool)
    (block : Nat) : (MemPool.rtMpFree k mem pool block).1.Armed detached := by
  unfold MemPool.rtMpFree
  dsimp only
  split_ifs
  · exact h
  · split
    · exact h
    · exact (h.touch _ (fun t => { t with error := .eok }) rfl rfl).rtThreadResume _

end

/-- Flags under which the list of an object has that of the object. -/
theorem exists_flag (f : IpcFlag) : ∃ flag : Nat → IpcFlag, ∀ x, flag x = f :=
  ⟨fun _ => f, fun _ => rfl⟩

/-- What a part does to the threads, in any state of its object. -/
theorem armed_run (h : k.Armed detached) {c : Part τ β} (hk : c.run k = some k')
    (hd : (k'.thread k.current).timer = true → ¬ detached k.current) : k'.Armed detached := by
  cases c with
  | semTake sem x timeout =>
    obtain ⟨⟨k₁, sem₁, outcome⟩, hr, rfl⟩ := map_eq_some_iff.mp hk
    obtain ⟨flag, hflag⟩ := exists_flag sem.flag
    exact h.does (Sem.rtSemTake_does (hflag _) hr).1 hd
  | semRelease sem x =>
    cases hk
    exact h.posts (Sem.rtSemRelease_posts k sem x).1
  | mutexTake mutex x timeout =>
    obtain ⟨⟨k₁, mutex₁, outcome⟩, hr, rfl⟩ := map_eq_some_iff.mp hk
    exact armed_mutexTake h hr hd
  | mutexRelease mutex x =>
    cases hk
    exact armed_mutexRelease h mutex x
  | eventRecv event info x set option timeout =>
    obtain ⟨r, hr, rfl⟩ := map_eq_some_iff.mp hk
    obtain ⟨flag, hflag⟩ := exists_flag event.flag
    exact h.does (Event.rtEventRecv_does (hflag _) hr).1 hd
  | eventSend event info x set =>
    cases hk
    exact armed_eventSend h event info x set
  | mbSendWait mb x value timeout =>
    obtain ⟨r, hr, rfl⟩ := map_eq_some_iff.mp hk
    obtain ⟨flag, hflag⟩ := exists_flag mb.flag
    exact h.does (Mailbox.rtMbSendWait_does (hflag _) hr).1 hd
  | mbSendLoop mb x value timeout =>
    cases hk
    obtain ⟨flag, hflag⟩ := exists_flag mb.flag
    exact h.does (Mailbox.sendLoop_does (hflag _) value timeout).1 hd
  | mbUrgent mb x value =>
    cases hk
    exact h.posts (Mailbox.rtMbUrgent_posts k mb x value).1
  | mbRecv mb x timeout =>
    obtain ⟨r, hr, rfl⟩ := map_eq_some_iff.mp hk
    obtain ⟨flag, hflag⟩ := exists_flag mb.flag
    exact h.does (Mailbox.rtMbRecv_does (hflag _) hr).1 hd
  | mbRecvLoop mb x timeout =>
    cases hk
    obtain ⟨flag, hflag⟩ := exists_flag mb.flag
    exact h.does (Mailbox.recvLoop_does (hflag _) timeout).1 hd
  | mqStart mq x r =>
    obtain ⟨⟨k₁, mq₁, next⟩, hr, rfl⟩ := map_eq_some_iff.mp hk
    obtain ⟨flag, hflag⟩ := exists_flag mq.flag
    exact h.does (MessageQueue.start_does (fun _ => hflag _) hr).1 hd
  | mqProceed mq x left c =>
    obtain ⟨⟨k₁, mq₁, next⟩, hr, rfl⟩ := map_eq_some_iff.mp hk
    obtain ⟨flag, hflag⟩ := exists_flag mq.flag
    exact h.does (MessageQueue.proceed_does (fun _ => hflag _) hr).1 hd
  | mpAlloc mem mp x time =>
    obtain ⟨r, hr, rfl⟩ := map_eq_some_iff.mp hk
    exact armed_mpAlloc h hr hd
  | mpFree mem pool block =>
    cases hk
    exact armed_mpFree h mem pool block
  | resumeAll x =>
    cases hk
    exact h.ipcListResumeAll x

end

namespace Sys

variable {s s' : Sys τ}

omit [DecidableEq τ] in
theorem Initial.good (h : s.Initial) : s.Good := by
  have hstat : ∀ t, s.toSys.hasStat t .running ∨ s.toSys.hasStat t .init := by
    intro t
    by_cases ht : t = s.kernel.current
    · exact .inl (ht ▸ h.threads.current)
    · exact .inr (h.threads.others t ht)
  refine ⟨⟨fun t ht => ?_, fun t p _ => h.timer t, fun t hs => ?_⟩, fun p hp => ?_, ?_⟩
  · cases (h.timer t).symm.trans ht
  · rcases hstat t with hr | hi
    · cases hr.symm.trans hs
    · cases hi.symm.trans hs
  · rw [h.threads.queue p] at hp
    cases hp
  · have hrun : (s.kernel.thread s.kernel.current).stat = .running := h.threads.current
    rw [hrun]
    nofun

/-- What threads, interrupts and the timer do to the threads. -/
theorem Good.thread (h : s.Good) {a : Threads.Act τ} (hassert : s.Asserts a) {k : Threads.Sys τ Nat}
    (hk : s.toSys.exec a = some k) : k.kernel.Armed (· ∈ s.detaches a ++ s.detached) := by
  have hgood : s.kernel.Armed (· ∈ s.detached) := h
  cases a with
  | startup t =>
    obtain ⟨k₁, hk₁, rfl⟩ := map_eq_some_iff.mp hk
    exact hgood.startup hk₁
  | resume t | suspend =>
    rw [Threads.Sys.exec] at hk
    split_ifs at hk
    · cases hk
      exact h
    · cases hk
      exact h
  | detach t =>
    rw [Threads.Sys.exec] at hk
    split_ifs at hk with hclose hinit
    · cases hk
      exact h
    · cases hk
      exact h
    · cases hk
      exact hgood.remove t
  | go c =>
    rw [Threads.Sys.exec] at hk
    by_cases hmem : c ∈ s.pending
    · rw [if_pos hmem] at hk
      cases c with
      | startup t =>
        dsimp only at hk
        split_ifs at hk
        · cases hk
          exact h
        · cases hk
          exact h
      | resume t =>
        cases hk
        exact hgood.resume t
      | suspend t =>
        dsimp only at hk
        split_ifs at hk
        cases hk
        exact hgood.suspend
      | detach t =>
        cases hk
        exact hgood.closeThread (fun x hx => List.mem_cons_of_mem t hx) List.mem_cons_self
    · rw [if_neg hmem] at hk
      cases hk
  | exit =>
    cases hk
    exact hgood.threadExit (fun x hx => .tail _ hx) List.mem_cons_self
  | yield =>
    obtain ⟨k₁, hk₁, rfl⟩ := map_eq_some_iff.mp hk
    exact hgood.rtThreadYield.rtSchedule hk₁
  | sleep =>
    cases hk
    exact hgood.rtThreadSleep hassert
  | changePriority t priority =>
    rw [Threads.Sys.exec] at hk
    split_ifs at hk
    cases hk
    exact hgood.changePriority t priority
  | timeout t =>
    rw [Threads.Sys.exec] at hk
    split_ifs at hk with htimer
    obtain ⟨k₁, hk₁, rfl⟩ := map_eq_some_iff.mp hk
    obtain ⟨k₂, hk₂, harmed⟩ := hgood.threadTimeout htimer
    cases hk₁.symm.trans hk₂
    exact harmed
  | schedule =>
    obtain ⟨k₁, hk₁, rfl⟩ := map_eq_some_iff.mp hk
    exact hgood.rtSchedule hk₁
  | tick =>
    cases hk
    exact hgood.tickSlice
  | enterCritical | exitCritical =>
    cases hk
    exact hgood.setLock _

theorem Good.step (h : s.Good) {a : Act τ β} (hstep : Step s a s') : s'.Good := by
  cases a with
  | thread a =>
    rw [Step, exec] at hstep
    split_ifs at hstep with hassert
    obtain ⟨k, hk, rfl⟩ := map_eq_some_iff.mp hstep
    exact h.thread hassert hk
  | part c =>
    obtain ⟨k, hk, hstep⟩ := bind_eq_some_iff.mp hstep
    split_ifs at hstep with hd
    cases hstep
    exact armed_run h hk fun htimer hmem => hd ⟨htimer, hmem⟩

theorem reachable_good (h : Reachable Initial (Step (β := β)) s) : s.Good :=
  h.induct (·.good) (·.step)

/-- Whenever the timer of a thread runs, the thread is suspended, and so the assertion of
`_thread_timeout` holds; the timer of a thread that is not suspended does not expire. -/
theorem reachable_suspended : ∀ s : Sys τ, Reachable Initial (Step (β := β)) s → ∀ t,
    ((s.kernel.thread t).timer = true →
      s.toSys.hasStat t .suspend ∧ ∃ s', Step (β := β) s (.thread (.timeout t)) s') ∧
    (¬ s.toSys.hasStat t .suspend → ∀ s', ¬ Step (β := β) s (.thread (.timeout t)) s') := by
  intro s hs t
  have h := reachable_good hs
  refine ⟨fun htimer => ⟨h.suspended t htimer, ?_⟩, fun hstat s' hstep => ?_⟩
  · obtain ⟨k, hk, -⟩ := Armed.threadTimeout h htimer
    have hexec : s.toSys.exec (.timeout t) = some { s.toSys with kernel := k } := by
      rw [Threads.Sys.exec]
      rw [if_pos htimer, hk, Option.map_some]
    refine ⟨{ s with kernel := k, detached := s.detaches (.timeout t) ++ s.detached }, ?_⟩
    rw [Step, exec, if_pos (show s.Asserts (.timeout t) from trivial), hexec, Option.map_some]
  · rw [Step, exec] at hstep
    split_ifs at hstep
    obtain ⟨k, hk, -⟩ := Option.map_eq_some_iff.mp hstep
    rw [Threads.Sys.exec] at hk
    split_ifs at hk with htimer
    exact hstat (h.suspended t htimer)

/-- As in `Threads.Sys.boot`, with no timer running. -/
def boot : Sys (Fin 3) :=
  { kernel := { Threads.Sys.boot.kernel with wait := fun _ => [] }
    pending := [], started := [0], detached := [] }

theorem boot_initial : boot.Initial where
  threads := { Threads.Sys.boot_initial with queue := fun _ => rfl }
  timer t := by revert t; decide
  detached := rfl

/-- Thread `0` waits for a semaphore with a timeout. -/
def timedWait : List (Act (Fin 3) Nat) :=
  [.thread (.startup 2), .thread (.go (.startup 2)), .thread (.go (.resume 2)), .thread .schedule,
    .part (.semTake { value := 0, flag := .fifo } 7 5), .thread .schedule]

/-- An interrupt releases the semaphore. -/
def release : Act (Fin 3) Nat := .part (.semRelease { value := 0, flag := .fifo } 7)

/-- The timer runs while the thread waits, and does not expire once it is awake. -/
theorem reachable_suspended_release : ∃ s s' : Sys (Fin 3),
    (s.kernel.thread 0).timer = true ∧ s.toSys.hasStat 0 .suspend ∧ Step s release s' ∧
      s'.toSys.hasStat 0 .ready ∧ ∀ s'', ¬ Step (β := Nat) s' (.thread (.timeout 0)) s'' := by
  obtain ⟨s, hs, htimer, s', hstep, hready⟩ :
      ∃ s ∈ runAll exec boot timedWait, (s.kernel.thread 0).timer = true ∧
      ∃ s' ∈ exec s release, (s'.kernel.thread 0).stat = .ready := by decide +kernel
  have hreach : Reachable Initial (Step (β := Nat)) s := (Reachable.start boot_initial).runAll hs
  have hsuspend := ((reachable_suspended s hreach 0).1 htimer).1
  refine ⟨s, s', htimer, hsuspend, hstep, hready, ?_⟩
  refine (reachable_suspended s' (hreach.next hstep) 0).2 fun hs => ?_
  cases hready.symm.trans hs

end Sys

end RtKernel.TimedWaits

import Mathlib.Data.Fin.VecNotation
import RtKernel.Kernel.Threads

/-!
# Time slices

Each tick is charged to the running thread, and the tick that uses up its slice
reloads the slice and makes a later call of `rt_schedule` rotate the thread out.
The counter is decremented before it is tested, so a slice of no ticks, which the
creation of a thread lets pass, lasts for `2 ^ 32` of them.
-/

open List Option

namespace RtKernel.TimeSlice

open Kernel

variable {τ ω : Type*}

/-- `_thread_init`, of what the scheduler reads. -/
def threadInit (priority tick : Nat) : Option RtThread :=
  if priority < rtThreadPriorityMax then
    some
      { stat := .init, yield := false, currentPriority := priority, numberMask := 0
        initTick := tick, remainingTick := tick, error := .eok, timer := false }
  else none

/-- The running thread could be rotated out: another one of its priority is ready. -/
def Contended (k : Kernel τ ω) : Prop :=
  k.schedulerLockNest = 0 ∧ (k.thread k.current).stat = .running ∧
    k.ready.queue (k.thread k.current).currentPriority ≠ []

/-- What the tick, or the running thread itself, does once the tick interrupt has returned. -/
def waits : Threads.Act τ → Bool
  | .tick | .suspend | .go (.suspend _) | .exit | .yield | .sleep | .enterCritical
  | .exitCritical => true
  | _ => false

/-- `rt_thread_detach` and `rt_thread_delete`. -/
def deletes : Threads.Act τ → Bool
  | .detach _ | .go (.detach _) => true
  | _ => false

/-- The runs of `Threads`, and how the running thread is charged. -/
structure Sys (τ ω : Type*) extends Threads.Sys τ ω where
  /-- The tick interrupt has found the slice used up and is about to call `rt_schedule`. -/
  due : Bool
  /-- The ticks charged to the running thread since another one of its priority is ready. -/
  charged : Nat

variable [DecidableEq τ]

instance (k : Kernel τ ω) : Decidable (Contended k) := inferInstanceAs (Decidable (_ ∧ _))

namespace Sys

/-- The accounts after a step of the threads. -/
def account (s : Sys τ ω) (a : Threads.Act τ) (threads : Threads.Sys τ ω) : Sys τ ω :=
  { toSys := threads
    due := match a with
      | .tick => s.kernel.tickSlice.2
      | .schedule | .yield => false
      | _ => s.due
    charged :=
      if threads.kernel.current = s.kernel.current ∧ Contended threads.kernel then
        match a with
        | .tick => s.charged + 1
        | _ => s.charged
      else 0 }

/-- A step, without the deletion of threads. -/
def exec (s : Sys τ ω) (a : Threads.Act τ) : Option (Sys τ ω) :=
  if s.due = true ∧ waits a = true ∨ deletes a = true then none
  else (s.toSys.exec a).map (s.account a)

def Step (s : Sys τ ω) (a : Threads.Act τ) (s' : Sys τ ω) : Prop := s.exec a = some s'

/-- Every thread has run only its initialisation, with any time slice, and the first one runs. -/
structure Initial (s : Sys τ ω) : Prop where
  threads : s.toSys.Initial
  init : ∀ t, ∃ priority tick x, tick < 2 ^ 32 ∧ threadInit priority tick = some x ∧
    s.kernel.thread t =
      if t = s.kernel.current then { x with stat := .running, numberMask := bit priority } else x
  due : s.due = false
  charged : s.charged = 0

/-- Every started thread is within its time slice, and who runs on is rotated out in time. -/
structure Sliced (s : Sys τ ω) : Prop where
  within : ∀ t ∈ s.started, 1 ≤ (s.kernel.thread t).remainingTick ∧
    (s.kernel.thread t).remainingTick ≤ (s.kernel.thread t).initTick
  /-- At most `init_tick` ticks are charged to a thread while another one is ready, ... -/
  charged : s.charged ≤ (s.kernel.thread s.kernel.current).initTick
  /-- ... with the last of them its slice is used up, ... -/
  last : s.charged = (s.kernel.thread s.kernel.current).initTick → s.due = true
  /-- ... and the call of `rt_schedule` that follows rotates it out. -/
  rotated : s.due = true → Contended s.kernel → ∀ s', s.Step .schedule s' →
    s'.kernel.current ≠ s.kernel.current

end Sys

/-- A change of a thread that leaves its time slice alone and does not undo its start. -/
structure Frame (x y : RtThread) : Prop where
  initTick : y.initTick = x.initTick
  remainingTick : y.remainingTick = x.remainingTick
  live : x.stat ≠ .init → y.stat ≠ .init

theorem Frame.refl (x : RtThread) : Frame x x := ⟨rfl, rfl, id⟩

/-- A change of the kernel that leaves all time slices alone. -/
def Framed (k k' : Kernel τ ω) : Prop := ∀ t, Frame (k.thread t) (k'.thread t)

namespace Framed

variable {k k' : Kernel τ ω} {t : τ}

omit [DecidableEq τ] in
theorem refl (k : Kernel τ ω) : Framed k k := fun t => .refl (k.thread t)

section

variable (h : Framed k k')
include h

theorem setThread {f : RtThread → RtThread} (hf : ∀ x, Frame x (f x)) :
    Framed k (k'.setThread t f) := by
  intro x
  by_cases hx : x = t
  · subst hx
    rw [setThread_self]
    exact ⟨(hf _).initTick.trans (h x).initTick, (hf _).remainingTick.trans (h x).remainingTick,
      fun hl => (hf _).live ((h x).live hl)⟩
  · rw [setThread_of_ne hx]
    exact h x

theorem remove : Framed k (k'.rtScheduleRemoveThread t) := h

theorem tlistRemove : Framed k (k'.tlistRemove t) := h

theorem insert : Framed k (k'.rtScheduleInsertThread t) := by
  unfold rtScheduleInsertThread
  split_ifs
  · exact h.setThread fun x => ⟨rfl, rfl, fun _ => by simp⟩
  · refine h.setThread (f := fun x => { x with stat := .ready }) fun x => ⟨rfl, rfl, ?_⟩
    exact fun _ => by simp

theorem switchTo (b : Bool) : Framed k (k'.switchTo t b) := by
  unfold Kernel.switchTo
  refine setThread (remove ?_) fun x => ⟨rfl, rfl, fun _ => by simp⟩
  split_ifs
  · have hcurrent : Framed k { k' with current := t } := h
    exact hcurrent.insert
  · exact h

theorem resume : Framed k (k'.resume t) :=
  insert (setThread h.tlistRemove fun _ => ⟨rfl, rfl, id⟩)

theorem suspend : Framed k k'.suspend := by
  refine setThread (f := fun x => { x with stat := .suspend, timer := false }) h.remove ?_
  exact fun x => ⟨rfl, rfl, fun _ => by simp⟩

theorem rtThreadSuspend : Framed k k'.rtThreadSuspend := by
  unfold Kernel.rtThreadSuspend
  split_ifs
  · exact h.suspend
  · exact h

theorem rtThreadSleep : Framed k k'.rtThreadSleep := by
  unfold Kernel.rtThreadSleep
  refine setThread (rtThreadSuspend (setThread h ?_)) ?_
  all_goals exact fun _ => ⟨rfl, rfl, id⟩

theorem threadExit : Framed k k'.threadExit := by
  refine setThread (f := fun x => { x with timer := false, stat := .close, yield := false })
    h.remove ?_
  exact fun x => ⟨rfl, rfl, fun _ => by simp⟩

theorem changePriority (priority : Nat) : Framed k (k'.changePriority t priority) := by
  unfold Kernel.changePriority
  split_ifs
  · exact insert (setThread h.remove fun _ => ⟨rfl, rfl, id⟩)
  · exact h.setThread fun _ => ⟨rfl, rfl, id⟩

end

theorem rtThreadStartup (hk : k.rtThreadStartup t = some k') : Framed k k' := by
  unfold Kernel.rtThreadStartup at hk
  split_ifs at hk
  cases hk
  exact (refl k).setThread fun x => ⟨rfl, rfl, fun _ => by simp⟩

theorem threadTimeout (hk : k.threadTimeout t = some k') : Framed k k' := by
  unfold Kernel.threadTimeout at hk
  split_ifs at hk
  cases hk
  exact insert (tlistRemove ((refl k).setThread fun _ => ⟨rfl, rfl, id⟩))

theorem rtSchedule {started : τ → Prop} (h : k.Inv started) (hk : k.rtSchedule = some k') :
    Framed k k' := by
  have hclear := (refl k).setThread (t := k.current) (f := fun x => { x with yield := false })
    fun _ => ⟨rfl, rfl, id⟩
  rcases rtSchedule_cases h hk with rfl | ⟨-, rfl⟩ | ⟨head, -, -, ⟨-, rfl⟩ | ⟨-, rfl⟩⟩
  · exact refl k'
  · exact setThread hclear.remove fun x => ⟨rfl, rfl, fun _ => by simp⟩
  · exact hclear.switchTo true
  · exact (refl k).switchTo false

end Framed

section

variable {k k' : Kernel τ ω} {started : τ → Prop}

/-- A thread that `rt_schedule` lets run on could be rotated out before as well. -/
theorem contended_of_schedule (h : k.Inv started) (hk : k.rtSchedule = some k')
    (hsame : k'.current = k.current) (hc : Contended k') : Contended k := by
  rcases rtSchedule_cases h hk with rfl | ⟨hrun, rfl⟩ | ⟨head, -, hne, ⟨-, rfl⟩ | ⟨-, rfl⟩⟩
  · exact hc
  · obtain ⟨hlock, -, hqueue⟩ := hc
    refine ⟨hlock, hrun, fun hnil => hqueue ?_⟩
    simp only [setThread_current, remove_current, setThread_self, setThread_ready, remove_thread]
    rw [rtScheduleRemoveThread, ReadyTable.clear_queue]
    exact congrArg (rtListRemove · k.current) hnil
  all_goals exact absurd (hsame ▸ (switchTo_current).symm) hne

/-- A thread that has yielded does not run on while another one of its priority is ready. -/
theorem rotated_of_yield (h : k.Inv started) (hc : Contended k)
    (hyield : (k.thread k.current).yield = true) (hk : k.rtSchedule = some k') :
    k'.current ≠ k.current := by
  obtain ⟨hlock, hrun, hqueue⟩ := hc
  obtain ⟨other, hother⟩ := exists_mem_of_ne_nil _ hqueue
  have hkey := (h.queues.holds.mem _ _).mp hother
  have hgroup : k.ready.group ≠ 0 := by
    intro hzero
    rw [h.queues.holds.group_eq_zero.mp hzero other] at hkey
    cases hkey
  obtain ⟨p, head, rest, hffs, -, hhead, hkey', hmin⟩ := h.queues.holds.lowest hgroup
  have hne : head ≠ k.current := fun he => h.current (he ▸ (key_eq_some hkey').1)
  have hle := hmin other _ hkey
  have hstay : ¬ ((k.thread k.current).currentPriority < p ∨
      (k.thread k.current).currentPriority = p ∧ (k.thread k.current).yield = false) := by
    rw [hyield]
    simp only [Bool.true_eq_false, and_false, or_false]
    omega
  rw [rtSchedule, if_pos ⟨hlock, hgroup⟩] at hk
  simp only [hffs, Nat.add_sub_cancel, hhead, hrun, decide_true, hstay, and_false, decide_false,
    Bool.false_eq_true, if_false, if_true, setThread_current, ne_eq, hne, not_false_eq_true] at hk
  cases hk
  rw [switchTo_current]
  exact hne

end

/-- What is left of a slice after a step of the thread. -/
def left (a : Threads.Act τ) (x : RtThread) : Nat :=
  match a with
  | .tick => if sub32 x.remainingTick 1 = 0 then x.initTick else sub32 x.remainingTick 1
  | .yield => x.initTick
  | _ => x.remainingTick

section

variable (k : Kernel τ ω)
include k

theorem tickSlice_current : k.tickSlice.1.current = k.current :=
  (current_eq k.current 0).2.2.2.2.2.1

theorem tickSlice_self : k.tickSlice.1.thread k.current = { k.thread k.current with
        remainingTick := left (.tick : Threads.Act τ) (k.thread k.current)
        yield := (k.thread k.current).yield || k.tickSlice.2 } := by
  unfold tickSlice left
  simp only [setThread_current, setThread_self]
  split_ifs
  · simp
  · simp

theorem tickSlice_of_ne {t : τ} (ht : t ≠ k.current) : k.tickSlice.1.thread t = k.thread t := by
  unfold tickSlice
  dsimp only
  split_ifs
  · simp only [setThread_current, setThread_of_ne ht]
  · simp only [setThread_of_ne ht]

theorem tickSlice_due :
    k.tickSlice.2 = decide (sub32 (k.thread k.current).remainingTick 1 = 0) := by
  unfold tickSlice
  simp only [setThread_current, setThread_self]
  split_ifs with h
  · simp [h]
  · simp [h]

end

namespace Sys

variable {s s' : Sys τ ω} {a : Threads.Act τ} {k : Kernel τ ω} {t x : τ}

/-- The invariant of all runs. -/
structure Good (s : Sys τ ω) : Prop where
  threads : s.toSys.Good
  word : ∀ t, (s.kernel.thread t).initTick < 2 ^ 32
  /-- A thread that was not started has its whole slice. -/
  fresh : ∀ t, s.hasStat t .init →
    (s.kernel.thread t).remainingTick = (s.kernel.thread t).initTick
  live : ∀ t ∈ s.started, ¬ s.hasStat t .init

/-- A step is one of the threads, and deletes none. -/
theorem threads_step (hstep : Step s a s') : ¬ (s.due = true ∧ waits a = true) ∧ deletes a = false ∧
      ∃ threads, s.toSys.exec a = some threads ∧ s' = s.account a threads := by
  rw [Step, exec] at hstep
  split_ifs at hstep with hno
  obtain ⟨threads, ht, rfl⟩ := map_eq_some_iff.mp hstep
  obtain ⟨hwaits, hdeletes⟩ := not_or.mp hno
  exact ⟨hwaits, Bool.eq_false_iff.mpr hdeletes, threads, ht, rfl⟩

omit [DecidableEq τ] in
theorem careful_of_deletes {s : Threads.Sys τ ω} (h : deletes a = false) : s.Careful a := by
  cases a with
  | detach t => cases h
  | go c =>
    cases c with
    | detach t => cases h
    | _ => trivial
  | _ => trivial

/-- What a step of the threads does to the time slices. -/
structure Spends (s : Threads.Sys τ ω) (a : Threads.Act τ) (s' : Threads.Sys τ ω) : Prop where
  initTick : ∀ t, (s'.kernel.thread t).initTick = (s.kernel.thread t).initTick
  remainingTick : ∀ t, (s'.kernel.thread t).remainingTick =
    if t = s.kernel.current then left a (s.kernel.thread t) else (s.kernel.thread t).remainingTick
  live : ∀ t, ¬ s.hasStat t .init → ¬ s'.hasStat t .init
  /-- A thread that is started had run only its initialisation. -/
  started : ∀ t ∈ s'.started, t ∈ s.started ∨ s.hasStat t .init ∧ ¬ s'.hasStat t .init
  kept : ∀ t ∈ s.started, t ∈ s'.started
  current : a ≠ .schedule → a ≠ .yield → s'.kernel.current = s.kernel.current
  yield : waits a = false → a ≠ .schedule → ¬ s.hasStat s.kernel.current .init →
    (s'.kernel.thread s.kernel.current).yield = (s.kernel.thread s.kernel.current).yield

theorem Spends.of_framed {s s' : Threads.Sys τ ω} (hleft : ∀ x, left a x = x.remainingTick)
    (hframe : Framed s.kernel s'.kernel) (hstarted : s'.started = s.started)
    (hcurrent : a ≠ .schedule → s'.kernel.current = s.kernel.current)
    (hyield : waits a = false → a ≠ .schedule →
      (s'.kernel.thread s.kernel.current).yield = (s.kernel.thread s.kernel.current).yield) :
    Spends s a s' where
  initTick t := (hframe t).initTick
  remainingTick t := by
    rw [hleft, ite_self]
    exact (hframe t).remainingTick
  live t := (hframe t).live
  started t ht := .inl (hstarted ▸ ht)
  kept t ht := hstarted ▸ ht
  current hs _ := hcurrent hs
  yield hw hs _ := hyield hw hs

theorem yield_insert :
    ((k.rtScheduleInsertThread t).thread x).yield = (k.thread x).yield := by
  by_cases hx : x = t
  · rw [hx, insert_self]
  · rw [insert_of_ne hx]

theorem yield_setThread {f : RtThread → RtThread} (hf : ∀ y, (f y).yield = y.yield) :
    ((k.setThread t f).thread x).yield = (k.thread x).yield := by
  by_cases hx : x = t
  · rw [hx, setThread_self, hf]
  · rw [setThread_of_ne hx]

theorem spends_go {s s' : Threads.Sys τ ω} {c : Threads.Call τ}
    (hdeletes : deletes (.go c) = false) (hstep : Threads.Sys.Step s (.go c) s') :
    Spends s (.go c) s' := by
  rw [Threads.Sys.Step, Threads.Sys.exec] at hstep
  split_ifs at hstep
  cases c with
  | startup t =>
    dsimp only at hstep
    split_ifs at hstep
    all_goals
      cases hstep
      exact .of_framed (fun _ => rfl) (.refl _) rfl (fun _ => rfl) fun _ _ => rfl
  | resume t =>
    cases hstep
    refine .of_framed (fun _ => rfl) (Framed.refl _).resume rfl
      (fun _ => (current_eq t 0).1) fun _ _ => ?_
    exact (yield_insert).trans (yield_setThread fun _ => rfl)
  | suspend t =>
    dsimp only at hstep
    split_ifs at hstep
    cases hstep
    exact .of_framed (fun _ => rfl) (Framed.refl _).suspend rfl (fun _ => rfl)
      fun hw => absurd hw.symm Bool.false_ne_true
  | detach t => cases hdeletes

section

variable {s s' : Threads.Sys τ ω} (h : s.Good)
include h

/-- A step that only changes one thread's flags, or none. -/
theorem spends_schedule (hstep : Threads.Sys.Step s .schedule s') : Spends s .schedule s' := by
  obtain ⟨k, hk, rfl⟩ := map_eq_some_iff.mp hstep
  exact .of_framed (fun _ => rfl) (Framed.rtSchedule h.inv hk) rfl (fun hs => absurd rfl hs)
    fun _ hs => absurd rfl hs

theorem spends_yield (hstep : Threads.Sys.Step s .yield s') : Spends s .yield s' := by
  obtain ⟨k, hk, rfl⟩ := map_eq_some_iff.mp hstep
  have hframe := Framed.rtSchedule h.inv.rtThreadYield hk
  have hself : s.kernel.rtThreadYield.thread s.kernel.current =
      { s.kernel.thread s.kernel.current with
        remainingTick := (s.kernel.thread s.kernel.current).initTick, yield := true } :=
    setThread_self ..
  have hother : ∀ t, t ≠ s.kernel.current →
      s.kernel.rtThreadYield.thread t = s.kernel.thread t := fun t ht => setThread_of_ne ht
  refine ⟨fun t => ?_, fun t => ?_, fun t => ?_, fun t ht => .inl ht, fun t ht => ht,
    fun _ hy => absurd rfl hy, nofun⟩
  · rw [(hframe t).initTick]
    by_cases ht : t = s.kernel.current
    · rw [ht, hself]
    · rw [hother t ht]
  · rw [(hframe t).remainingTick]
    by_cases ht : t = s.kernel.current
    · rw [if_pos ht, ht, hself]
      rfl
    · rw [if_neg ht, hother t ht]
  · intro hlive
    apply (hframe t).live
    by_cases ht : t = s.kernel.current
    · rw [ht, hself]
      exact ht ▸ hlive
    · rw [hother t ht]
      exact hlive

end

theorem spends_tick {s s' : Threads.Sys τ ω} (hstep : Threads.Sys.Step s .tick s') :
    Spends s .tick s' := by
  cases hstep
  refine ⟨fun t => ?_, fun t => ?_, fun t => ?_, fun t ht => .inl ht, fun t ht => ht,
    fun _ _ => tickSlice_current _, nofun⟩
  · by_cases ht : t = s.kernel.current
    · rw [ht, tickSlice_self]
    · rw [tickSlice_of_ne _ ht]
  · by_cases ht : t = s.kernel.current
    · rw [if_pos ht, ht, tickSlice_self]
    · rw [if_neg ht, tickSlice_of_ne _ ht]
  · rw [Threads.Sys.hasStat, Threads.Sys.hasStat]
    by_cases ht : t = s.kernel.current
    · rw [ht, tickSlice_self]
      exact id
    · rw [tickSlice_of_ne _ ht]
      exact id

theorem spends_startup {s s' : Threads.Sys τ ω} {t : τ}
    (hstep : Threads.Sys.Step s (.startup t) s') : Spends s (.startup t) s' := by
  obtain ⟨k, hk, rfl⟩ := map_eq_some_iff.mp hstep
  have hframe := Framed.rtThreadStartup hk
  unfold rtThreadStartup at hk
  split_ifs at hk with hinit
  cases hk
  refine ⟨fun x => (hframe x).initTick, fun x => ?_, fun x => (hframe x).live, fun x hx => ?_,
    fun x hx => mem_cons_of_mem t hx, fun _ _ => rfl, fun _ _ hcur => ?_⟩
  · rw [(hframe x).remainingTick]
    exact (ite_self _).symm
  · rcases mem_cons.mp hx with rfl | hx
    · refine .inr ⟨hinit, ?_⟩
      rw [Threads.Sys.hasStat]
      simp
    · exact .inl hx
  · have hne : s.kernel.current ≠ t := fun he => hcur (he ▸ hinit)
    rw [setThread_of_ne hne]

theorem spends {s s' : Threads.Sys τ ω} (h : s.Good) (hdeletes : deletes a = false)
    (hstep : Threads.Sys.Step s a s') : Spends s a s' := by
  cases a with
  | startup t => exact spends_startup hstep
  | resume t | suspend =>
    rw [Threads.Sys.Step, Threads.Sys.exec] at hstep
    split_ifs at hstep
    all_goals
      cases hstep
      exact .of_framed (fun _ => rfl) (.refl _) rfl (fun _ => rfl) fun _ _ => rfl
  | detach t => cases hdeletes
  | go c => exact spends_go hdeletes hstep
  | exit =>
    cases hstep
    exact .of_framed (fun _ => rfl) (Framed.refl _).threadExit rfl (fun _ => rfl)
      fun hw => absurd hw.symm Bool.false_ne_true
  | yield => exact spends_yield h hstep
  | sleep =>
    cases hstep
    refine .of_framed (fun _ => rfl) (Framed.refl _).rtThreadSleep rfl (fun _ => ?_)
      fun hw => absurd hw.symm Bool.false_ne_true
    exact (current_eq (k := s.kernel.setThread s.kernel.current fun x => { x with error := .eok })
      s.kernel.current 0).2.2.2.1
  | changePriority t priority =>
    rw [Threads.Sys.Step, Threads.Sys.exec] at hstep
    split_ifs at hstep
    cases hstep
    refine .of_framed (fun _ => rfl) ((Framed.refl _).changePriority priority) rfl
      (fun _ => changePriority_current _ _ _) fun _ _ => ?_
    unfold changePriority
    dsimp only
    split_ifs
    · exact (yield_insert).trans (yield_setThread fun _ => rfl)
    · exact yield_setThread fun _ => rfl
  | timeout t =>
    rw [Threads.Sys.Step, Threads.Sys.exec] at hstep
    split_ifs at hstep
    obtain ⟨k, hk, rfl⟩ := map_eq_some_iff.mp hstep
    refine .of_framed (fun _ => rfl) (Framed.threadTimeout hk) rfl
      (fun _ => (current_eq t 0).2.2.2.2.2.2 k hk) fun _ _ => ?_
    unfold threadTimeout at hk
    split_ifs at hk
    cases hk
    rw [yield_insert, tlistRemove_thread]
    exact yield_setThread fun _ => rfl
  | schedule => exact spends_schedule h hstep
  | tick => exact spends_tick hstep
  | enterCritical | exitCritical =>
    cases hstep
    exact .of_framed (fun _ => rfl) (.refl _) rfl (fun _ => rfl)
      fun hw => absurd hw.symm Bool.false_ne_true

/-- The charges, while every started thread has a slice. -/
structure Kept (s : Sys τ ω) : Prop where
  within : ∀ t ∈ s.started, 1 ≤ (s.kernel.thread t).remainingTick ∧
    (s.kernel.thread t).remainingTick ≤ (s.kernel.thread t).initTick
  /-- What is charged and what is left are no more than the slice. -/
  running : s.due = false → s.charged + (s.kernel.thread s.kernel.current).remainingTick ≤
    (s.kernel.thread s.kernel.current).initTick
  due : s.due = true → s.charged ≤ (s.kernel.thread s.kernel.current).initTick ∧
    (s.kernel.thread s.kernel.current).yield = true

theorem Initial.good (h : s.Initial) : s.Good := by
  have hslice : ∀ t, (s.kernel.thread t).initTick < 2 ^ 32 ∧
      (s.kernel.thread t).remainingTick = (s.kernel.thread t).initTick := by
    intro t
    obtain ⟨priority, tick, x, htick, hx, heq⟩ := h.init t
    unfold threadInit at hx
    split_ifs at hx
    cases hx
    rw [heq]
    split_ifs
    · exact ⟨htick, rfl⟩
    · exact ⟨htick, rfl⟩
  refine ⟨h.threads.good, fun t => (hslice t).1, fun t _ => (hslice t).2, fun t ht hinit => ?_⟩
  rw [h.threads.started, mem_singleton] at ht
  have hrun := h.threads.current
  rw [ht] at hinit
  cases hrun.symm.trans hinit

theorem Good.step (h : s.Good) (hstep : Step s a s') : s'.Good := by
  obtain ⟨-, hdeletes, threads, ht, rfl⟩ := threads_step hstep
  have hs := spends h.threads hdeletes ht
  refine ⟨h.threads.step (careful_of_deletes hdeletes) ht, fun t => ?_, fun t hinit => ?_,
    fun t hstarted => ?_⟩
  · exact hs.initTick t ▸ h.word t
  · have hold : s.hasStat t .init := not_not.mp fun hn => hs.live t hn hinit
    have hne : t ≠ s.kernel.current := by
      rintro rfl
      exact h.live _ h.threads.current hold
    dsimp only [account]
    rw [hs.remainingTick, hs.initTick, if_neg hne]
    exact h.fresh t hold
  · rcases hs.started t hstarted with hold | ⟨-, hnew⟩
    · exact hs.live t (h.live t hold)
    · exact hnew

omit [DecidableEq τ] in
/-- A slice that is spent stays within its bounds. -/
theorem left_within {x : RtThread} (hword : x.initTick < 2 ^ 32)
    (h : 1 ≤ x.remainingTick ∧ x.remainingTick ≤ x.initTick) :
    1 ≤ left a x ∧ left a x ≤ x.initTick := by
  obtain ⟨hone, hle⟩ := h
  cases a with
  | tick =>
    have hsub : sub32 x.remainingTick 1 = x.remainingTick - 1 := sub32_eq hone (by omega)
    unfold left
    dsimp only
    split_ifs <;> omega
  | yield => exact ⟨hone.trans hle, le_refl _⟩
  | _ => exact ⟨hone, hle⟩

section

variable (h : s.Good) {k : Kernel τ ω}
include h

theorem within_step (hk : s.Kept) {s' : Threads.Sys τ ω}
    (hs : Spends s.toSys a s') (hone : ∀ t ∈ s'.started, 1 ≤ (s'.kernel.thread t).initTick)
    {t : τ} (ht : t ∈ s'.started) : 1 ≤ (s'.kernel.thread t).remainingTick ∧
      (s'.kernel.thread t).remainingTick ≤ (s'.kernel.thread t).initTick := by
  have hslice := hone t ht
  rw [hs.initTick] at hslice
  rw [hs.remainingTick, hs.initTick]
  rcases hs.started t ht with hold | ⟨hinit, -⟩
  · split_ifs
    · exact left_within (h.word t) (hk.within t hold)
    · exact hk.within t hold
  · have hne : t ≠ s.kernel.current := by
      rintro rfl
      exact h.live _ h.threads.current hinit
    rw [if_neg hne, h.fresh t hinit]
    exact ⟨hslice, le_refl _⟩

/-- Until `rt_schedule` is called, a thread whose slice was used up is to be rotated out. -/
theorem flagged_step (hk : s.Kept) (hstep : Step s a s') :
    s'.due = true → (s'.kernel.thread s'.kernel.current).yield = true := by
  obtain ⟨hwaits, hdeletes, threads, ht, rfl⟩ := threads_step hstep
  have hs := spends h.threads hdeletes ht
  -- a step that does not call `rt_schedule`
  have hidle : a ≠ .schedule → a ≠ .yield → s.due = true →
      (threads.kernel.thread threads.kernel.current).yield = true := by
    intro hns hny hdue
    have hw : waits a = false := Bool.eq_false_iff.mpr fun hw => hwaits ⟨hdue, hw⟩
    rw [hs.current hns hny, hs.yield hw hns (h.live _ h.threads.current)]
    exact (hk.due hdue).2
  cases a with
  | schedule | yield => exact nofun
  | tick =>
    cases ht
    intro hdue
    dsimp only [account] at hdue ⊢
    rw [tickSlice_current, tickSlice_self, hdue]
    exact Bool.or_true _
  | _ => exact hidle (by simp) (by simp)

/-- A call of `rt_schedule` lets no thread run on whose slice was used up. -/
theorem not_due_of_schedule (hk : s.Kept)
    (hstep : s.kernel.rtSchedule = some k) (hsame : k.current = s.kernel.current)
    (hc : Contended k) : s.due = false := by
  rw [Bool.eq_false_iff]
  intro hdue
  have hold := contended_of_schedule h.threads.inv hstep hsame hc
  exact rotated_of_yield h.threads.inv hold (hk.due hdue).2 hstep hsame

/-- `rt_thread_yield` lets no thread run on that could be rotated out. -/
theorem not_yield (hstep : s.kernel.rtThreadYield.rtSchedule = some k)
    (hc : Contended k) : k.current ≠ s.kernel.current := by
  intro hsame
  have hinv := h.threads.inv.rtThreadYield
  refine rotated_of_yield hinv (contended_of_schedule hinv hstep hsame hc) ?_ hstep hsame
  unfold rtThreadYield
  rw [setThread_current, setThread_self]

/-- The account of a thread that runs on while another one of its priority is ready. -/
theorem charged_step (hk : s.Kept) (hstep : Step s a s')
    (hsame : s'.kernel.current = s.kernel.current) (hc : Contended s'.kernel) :
    (s'.due = false → s'.charged + (s'.kernel.thread s'.kernel.current).remainingTick ≤
      (s'.kernel.thread s'.kernel.current).initTick) ∧
    (s'.due = true → s'.charged ≤ (s'.kernel.thread s'.kernel.current).initTick) := by
  obtain ⟨hwaits, hdeletes, threads, ht, rfl⟩ := threads_step hstep
  have hs := spends h.threads hdeletes ht
  have hcur : threads.kernel.current = s.kernel.current := hsame
  have hinit := hs.initTick s.kernel.current
  have hleft := hs.remainingTick s.kernel.current
  rw [if_pos rfl] at hleft
  dsimp only [account]
  rw [hcur, hinit, hleft, if_pos ⟨rfl, hc⟩]
  cases a with
  | schedule =>
    obtain ⟨k, hsched, rfl⟩ := map_eq_some_iff.mp ht
    refine ⟨fun _ => ?_, nofun⟩
    exact hk.running (not_due_of_schedule h hk hsched hsame hc)
  | yield =>
    obtain ⟨k, hsched, rfl⟩ := map_eq_some_iff.mp ht
    exact absurd hsame (not_yield h hsched hc)
  | tick =>
    have hdue : s.due = false := Bool.eq_false_iff.mpr fun hdue => hwaits ⟨hdue, rfl⟩
    obtain ⟨hone, hle⟩ := hk.within _ h.threads.current
    have hsum := hk.running hdue
    have hsub := sub32_eq hone (lt_of_le_of_lt hle (h.word _))
    rw [tickSlice_due]
    unfold left
    dsimp only
    rw [decide_eq_false_iff_not]
    refine ⟨fun hmore => ?_, fun _ => by omega⟩
    rw [if_neg hmore]
    omega
  | detach t => cases hdeletes
  | _ => exact ⟨hk.running, fun hdue => (hk.due hdue).1⟩

/-- A step keeps the charges where every started thread has a slice. -/
theorem Kept.step (hk : s.Kept) (hstep : Step s a s')
    (hone : ∀ t ∈ s'.started, 1 ≤ (s'.kernel.thread t).initTick) : s'.Kept := by
  have hgood := h.step hstep
  have hflag := flagged_step h hk hstep
  have hwithin : ∀ t ∈ s'.started, 1 ≤ (s'.kernel.thread t).remainingTick ∧
      (s'.kernel.thread t).remainingTick ≤ (s'.kernel.thread t).initTick := by
    obtain ⟨-, hdeletes, threads, ht, rfl⟩ := threads_step hstep
    exact fun t => within_step h hk (spends h.threads hdeletes ht) hone
  by_cases hrun : s'.kernel.current = s.kernel.current ∧ Contended s'.kernel
  · obtain ⟨hrunning, hdue⟩ := charged_step h hk hstep hrun.1 hrun.2
    exact ⟨hwithin, hrunning, fun h => ⟨hdue h, hflag h⟩⟩
  · -- nothing is charged
    have hzero : s'.charged = 0 := by
      obtain ⟨-, -, threads, -, rfl⟩ := threads_step hstep
      exact if_neg hrun
    obtain ⟨-, hle⟩ := hwithin _ hgood.threads.current
    exact ⟨hwithin, fun _ => by omega, fun hdue => ⟨by omega, hflag hdue⟩⟩

end

theorem reachable_good (h : Reachable Initial Step s) : s.Good :=
  h.induct (·.good) (·.step)

/-- Slices are never changed, so a slice that every started thread has it had before. -/
theorem reachable_slicesKept (h : Reachable Initial Step s) :
    (∀ t ∈ s.started, 1 ≤ (s.kernel.thread t).initTick) → s.Kept := by
  refine h.invariant (I := fun s => (∀ t ∈ s.started, 1 ≤ (s.kernel.thread t).initTick) → s.Kept)
    (fun s h₀ hone => ?_) fun s a s' hreach ih hstep hone => ?_
  · have hgood := h₀.good
    have hslice : ∀ t, (s.kernel.thread t).remainingTick = (s.kernel.thread t).initTick := by
      intro t
      obtain ⟨priority, tick, x, -, hx, heq⟩ := h₀.init t
      unfold threadInit at hx
      split_ifs at hx
      cases hx
      rw [heq]
      split_ifs <;> rfl
    refine ⟨fun t ht => ?_, fun _ => ?_, fun hdue => ?_⟩
    · rw [hslice]
      exact ⟨hone t ht, le_refl _⟩
    · rw [h₀.charged, hslice, zero_add]
    · rw [h₀.due] at hdue
      cases hdue
  · have hgood := reachable_good hreach
    obtain ⟨-, hdeletes, threads, ht, rfl⟩ := threads_step hstep
    have hs := spends hgood.threads hdeletes ht
    refine Kept.step hgood (ih fun t hold => ?_) hstep hone
    rw [← hs.initTick]
    exact hone t (hs.kept t hold)

/-- In every run the started threads are within their time slices, and a thread that runs on while
another one of its priority is ready is rotated out after at most `init_tick` ticks, exactly when
every started thread has a slice of at least one tick. -/
theorem reachable_sliced : ∀ s : Sys τ ω, Reachable Initial Step s →
    (s.Sliced ↔ ∀ t ∈ s.started, 1 ≤ (s.kernel.thread t).initTick) := by
  intro s hs
  have h := reachable_good hs
  constructor
  · intro hsliced t ht
    obtain ⟨hone, hle⟩ := hsliced.within t ht
    exact hone.trans hle
  · intro hone
    have hk := reachable_slicesKept hs hone
    obtain ⟨hcur, -⟩ := hk.within _ h.threads.current
    refine ⟨hk.within, ?_, ?_, ?_⟩
    · cases hdue : s.due with
      | true => exact (hk.due hdue).1
      | false => exact (Nat.le_add_right _ _).trans (hk.running hdue)
    · intro hlast
      by_contra hdue
      have hsum := hk.running (Bool.eq_false_iff.mpr hdue)
      omega
    · intro hdue hc s' hstep
      obtain ⟨-, -, threads, ht, rfl⟩ := threads_step hstep
      obtain ⟨k, hk', rfl⟩ := Option.map_eq_some_iff.mp ht
      exact rotated_of_yield h.threads.inv hc (hk.due hdue).2 hk'

/-- Thread `0` runs; both threads have priority 10, and time slices of `tick` ticks. -/
def boot (tick : Nat) : Sys (Fin 2) Empty :=
  let x : RtThread := { Threads.Sys.fresh 10 with initTick := tick, remainingTick := tick }
  { kernel :=
      { thread := fun t => if t = 0 then { x with stat := .running, numberMask := bit 10 } else x
        ready := { group := 0, queue := fun _ => [] }
        wait := nofun, defunct := [], current := 0, schedulerLockNest := 0 }
    pending := [], started := [0], due := false, charged := 0 }

theorem boot_initial {tick : Nat} (h : tick < 2 ^ 32) : (boot tick).Initial := by
  have hprio : ∀ t, ((boot tick).kernel.thread t).currentPriority = 10 := by
    intro t
    dsimp only [boot]
    split_ifs <;> rfl
  refine ⟨⟨rfl, fun _ => rfl, fun t => ?_, rfl, rfl, fun t ht => ?_, rfl, rfl⟩, fun t => ?_, rfl,
    rfl⟩
  · rw [hprio]
    decide
  · exact congrArg RtThread.stat (if_neg ht)
  · exact ⟨10, tick, _, h, rfl, rfl⟩

/-- Thread `1` is started, and two ticks pass. -/
def twoTicks : List (Threads.Act (Fin 2)) :=
  [.startup 1, .go (.startup 1), .go (.resume 1), .tick, .tick]

/-- Both ticks of its slice are charged to thread `0`, and it is rotated out. -/
theorem reachable_sliced_two : ∃ s : Sys (Fin 2) Empty,
    s.charged = 2 ∧ s.due = true ∧ s.Sliced := by
  obtain ⟨s, hs, hcharged, hdue, hstarted, hzero, hone⟩ :
      ∃ s ∈ runAll exec (boot 2) twoTicks, s.charged = 2 ∧ s.due = true ∧
      s.started = [1, 0] ∧ (s.kernel.thread 0).initTick = 2 ∧
      (s.kernel.thread 1).initTick = 2 := by decide +kernel
  have hreach := (Reachable.start (boot_initial (by decide))).runAll hs
  refine ⟨s, hcharged, hdue, (reachable_sliced s hreach).mpr fun t ht => ?_⟩
  rw [hstarted] at ht
  rcases List.mem_cons.mp ht with rfl | ht
  · rw [hone]
    decide
  · rw [List.mem_singleton.mp ht, hzero]
    decide

/-- A slice of no ticks: after one tick `2 ^ 32 - 1` are left, and thread `0` is not rotated out. -/
theorem noTicks_unsliced : ∃ s : Sys (Fin 2) Empty, Reachable Initial Step s ∧ ¬ s.Sliced ∧
    (s.kernel.thread 0).initTick = 0 ∧ (s.kernel.thread 0).remainingTick = 2 ^ 32 - 1 ∧
    s.charged = 1 ∧ s.due = false := by
  obtain ⟨s, hs, hcharged, hdue, hstarted, hzero, hleft⟩ :
      ∃ s ∈ runAll exec (boot 0) [.startup 1, .go (.startup 1), .go (.resume 1), .tick],
      s.charged = 1 ∧ s.due = false ∧ s.started = [1, 0] ∧ (s.kernel.thread 0).initTick = 0 ∧
      (s.kernel.thread 0).remainingTick = 2 ^ 32 - 1 := by decide +kernel
  have hreach := (Reachable.start (boot_initial (by decide))).runAll hs
  refine ⟨s, hreach, fun hsliced => ?_, hzero, hleft, hcharged, hdue⟩
  have hle := (hsliced.within 0 (by simp [hstarted])).2
  rw [hzero, hleft] at hle
  omega

end Sys

end RtKernel.TimeSlice

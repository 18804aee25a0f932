import Mathlib.Data.Fin.VecNotation
import RtKernel.Kernel.Threads

/-!
# Turns among threads of one priority

A thread that a more urgent one displaces in the middle of its time slice keeps the
rest of the slice, and should keep its turn. The scheduler puts it at the end of its
queue all the same, so it keeps the turn only where nobody of its priority waits.
-/

open List
open Option

namespace RtKernel.RoundRobin

open Kernel

variable {τ ω : Type*}

/-- The runs of `Threads`, and the threads that were displaced and have not run since. -/
structure Sys (τ ω : Type*) extends Threads.Sys τ ω where
  turns : List τ

/-- `rt_schedule` has displaced the running thread before the end of its time slice. -/
def Displaced (k k' : Kernel τ ω) : Prop :=
  k'.current ≠ k.current ∧ (k.thread k.current).stat = .running ∧
    (k.thread k.current).yield = false ∧
    (k'.thread k'.current).currentPriority < (k.thread k.current).currentPriority

/-- `rt_schedule` is about to do so. -/
def Displaces (k : Kernel τ ω) : Prop :=
  k.schedulerLockNest = 0 ∧ k.ready.group ≠ 0 ∧ (k.thread k.current).stat = .running ∧
    (k.thread k.current).yield = false ∧
    rtFfs k.ready.group - 1 < (k.thread k.current).currentPriority

instance (k : Kernel τ ω) : Decidable (Displaces k) := inferInstanceAs (Decidable (_ ∧ _))

variable [DecidableEq τ]

instance (k k' : Kernel τ ω) : Decidable (Displaced k k') := inferInstanceAs (Decidable (_ ∧ _))

namespace Sys

/-- A call of `rt_schedule`; who runs has its turn. -/
def reschedule (s : Sys τ ω) (k : Kernel τ ω) : Option (Sys τ ω) :=
  k.rtSchedule.map fun k' =>
    let turns := if Displaced k k' then k.current :: s.turns else s.turns
    { s with kernel := k', turns := turns.filter (· ≠ k'.current) }

/-- A step, without the deletion of threads. A thread of another priority has another turn. -/
def exec (s : Sys τ ω) : Threads.Act τ → Option (Sys τ ω)
  | .schedule => s.reschedule s.kernel
  | .yield => s.reschedule s.kernel.rtThreadYield
  | .detach _ | .go (.detach _) => none
  | .changePriority t priority =>
      (s.toSys.exec (.changePriority t priority)).map fun threads =>
        { toSys := threads, turns := s.turns.filter (· ≠ t) }
  | a => (s.toSys.exec a).map fun threads => { toSys := threads, turns := s.turns }

def Step (s : Sys τ ω) (a : Threads.Act τ) (s' : Sys τ ω) : Prop := s.exec a = some s'

def Initial (s : Sys τ ω) : Prop := s.toSys.Initial ∧ s.turns = []

/-- A displaced thread is the first of its queue. -/
def Kept (s : Sys τ ω) : Prop :=
  ∀ t ∈ s.turns, (s.kernel.ready.queue (s.kernel.thread t).currentPriority).head? = some t

/-- Nobody of its priority waits when a thread is displaced, or is resumed by a call that found it
suspended before it was displaced. -/
def Careful (s : Sys τ ω) : Threads.Act τ → Prop
  | .schedule => Displaces s.kernel →
      s.kernel.ready.queue (s.kernel.thread s.kernel.current).currentPriority = []
  | .go (.resume t) => t ∈ s.turns →
      s.kernel.ready.queue (s.kernel.thread t).currentPriority = [t]
  | _ => True

instance (s : Sys τ ω) : DecidablePred s.Careful := fun a =>
  match a with
  | .schedule => inferInstanceAs (Decidable (_ → _))
  | .go (.resume _) => inferInstanceAs (Decidable (_ → _))
  | .go (.startup _) | .go (.suspend _) | .go (.detach _) | .startup _ | .resume _ | .suspend
  | .detach _ | .exit | .yield | .sleep | .changePriority _ _ | .timeout _ | .tick
  | .enterCritical | .exitCritical => inferInstanceAs (Decidable True)

/-- The invariant of careful runs. -/
structure Good (s : Sys τ ω) : Prop where
  threads : s.toSys.Good
  kept : s.Kept

end Sys

section

variable (k : Kernel τ ω) (t : τ)

theorem remove_queue (p : Nat) :
    (k.rtScheduleRemoveThread t).ready.queue p = rtListRemove (k.ready.queue p) t := by
  unfold rtScheduleRemoveThread
  rw [ReadyTable.clear_queue]
  rfl

theorem insert_queue (p : Nat) : (k.rtScheduleInsertThread t).ready.queue p =
      k.ready.queue p ++ if t ≠ k.current ∧ p = (k.thread t).currentPriority then [t] else [] := by
  unfold rtScheduleInsertThread
  by_cases hc : t = k.current
  · rw [if_pos hc, if_neg fun h => h.1 hc, append_nil]
    rfl
  · rw [if_neg hc]
    simp only [setThread_self, setThread_ready, ReadyTable.insert]
    by_cases hp : p = (k.thread t).currentPriority
    · rw [if_pos ⟨hc, hp⟩, hp, Function.update_self]
    · rw [if_neg fun h => hp h.2, Function.update_of_ne hp, append_nil]

theorem switchTo_queue (b : Bool) (p : Nat) (ht : k.current ≠ t) : (k.switchTo t b).ready.queue p =
      rtListRemove (k.ready.queue p ++
        if b = true ∧ p = (k.thread k.current).currentPriority then [k.current] else []) t := by
  unfold Kernel.switchTo
  rw [setThread_ready, remove_queue]
  cases b with
  | false => simp
  | true => simp [insert_queue, ht]

end

variable {t x : τ} {l : List τ}

theorem head_remove (h : l.head? = some t) (hx : t ≠ x) :
    (rtListRemove l x).head? = some t := by
  obtain ⟨rest, rfl⟩ := List.head?_eq_some_iff.mp h
  unfold rtListRemove
  rw [filter_cons_of_pos (by simpa using hx), List.head?_cons]

omit [DecidableEq τ] in
theorem head_append {t : τ} (h : l.head? = some t) (l' : List τ) :
    (l ++ l').head? = some t := by
  obtain ⟨rest, rfl⟩ := List.head?_eq_some_iff.mp h
  rw [cons_append, List.head?_cons]

/-- What `rt_schedule` does to the queues: nothing, or it takes the first thread of the most urgent
one and puts the running thread at the end of its own. -/
theorem rtSchedule_queue {k k' : Kernel τ ω} {started : τ → Prop} (h : k.Inv started)
    (hk : k.rtSchedule = some k') :
    (∀ t, (k'.thread t).currentPriority = (k.thread t).currentPriority) ∧
    ((k'.current = k.current ∧ ¬ Displaces k ∧ ∀ p, k'.ready.queue p = k.ready.queue p) ∨
      ∃ head rest, k'.current = head ∧ head ≠ k.current ∧
        k.ready.queue (k.thread head).currentPriority = head :: rest ∧
        (Displaces k ↔ (k.thread k.current).stat = .running ∧
          (k.thread k.current).yield = false) ∧
        (Displaces k → (k.thread head).currentPriority < (k.thread k.current).currentPriority) ∧
        ∀ p, k'.ready.queue p = rtListRemove (k.ready.queue p ++
          if (k.thread k.current).stat = .running ∧ p = (k.thread k.current).currentPriority
            then [k.current] else []) head) := by
  have hclear : ∀ t, ((k.setThread k.current fun x => { x with yield := false }).thread
      t).currentPriority = (k.thread t).currentPriority := by
    intro t
    by_cases ht : t = k.current
    · rw [ht, setThread_self]
    · rw [setThread_of_ne ht]
  unfold Kernel.rtSchedule at hk
  by_cases hopen : k.schedulerLockNest = 0 ∧ k.ready.group ≠ 0
  · rw [if_pos hopen] at hk
    obtain ⟨p, head, rest, hffs, -, hqueue, hkey, -⟩ := h.queues.holds.lowest hopen.2
    obtain ⟨hready, hprio⟩ := key_eq_some hkey
    have hne : head ≠ k.current := fun he => h.current (he ▸ hready)
    have hqueue' : k.ready.queue (k.thread head).currentPriority = head :: rest := hprio ▸ hqueue
    have hless : Displaces k → (k.thread head).currentPriority <
        (k.thread k.current).currentPriority := by
      intro hd
      have hless := hd.2.2.2.2
      rwa [hffs, Nat.add_sub_cancel, ← hprio] at hless
    simp only [hffs, Nat.add_sub_cancel, hqueue] at hk
    by_cases hrun : (k.thread k.current).stat = .running
    · by_cases hstay : (k.thread k.current).currentPriority < p ∨
          (k.thread k.current).currentPriority = p ∧ (k.thread k.current).yield = false
      · -- the current thread is in no queue
        have hnot : ∀ q, k.current ∉ k.ready.queue q := by
          intro q hq
          exact h.current (key_eq_some ((h.queues.holds.mem q _).mp hq)).1
        simp only [hrun, decide_true, hstay, and_self, if_true, setThread_current, remove_current,
          ne_eq, not_true_eq_false, if_false] at hk
        cases hk
        refine ⟨fun t => ?_, .inl ⟨rfl, fun hd => ?_, fun q => ?_⟩⟩
        · by_cases ht : t = k.current
          · rw [ht, setThread_self]
            exact hclear k.current
          · rw [setThread_of_ne ht]
            exact hclear t
        · have hless := hd.2.2.2.2
          omega
        · rw [setThread_ready, remove_queue, setThread_ready, rtListRemove_of_notMem (hnot q)]
      · simp only [hrun, decide_true, hstay, and_false, decide_false, Bool.false_eq_true, if_false,
          if_true, setThread_current, ne_eq, hne, not_false_eq_true] at hk
        cases hk
        refine ⟨fun t => (switchTo_priority).trans (hclear t), .inr ⟨head, rest,
          switchTo_current, hne, hqueue', ⟨fun hd => ⟨hd.2.2.1, hd.2.2.2.1⟩, fun hy => ?_⟩,
          hless, fun q => ?_⟩⟩
        · refine ⟨hopen.1, hopen.2, hrun, hy.2, ?_⟩
          simp only [hy.2, and_true] at hstay
          omega
        · rw [switchTo_queue, setThread_ready, setThread_current, hclear]
          · simp only [hrun, true_and]
          · exact hne.symm
    · simp only [hrun, decide_false, Bool.false_eq_true, false_and, if_false, ne_eq, hne,
        not_false_eq_true, if_true] at hk
      cases hk
      refine ⟨fun t => switchTo_priority, .inr ⟨head, rest,
        switchTo_current, hne, hqueue', ⟨fun hd => ⟨hd.2.2.1, hd.2.2.2.1⟩,
          fun hy => absurd hy.1 hrun⟩, hless, fun q => ?_⟩⟩
      rw [switchTo_queue _ _ _ _ hne.symm]
      simp only [hrun, Bool.false_eq_true, false_and, if_false]
  · rw [if_neg hopen] at hk
    cases hk
    exact ⟨fun _ => rfl, .inl ⟨rfl, fun hd => hopen ⟨hd.1, hd.2.1⟩, fun _ => rfl⟩⟩

namespace Sys

variable {s s' : Sys τ ω}

section

omit [DecidableEq τ]

theorem Good.ready (h : s.Good) {t : τ} (ht : t ∈ s.turns) : (s.kernel.thread t).stat = .ready :=
  (key_eq_some ((h.threads.inv.queues.holds.mem _ _).mp
    (mem_of_mem_head? (h.kept t ht)))).1

theorem Good.ne_of_stat (h : s.Good) (ht : t ∈ s.turns)
    (hx : (s.kernel.thread x).stat ≠ .ready) : t ≠ x := by
  rintro rfl
  exact hx (h.ready ht)

theorem Good.ne_current (h : s.Good) {t : τ} (ht : t ∈ s.turns) : t ≠ s.kernel.current :=
  h.ne_of_stat ht h.threads.inv.current

end

variable {k : Kernel τ ω}

section

variable (h : (k.ready.queue (k.thread t).currentPriority).head? = some t)
include h

/-- What a displaced thread keeps when the threads are touched but not moved. -/
theorem kept_setThread {f : RtThread → RtThread}

    (hf : t = x → (f (k.thread x)).currentPriority = (k.thread x).currentPriority) :
    ((k.setThread x f).ready.queue ((k.setThread x f).thread t).currentPriority).head? =
      some t := by
  by_cases ht : t = x
  · subst ht
    rw [setThread_self, hf rfl]
    exact h
  · rw [setThread_of_ne ht]
    exact h

theorem kept_tlistRemove (hx : t ≠ x) :
    ((k.tlistRemove x).ready.queue ((k.tlistRemove x).thread t).currentPriority).head? =
      some t := by
  exact head_remove h hx

theorem kept_remove (hx : t ≠ x) : ((k.rtScheduleRemoveThread x).ready.queue
      ((k.rtScheduleRemoveThread x).thread t).currentPriority).head? = some t := by
  rw [remove_queue]
  exact head_remove h hx

theorem kept_insert (hx : t ≠ x) : ((k.rtScheduleInsertThread x).ready.queue
      ((k.rtScheduleInsertThread x).thread t).currentPriority).head? = some t := by
  rw [insert_queue, insert_of_ne hx]
  exact head_append h _

theorem kept_resume (hx : t ≠ x) :
    ((k.resume x).ready.queue ((k.resume x).thread t).currentPriority).head? = some t :=
  kept_insert (kept_setThread (f := fun y => { y with timer := false })
    (kept_tlistRemove h hx) fun _ => rfl) hx

end

/-- The queue of a thread after it was resumed while it was ready. -/
theorem resume_queue {x : τ} (hc : x ≠ k.current) :
    (k.resume x).ready.queue ((k.resume x).thread x).currentPriority =
      rtListRemove (k.ready.queue (k.thread x).currentPriority) x ++ [x] := by
  unfold Kernel.resume
  rw [insert_queue, insert_self]
  rw [setThread_self]
  exact congrArg _ (if_pos ⟨hc, rfl⟩)

/-- A call of `rt_schedule` keeps the turns exactly when it displaces no thread for which others of
its priority wait. -/
theorem kept_reschedule (hinv : k.Inv (· ∈ s.started))
    (hkept : ∀ t ∈ s.turns, (k.ready.queue (k.thread t).currentPriority).head? = some t)
    (hs : s.reschedule k = some s') :
    s'.Kept ↔ (Displaces k → k.ready.queue (k.thread k.current).currentPriority = []) := by
  obtain ⟨k', hk', rfl⟩ := map_eq_some_iff.mp hs
  obtain ⟨hprio, hsame | ⟨head, rest, hcurrent, hne, hqueue, hdisp, hless, hq⟩⟩ :=
    rtSchedule_queue hinv hk'
  · obtain ⟨hcurrent, hno, hq⟩ := hsame
    refine iff_of_true (fun t ht => ?_) fun hd => absurd hd hno
    have hnot : ¬ Displaced k k' := fun hd => hd.1 hcurrent
    rw [if_neg hnot] at ht
    rw [hprio, hq]
    exact hkept t (mem_filter.mp ht).1
  · -- a thread of the old turns that is not chosen keeps its turn
    have hold : ∀ t ∈ s.turns, t ≠ head →
        (k'.ready.queue (k'.thread t).currentPriority).head? = some t := by
      intro t ht hth
      rw [hprio, hq]
      exact head_remove (head_append (hkept t ht) _) hth
    have hdisplaced : Displaced k k' ↔ Displaces k := by
      rw [hdisp]
      constructor
      · exact fun hd => ⟨hd.2.1, hd.2.2.1⟩
      · intro hd
        refine ⟨hcurrent ▸ hne, hd.1, hd.2, ?_⟩
        rw [hprio, hcurrent]
        exact hless (hdisp.mpr hd)
    by_cases hd : Displaces k
    · have hrun := (hdisp.mp hd).1
      have hqueue' : k'.ready.queue (k'.thread k.current).currentPriority =
          k.ready.queue (k.thread k.current).currentPriority ++ [k.current] := by
        rw [hprio, hq, if_pos ⟨hrun, rfl⟩]
        apply rtListRemove_of_notMem
        intro hmem
        rcases mem_append.mp hmem with hmem | hmem
        · have hkey := key_eq_some ((hinv.queues.holds.mem _ _).mp hmem)
          have := hless hd
          omega
        · exact hne (mem_singleton.mp hmem)
      rw [if_pos (hdisplaced.mpr hd), hcurrent]
      constructor
      · intro hkept' _
        have hmem : k.current ∈ (k.current :: s.turns).filter (· ≠ head) :=
          mem_filter.mpr ⟨.head _, by simpa using hne.symm⟩
        have hhead := hkept' k.current hmem
        rw [hqueue'] at hhead
        cases hold' : k.ready.queue (k.thread k.current).currentPriority with
        | nil => rfl
        | cons first others =>
          -- the current thread is in no queue
          rw [hold'] at hhead
          have hfirst : k.current ∈ k.ready.queue (k.thread k.current).currentPriority :=
            hold' ▸ some.inj hhead ▸ mem_cons_self
          exact absurd (key_eq_some ((hinv.queues.holds.mem _ _).mp hfirst)).1 hinv.current
      · intro hempty t ht
        obtain ⟨ht, hth⟩ := mem_filter.mp ht
        rcases mem_cons.mp ht with rfl | ht
        · dsimp only
          rw [hqueue', hempty hd]
          rfl
        · exact hold t ht (by simpa using hth)
    · rw [if_neg fun h => hd (hdisplaced.mp h), hcurrent]
      refine iff_of_true (fun t ht => ?_) fun hd' => absurd hd' hd
      obtain ⟨ht, hth⟩ := mem_filter.mp ht
      exact hold t ht (by simpa using hth)

/-- A ready thread that is resumed goes to the end of its queue. -/
theorem Good.kept_resume_iff (h : s.Good) (x : τ) {pending : List (Threads.Call τ)} :
    Kept { s with kernel := s.kernel.resume x, pending := pending } ↔
      (x ∈ s.turns → s.kernel.ready.queue (s.kernel.thread x).currentPriority = [x]) := by
  by_cases hx : x ∈ s.turns
  · have hqueue := resume_queue (h.ne_current hx)
    obtain ⟨rest, hold⟩ := List.head?_eq_some_iff.mp (h.kept x hx)
    have hnodup := h.threads.inv.queues.holds.nodup (s.kernel.thread x).currentPriority
    rw [hold] at hnodup hqueue
    obtain ⟨hnot, -⟩ := nodup_cons.mp hnodup
    rw [rtListRemove_cons_self hnot] at hqueue
    constructor
    · intro hkept _
      have hhead := hkept x hx
      rw [hqueue] at hhead
      cases rest with
      | nil => exact hold
      | cons first others =>
        exact absurd (some.inj hhead ▸ mem_cons_self) hnot
    · intro hone t ht
      by_cases htx : t = x
      · subst htx
        have hrest : rest = [] := by
          exact (List.cons.inj (hold.symm.trans (hone hx))).2
        rw [hqueue, hrest]
        rfl
      · exact kept_resume (h.kept t ht) htx
  · refine iff_of_true (fun t ht => ?_) fun hmem => absurd hmem hx
    exact kept_resume (h.kept t ht) fun he => hx (he ▸ ht)

variable {a : Threads.Act τ}

/-- A step is one of the threads, and deletes none. -/
theorem threads_step (hstep : Step s a s') :
    Threads.Sys.Step s.toSys a s'.toSys ∧ s.toSys.Careful a := by
  have hschedule : ∀ {k : Kernel τ ω}, s.reschedule k = some s' →
      k.rtSchedule.map (fun k' => { s.toSys with kernel := k' }) = some s'.toSys := by
    intro k hs
    obtain ⟨k', hk', rfl⟩ := map_eq_some_iff.mp hs
    rw [hk', map_some]
  cases a with
  | schedule | yield => exact ⟨hschedule hstep, trivial⟩
  | go c =>
    cases c with
    | detach t => cases hstep
    | _ =>
      obtain ⟨threads, ht, rfl⟩ := map_eq_some_iff.mp hstep
      exact ⟨ht, trivial⟩
  | detach t => cases hstep
  | exit | sleep | tick | enterCritical | exitCritical =>
    cases hstep
    exact ⟨rfl, trivial⟩
  | _ =>
    obtain ⟨threads, ht, rfl⟩ := map_eq_some_iff.mp hstep
    exact ⟨ht, trivial⟩

/-- The second half of a call, which only puts a resumed thread behind others. -/
theorem Good.go_kept {c : Threads.Call τ} (h : s.Good) (hstep : Step s (.go c) s') :
    s'.Kept ↔ s.Careful (.go c) := by
  cases c with
  | detach x => cases hstep
  | startup x =>
    obtain ⟨threads, ht, rfl⟩ := map_eq_some_iff.mp hstep
    rw [Threads.Sys.exec] at ht
    split_ifs at ht
    dsimp only at ht
    split_ifs at ht
    all_goals
      cases ht
      exact iff_of_true h.kept trivial
  | suspend x =>
    obtain ⟨threads, ht, rfl⟩ := map_eq_some_iff.mp hstep
    rw [Threads.Sys.exec] at ht
    split_ifs at ht
    dsimp only at ht
    split_ifs at ht
    cases ht
    exact iff_of_true (fun t ht => kept_setThread (f := fun x =>
      { x with stat := .suspend, timer := false })
      (kept_remove (h.kept t ht) (h.ne_current ht)) fun _ => rfl) trivial
  | resume x =>
    obtain ⟨threads, ht, rfl⟩ := map_eq_some_iff.mp hstep
    rw [Threads.Sys.exec] at ht
    split_ifs at ht
    cases ht
    exact h.kept_resume_iff x

/-- A thread keeps its turn exactly in a careful step. -/
theorem Good.step_kept (h : s.Good) (hstep : Step s a s') : s'.Kept ↔ s.Careful a := by
  have hinv := h.threads.inv
  cases a with
  | startup x =>
    obtain ⟨threads, ht, rfl⟩ := map_eq_some_iff.mp hstep
    obtain ⟨k, hk, rfl⟩ := map_eq_some_iff.mp ht
    unfold rtThreadStartup at hk
    split_ifs at hk
    cases hk
    exact iff_of_true (fun t ht => kept_setThread (f := fun x =>
      { x with numberMask := bit x.currentPriority, stat := .suspend, yield := false })
      (h.kept t ht) fun _ => rfl) trivial
  | resume x | suspend =>
    obtain ⟨threads, ht, rfl⟩ := map_eq_some_iff.mp hstep
    rw [Threads.Sys.exec] at ht
    split_ifs at ht
    all_goals
      cases ht
      exact iff_of_true h.kept trivial
  | detach x => cases hstep
  | go c => exact h.go_kept hstep
  | exit =>
    cases hstep
    exact iff_of_true (fun t ht => kept_setThread (f := fun x =>
      { x with timer := false, stat := .close, yield := false })
      (kept_remove (h.kept t ht) (h.ne_current ht)) fun _ => rfl) trivial
  | yield =>
    refine iff_of_true ((kept_reschedule hinv.rtThreadYield (fun t ht => ?_) hstep).mpr
      fun hd => ?_) trivial
    · exact kept_setThread (h.kept t ht) fun _ => rfl
    · have hyield := hd.2.2.2.1
      unfold rtThreadYield at hyield
      rw [setThread_current, setThread_self] at hyield
      cases hyield
  | sleep =>
    cases hstep
    refine iff_of_true (fun t ht => ?_) trivial
    have herror := kept_setThread (x := s.kernel.current) (f := fun x => { x with error := .eok })
      (h.kept t ht) fun _ => rfl
    refine kept_setThread (f := fun x => { x with timer := true }) ?_ fun _ => rfl
    unfold rtThreadSuspend
    split_ifs
    · exact kept_setThread (f := fun x => { x with stat := .suspend, timer := false })
        (kept_remove herror (h.ne_current ht)) fun _ => rfl
    · exact herror
  | changePriority x priority =>
    obtain ⟨threads, ht, rfl⟩ := map_eq_some_iff.mp hstep
    rw [Threads.Sys.exec] at ht
    split_ifs at ht
    cases ht
    refine iff_of_true (fun t ht => ?_) trivial
    obtain ⟨ht, hne⟩ := mem_filter.mp ht
    have hx : t ≠ x := by simpa using hne
    unfold Kernel.changePriority
    split_ifs
    · exact kept_insert (kept_setThread (kept_remove (h.kept t ht) hx) fun he => absurd he hx) hx
    · exact kept_setThread (h.kept t ht) fun he => absurd he hx
  | timeout x =>
    obtain ⟨threads, ht, rfl⟩ := map_eq_some_iff.mp hstep
    rw [Threads.Sys.exec] at ht
    split_ifs at ht
    obtain ⟨k, hk, rfl⟩ := map_eq_some_iff.mp ht
    unfold threadTimeout at hk
    split_ifs at hk with hsuspend
    cases hk
    refine iff_of_true (fun t ht => ?_) trivial
    have hx := h.ne_of_stat ht (x := x) (by simp [hsuspend])
    exact kept_insert (kept_tlistRemove (kept_setThread (f := fun x =>
      { x with timer := false, error := .etimeout }) (h.kept t ht) fun _ => rfl) hx) hx
  | schedule => exact kept_reschedule hinv h.kept hstep
  | tick =>
    cases hstep
    refine iff_of_true (fun t ht => ?_) trivial
    have htick := kept_setThread (x := s.kernel.current)
      (f := fun x => { x with remainingTick := sub32 x.remainingTick 1 }) (h.kept t ht) fun _ => rfl
    unfold tickSlice
    dsimp only
    split_ifs
    · exact kept_setThread htick fun _ => rfl
    · exact htick
  | enterCritical | exitCritical =>
    cases hstep
    exact iff_of_true h.kept trivial

/-- A call of `rt_schedule` passes over no thread that has its turn. -/
theorem first_of_reschedule (hinv : k.Inv (· ∈ s.started))
    (hkept : ∀ t ∈ s.turns, (k.ready.queue (k.thread t).currentPriority).head? = some t)
    (hs : s.reschedule k = some s') (hne : s'.kernel.current ≠ k.current) :
    ∀ t ∈ s.turns, (k.thread t).currentPriority = (k.thread s'.kernel.current).currentPriority →
      t = s'.kernel.current := by
  obtain ⟨k', hk', rfl⟩ := map_eq_some_iff.mp hs
  intro t ht hprio
  obtain ⟨-, ⟨hcurrent, -⟩ | ⟨head, rest, hcurrent, -, hqueue, -⟩⟩ := rtSchedule_queue hinv hk'
  · exact absurd hcurrent hne
  · have hhead := hkept t ht
    rw [hprio, hcurrent, hqueue] at hhead
    exact (hcurrent.trans (some.inj hhead)).symm

/-- A step that makes another thread run. -/
def Switches (s : Sys τ ω) (a : Threads.Act τ) (s' : Sys τ ω) : Prop :=
  (a = .schedule ∨ a = .yield) ∧ Step s a s' ∧ s'.kernel.current ≠ s.kernel.current

/-- Whoever is made to run is displaced, of another priority, or the first whose turn it is. -/
theorem Good.first (h : s.Good) (hs : s.Switches a s') :
    ∀ t ∈ s.turns, (s.kernel.thread t).currentPriority =
      (s.kernel.thread s'.kernel.current).currentPriority → t = s'.kernel.current := by
  obtain ⟨rfl | rfl, hstep, hne⟩ := hs
  · exact first_of_reschedule h.threads.inv h.kept hstep hne
  · have hprio : ∀ t, (s.kernel.rtThreadYield.thread t).currentPriority =
        (s.kernel.thread t).currentPriority := by
      intro t
      unfold rtThreadYield
      by_cases ht : t = s.kernel.current
      · rw [ht, setThread_self]
      · rw [setThread_of_ne ht]
    intro t ht heq
    refine first_of_reschedule h.threads.inv.rtThreadYield
      (fun x hx => kept_setThread (h.kept x hx) fun _ => rfl) hstep hne t ht ?_
    rw [hprio, hprio]
    exact heq

/-- A running thread that is switched out without having yielded or used up its slice has a turn. -/
theorem Good.displaced (h : s.Good) (hs : s.Switches .schedule s')
    (hrun : s.toSys.hasStat s.kernel.current .running)
    (hyield : (s.kernel.thread s.kernel.current).yield = false) : s.kernel.current ∈ s'.turns := by
  obtain ⟨-, hstep, hne⟩ := hs
  obtain ⟨k', hk', rfl⟩ := map_eq_some_iff.mp hstep
  obtain ⟨hprio, ⟨hcurrent, -⟩ | ⟨head, rest, hcurrent, -, -, hdisp, hless, -⟩⟩ :=
    rtSchedule_queue h.threads.inv hk'
  · exact absurd hcurrent hne
  · have hdisplaced : Displaced s.kernel k' := by
      refine ⟨hne, hrun, hyield, ?_⟩
      rw [hprio, hcurrent]
      exact hless (hdisp.mpr ⟨hrun, hyield⟩)
    rw [if_pos hdisplaced]
    exact mem_filter.mpr ⟨.head _, by simpa using hne.symm⟩

omit [DecidableEq τ] in
theorem Initial.good (h : s.Initial) : s.Good := by
  refine ⟨h.1.good, fun t ht => ?_⟩
  rw [h.2] at ht
  cases ht

theorem Good.step (h : s.Good) (hcare : s.Careful a) (hstep : Step s a s') : s'.Good := by
  obtain ⟨hbase, hbase'⟩ := threads_step hstep
  exact ⟨h.threads.step hbase' hbase, (h.step_kept hstep).mpr hcare⟩

theorem reachable_good (h : Reachable Initial (Within Step Careful) s) : s.Good :=
  h.inductWithin (·.good) (·.step)

/-- In careful runs a thread that is displaced before its slice ends has its turn and is the first
of its queue until it runs again, before any other of its priority; and any further step leaves it
there exactly when it is careful. -/
theorem reachable_turns : ∀ s : Sys τ ω, Reachable Initial (Within Step Careful) s →
    s.Kept ∧
    (∀ s', s.Switches .schedule s' → s.toSys.hasStat s.kernel.current .running →
      (s.kernel.thread s.kernel.current).yield = false → s.kernel.current ∈ s'.turns) ∧
    (∀ a s', s.Switches a s' → ∀ t ∈ s.turns, (s.kernel.thread t).currentPriority =
      (s.kernel.thread s'.kernel.current).currentPriority → t = s'.kernel.current) ∧
    ∀ a s', Step s a s' → (s'.Kept ↔ s.Careful a) := by
  intro s hs
  have h := reachable_good hs
  exact ⟨h.kept, fun s' hswitch hrun hyield => h.displaced hswitch hrun hyield,
    fun a s' hswitch => h.first hswitch, fun a s' hstep => h.step_kept hstep⟩

/-- Thread `0` runs at priority 10; threads `1` and `2` have priority 20. -/
def boot : Sys (Fin 3) Empty :=
  { kernel := { Threads.Sys.boot.kernel with
      thread := fun
        | 0 => { Threads.Sys.fresh 10 with stat := .running, numberMask := bit 10 }
        | 1 => Threads.Sys.fresh 20
        | 2 => Threads.Sys.fresh 20 }
    pending := [], started := [0], turns := [] }

theorem boot_initial : boot.Initial := by
  refine ⟨⟨rfl, fun _ => rfl, fun t => ?_, rfl, rfl, fun t => ?_, rfl, rfl⟩, rfl⟩
  · revert t
    decide
  · revert t
    decide

/-- A thread is started and made ready. -/
def startup (t : Fin 3) : List (Threads.Act (Fin 3)) :=
  [.startup t, .go (.startup t), .go (.resume t)]

/-- Thread `0` displaces thread `1`, and then thread `2` becomes ready. -/
def displacedAlone : List (Threads.Act (Fin 3)) :=
  startup 1 ++ ([.sleep, .schedule, .timeout 0, .schedule] : List (Threads.Act (Fin 3))) ++
    startup 2 ++ ([.sleep] : List (Threads.Act (Fin 3)))

/-- Thread `1` runs again before thread `2`. -/
theorem reachable_turns_alone : ∃ s s' : Sys (Fin 3) Empty,
    s.kernel.ready.queue 20 = [1, 2] ∧ s.turns = [1] ∧ s.Switches .schedule s' ∧
      s'.kernel.current = 1 := by
  have hrun : ∃ s ∈ runWithin exec Careful boot displacedAlone, s.kernel.ready.queue 20 = [1, 2] ∧
      s.turns = [1] ∧ s.kernel.current = 0 ∧
      ∃ s' ∈ s.exec .schedule, s'.kernel.current = 1 := by decide +kernel
  obtain ⟨s, hreach, hqueue, hturns, hcur, s', hstep, hcur'⟩ := Reachable.of_runWithin boot_initial hrun
  have hswitch : s.Switches .schedule s' := by
    refine ⟨.inl rfl, hstep, ?_⟩
    rw [hcur, hcur']
    decide
  refine ⟨s, s', hqueue, hturns, hswitch, ?_⟩
  have hfirst := (reachable_turns s hreach).2.2.1 .schedule s' hswitch 1
  refine (hfirst (hturns ▸ List.mem_singleton_self _) ?_).symm
  rw [hcur']

/-- Thread `0` displaces thread `1` while thread `2` waits, and sleeps again. -/
def displacedBeforeOther : List (Threads.Act (Fin 3)) :=
  startup 1 ++ startup 2 ++
    ([.sleep, .schedule, .timeout 0, .schedule, .sleep] : List (Threads.Act (Fin 3)))

/-- Thread `1`, displaced in the middle of its slice, loses its turn to thread `2`. -/
theorem displacedBeforeOther_overtaken : ∃ s s' : Sys (Fin 3) Empty,
    Reachable Initial Step s ∧ s.turns = [1] ∧ s.Switches .schedule s' ∧
      s'.kernel.current = 2 ∧
      (s.kernel.thread 2).currentPriority = (s.kernel.thread 1).currentPriority := by
  have hrun : ∃ s ∈ runAll exec boot displacedBeforeOther, s.turns = [1] ∧ s.kernel.current = 0 ∧
      (s.kernel.thread 1).currentPriority = 20 ∧ (s.kernel.thread 2).currentPriority = 20 ∧
      ∃ s' ∈ s.exec .schedule, s'.kernel.current = 2 := by decide +kernel
  obtain ⟨s, hs, hturns, hcur, hprio, hprio', s', hstep, hcur'⟩ := Reachable.of_runAll boot_initial hrun
  refine ⟨s, s', hs, hturns, ⟨.inl rfl, hstep, ?_⟩, hcur',
    hprio'.trans hprio.symm⟩
  rw [hcur, hcur']
  decide

end Sys

end RtKernel.RoundRobin

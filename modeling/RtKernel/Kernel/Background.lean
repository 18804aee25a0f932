import RtKernel.Kernel.Invariant

/-!
# What goes on beside a call

Between the parts of a call the scheduler may run, the tick may end a time slice,
and priorities may be changed. None of this suspends a thread or wakes one, and
the suspend lists stay as they are.
-/

namespace RtKernel

/-- What the scheduler, the tick and other calls do meanwhile. -/
inductive Background (τ : Type*)
  | schedule
  | tick
  | yield
  | changePriority (t : τ) (priority : Nat)
  | enterCritical
  | exitCritical

namespace Kernel

variable {τ ω : Type*}

/-- The threads suspended, their errors and the suspend lists are the same. -/
structure Calm (k k' : Kernel τ ω) : Prop where
  wait : k'.wait = k.wait
  suspended : ∀ t, (k'.thread t).stat = .suspend ↔ (k.thread t).stat = .suspend
  error : ∀ t, (k'.thread t).error = (k.thread t).error

/-- Only suspended threads are in a suspend list. -/
def OnlySuspended (k : Kernel τ ω) : Prop :=
  ∀ w t, t ∈ k.wait w → (k.thread t).stat = .suspend

theorem Calm.refl (k : Kernel τ ω) : k.Calm k := ⟨rfl, fun _ => Iff.rfl, fun _ => rfl⟩

variable {k k' : Kernel τ ω}

theorem OnlySuspended.calm (h : k.OnlySuspended) (hc : k.Calm k') : k'.OnlySuspended := by
  intro w t ht
  rw [hc.suspended]
  rw [hc.wait] at ht
  exact h w t ht

theorem Calm.trans {k₁ k₂ k₃ : Kernel τ ω} (h : k₁.Calm k₂) (h' : k₂.Calm k₃) : k₁.Calm k₃ :=
  ⟨h'.wait.trans h.wait, fun t => (h'.suspended t).trans (h.suspended t),
    fun t => (h'.error t).trans (h.error t)⟩

variable [DecidableEq τ]

/-- A background step. -/
def background (k : Kernel τ ω) : Background τ → Option (Kernel τ ω)
  | .schedule => k.rtSchedule
  | .tick => some k.tickSlice.1
  | .yield => some k.rtThreadYield
  | .changePriority t priority =>
      if priority < rtThreadPriorityMax then some (k.changePriority t priority) else none
  | .enterCritical => some k.rtEnterCritical
  | .exitCritical => some k.rtExitCritical

variable {t : τ} {f : RtThread → RtThread}

/-- A thread that is not suspended is in no suspend list. -/
theorem OnlySuspended.remove (h : k.OnlySuspended)
    (ht : (k.thread t).stat ≠ .suspend) : (fun w => rtListRemove (k.wait w) t) = k.wait := by
  funext w
  exact rtListRemove_of_notMem fun hmem => ht (h w t hmem)

/-- A change of one thread that keeps its error and whether it is suspended. -/
theorem calm_setThread (k : Kernel τ ω)
    (hs : (f (k.thread t)).stat = .suspend ↔ (k.thread t).stat = .suspend)
    (he : (f (k.thread t)).error = (k.thread t).error) : k.Calm (k.setThread t f) := by
  refine ⟨rfl, ?_, ?_⟩
  · intro x
    by_cases hx : x = t
    · rw [hx, setThread_self]
      exact hs
    · rw [setThread_of_ne hx]
  · intro x
    by_cases hx : x = t
    · rw [hx, setThread_self]
      exact he
    · rw [setThread_of_ne hx]

/-- `rt_schedule_remove_thread` of a thread that is not suspended. -/
theorem calm_remove (h : k.OnlySuspended)
    (ht : (k.thread t).stat ≠ .suspend) : k.Calm (k.rtScheduleRemoveThread t) :=
  ⟨h.remove ht, fun _ => Iff.rfl, fun _ => rfl⟩

/-- `rt_schedule_insert_thread` of a thread that is not suspended. -/
theorem calm_insert (k : Kernel τ ω) (ht : (k.thread t).stat ≠ .suspend) :
    k.Calm (k.rtScheduleInsertThread t) := by
  refine ⟨insert_wait k t, ?_, ?_⟩
  · intro x
    by_cases hx : x = t
    · subst hx
      by_cases hc : x = k.current
      · simp [hc, hc ▸ ht]
      · simp [hc, ht]
    · rw [insert_of_ne hx]
  · intro x
    by_cases hx : x = t
    · rw [hx, insert_self]
    · rw [insert_of_ne hx]

/-- Switching between two threads that are not suspended. -/
theorem calm_switchTo (h : k.OnlySuspended) {b : Bool}
    (ht : (k.thread t).stat ≠ .suspend) (hb : b = true → (k.thread k.current).stat ≠ .suspend) :
    k.Calm (k.switchTo t b) := by
  have hmoved : k.Calm { k with current := t } := ⟨rfl, fun _ => Iff.rfl, fun _ => rfl⟩
  have hinsert : k.Calm (if b then
      Kernel.rtScheduleInsertThread { k with current := t } k.current else { k with current := t }) := by
    cases b with
    | false => exact hmoved
    | true => exact hmoved.trans (calm_insert _ (hb rfl))
  have hnot := mt (hinsert.suspended t).mp ht
  have hremove := hinsert.trans (calm_remove (h.calm hinsert) hnot)
  unfold switchTo
  refine hremove.trans (calm_setThread _ ?_ rfl)
  exact iff_of_false nofun (mt (hremove.suspended t).mp ht)

variable {started : τ → Prop}

theorem calm_rtSchedule (h : k.Inv started)
    (ho : k.OnlySuspended) (hk : k.rtSchedule = some k') : k.Calm k' := by
  have hclear : k.Calm (k.setThread k.current fun x => { x with yield := false }) :=
    calm_setThread k Iff.rfl rfl
  rcases rtSchedule_cases h hk with rfl | ⟨hrun, rfl⟩ | ⟨head, hready, -, ⟨hrun, rfl⟩ | ⟨-, rfl⟩⟩
  · exact .refl k'
  · have hcur : (k.thread k.current).stat ≠ .suspend := by
      rw [hrun]
      nofun
    have hremove := hclear.trans
      (calm_remove (ho.calm hclear) (mt (hclear.suspended k.current).mp hcur))
    refine hremove.trans (calm_setThread _ ?_ rfl)
    exact iff_of_false nofun (mt (hremove.suspended _).mp hcur)
  · refine hclear.trans (calm_switchTo (ho.calm hclear) (mt (hclear.suspended head).mp ?_) fun _ =>
      mt (hclear.suspended k.current).mp ?_)
    · rw [hready]
      nofun
    · rw [hrun]
      nofun
  · refine calm_switchTo ho ?_ nofun
    rw [hready]
    nofun

theorem calm_tickSlice (k : Kernel τ ω) : k.Calm k.tickSlice.1 := by
  have hslice : k.Calm (k.setThread k.current fun x =>
      { x with remainingTick := sub32 x.remainingTick 1 }) := calm_setThread k Iff.rfl rfl
  simp only [tickSlice]
  split_ifs
  · exact hslice.trans (calm_setThread (f := fun x =>
      { x with remainingTick := x.initTick, yield := true }) _ Iff.rfl rfl)
  · exact hslice

theorem calm_changePriority (h : k.OnlySuspended) (t : τ) (priority : Nat) :
    k.Calm (k.changePriority t priority) := by
  unfold changePriority
  by_cases hs : (k.thread t).stat = .ready
  · rw [if_pos hs]
    have hnot : (k.thread t).stat ≠ .suspend := by
      rw [hs]
      nofun
    have hset := (calm_remove h hnot).trans (calm_setThread (t := t)
      (f := fun x => { x with currentPriority := priority, numberMask := bit priority })
      _ Iff.rfl rfl)
    exact hset.trans (calm_insert _ (mt (hset.suspended t).mp hnot))
  · rw [if_neg hs]
    exact calm_setThread k Iff.rfl rfl

variable {b : Background τ} {priority : τ → Nat}

/-- A background step keeps the invariant of the scheduler. -/
theorem Inv.background (h : k.Inv started) (hk : k.background b = some k') : k'.Inv started := by
  cases b with
  | schedule =>
    obtain ⟨k₁, hk₁, hinv, -⟩ := h.rtSchedule
    cases hk₁.symm.trans hk
    exact hinv
  | tick =>
    cases hk
    exact h.tickSlice
  | yield =>
    cases hk
    exact h.rtThreadYield
  | changePriority t priority =>
    rw [Kernel.background] at hk
    split_ifs at hk with hp
    cases hk
    exact h.changePriority t hp
  | enterCritical | exitCritical =>
    cases hk
    exact ⟨⟨h.queues.holds, h.queues.priority, h.queues.mask⟩, h.live, h.current, h.running⟩

theorem calm_background (h : k.Inv started)
    (ho : k.OnlySuspended) (hk : k.background b = some k') : k.Calm k' := by
  cases b with
  | schedule => exact calm_rtSchedule h ho hk
  | tick =>
    cases hk
    exact calm_tickSlice k
  | yield =>
    cases hk
    exact calm_setThread k Iff.rfl rfl
  | changePriority t priority =>
    rw [background] at hk
    split_ifs at hk
    cases hk
    exact calm_changePriority ho t priority
  | enterCritical | exitCritical =>
    cases hk
    exact ⟨rfl, fun _ => Iff.rfl, fun _ => rfl⟩

theorem setThread_priority (k : Kernel τ ω)
    (h : (f (k.thread t)).currentPriority = (k.thread t).currentPriority) (x : τ) :
    ((k.setThread t f).thread x).currentPriority = (k.thread x).currentPriority := by
  by_cases hx : x = t
  · rw [hx, setThread_self]
    exact h
  · rw [setThread_of_ne hx]

theorem rtSchedule_priority (h : k.Inv started) (hk : k.rtSchedule = some k') (x : τ) :
    (k'.thread x).currentPriority = (k.thread x).currentPriority := by
  have hclear := setThread_priority k (t := k.current) (f := fun z => { z with yield := false }) rfl x
  rcases rtSchedule_cases h hk with rfl | ⟨-, rfl⟩ | ⟨head, -, -, ⟨-, rfl⟩ | ⟨-, rfl⟩⟩
  · rfl
  · rw [setThread_priority (h := rfl), remove_thread, hclear]
  · rw [switchTo_priority, hclear]
  · rw [switchTo_priority]

theorem background_priority (h : k.Inv started) (hk : k.background b = some k') (x : τ) :
    (k'.thread x).currentPriority = match b with
      | .changePriority t priority => if x = t then priority else (k.thread x).currentPriority
      | _ => (k.thread x).currentPriority := by
  cases b with
  | schedule => exact rtSchedule_priority h hk x
  | tick =>
    cases hk
    simp only [tickSlice]
    split_ifs
    · rw [setThread_priority (h := rfl), setThread_priority (h := rfl)]
    · rw [setThread_priority (h := rfl)]
  | yield =>
    cases hk
    exact setThread_priority (h := rfl) ..
  | changePriority t priority =>
    rw [background] at hk
    split_ifs at hk
    cases hk
    by_cases hx : x = t
    · subst hx
      rw [h.changePriority_self]
      simp
    · rw [changePriority_of_ne hx]
      simp [hx]
  | enterCritical | exitCritical =>
    cases hk
    rfl

/-- The thread `current` runs, and the others sleep. -/
def quiescent (priority : τ → Nat) (current : τ) : Kernel τ ω :=
  { thread := fun t =>
      { stat := if t = current then .running else .suspend
        yield := false, currentPriority := priority t, numberMask := bit (priority t), initTick := 10
        remainingTick := 10, error := .eok, timer := t ≠ current }
    ready := { group := 0, queue := fun _ => [] }
    wait := fun _ => [], defunct := [], current := current, schedulerLockNest := 0 }

/-- The thread `current` runs, the threads `ts` are ready, and the others sleep. -/
def boot (priority : τ → Nat) (current : τ) (ts : List τ) : Kernel τ ω :=
  ts.foldl rtThreadResume (quiescent priority current)

theorem boot_inv (hp : ∀ t, priority t < 32) (current : τ) (ts : List τ) :
    (boot priority current ts : Kernel τ ω).Inv fun _ => True := by
  have hstart : (quiescent priority current : Kernel τ ω).Inv fun _ => True := by
    apply Inv.of_empty rfl (fun _ => rfl) ?_ hp (fun _ _ => rfl) fun _ _ _ => trivial
    · intro t ht
      by_contra hne
      have hs : ((quiescent priority current : Kernel τ ω).thread t).stat = .suspend := if_neg hne
      cases hs.symm.trans ht
    · intro t
      simp only [quiescent]
      split_ifs <;> nofun
  unfold boot
  generalize (quiescent priority current : Kernel τ ω) = k at hstart ⊢
  induction ts generalizing k with
  | nil => exact hstart
  | cons t rest ih => exact ih _ (hstart.rtThreadResume t)

theorem boot_wait {current : τ} {ts : List τ} :
    (boot priority current ts : Kernel τ ω).wait = fun _ => [] := by
  have hstart : (quiescent priority current : Kernel τ ω).wait = fun _ => [] := rfl
  unfold boot
  generalize (quiescent priority current : Kernel τ ω) = k at hstart ⊢
  induction ts generalizing k with
  | nil => exact hstart
  | cons t rest ih =>
    apply ih
    unfold rtThreadResume
    split_ifs
    · simp [resume, hstart, rtListRemove]
    · exact hstart

end Kernel

end RtKernel

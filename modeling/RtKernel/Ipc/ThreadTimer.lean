import RtKernel.Ipc.Parts
import RtKernel.Kernel.Threads
import RtKernel.Mem.MemPool

/-!
# The timer of a thread

A thread has one timer for whatever it waits for. The timer is started where the
thread is suspended, and every function that ends the wait stops it first, so a
timer that runs belongs to a suspended thread. This does not depend on the state
of the objects that threads wait for, nor on the order in which the parts of
resuming, detaching and deleting threads are taken.
-/

namespace RtKernel

namespace Kernel

/-- Only suspended threads have a timer that runs; `detached` are the threads whose timer was
detached. -/
structure Timed {τ ω : Type*} (k : Kernel τ ω) (detached : τ → Prop) : Prop where
  suspended : ∀ t, (k.thread t).timer = true → (k.thread t).stat = .suspend
  /-- A thread in a ready queue has no timer that runs. -/
  linked : ∀ t p, t ∈ k.ready.queue p → (k.thread t).timer = false
  closed : ∀ t, (k.thread t).stat = .close → detached t

/-- The current thread is besides in no ready queue, and has begun. -/
structure Armed {τ ω : Type*} (k : Kernel τ ω) (detached : τ → Prop) : Prop extends
    k.Timed detached where
  current : ∀ p, k.current ∉ k.ready.queue p
  begun : (k.thread k.current).stat ≠ .init

variable {τ ω : Type*} [DecidableEq τ] {k : Kernel τ ω} {detached : τ → Prop}

namespace Timed

/-- A change of a thread that does not start its timer. -/
theorem setThread (h : k.Timed detached) (t : τ) (f : RtThread → RtThread)
    (htimer : (f (k.thread t)).timer = true →
      (k.thread t).timer = true ∧ (f (k.thread t)).stat = .suspend)
    (hclosed : (f (k.thread t)).stat = .close → detached t) : (k.setThread t f).Timed detached := by
  refine ⟨fun x hx => ?_, fun x p hx => ?_, fun x hx => ?_⟩
  · by_cases hxt : x = t
    · rw [hxt, setThread_self] at hx ⊢
      exact (htimer hx).2
    · rw [setThread_of_ne hxt] at hx ⊢
      exact h.suspended x hx
  · by_cases hxt : x = t
    · subst hxt
      rw [setThread_self]
      refine Bool.eq_false_iff.mpr fun ht => ?_
      have hold := (htimer ht).1
      rw [h.linked x p hx] at hold
      cases hold
    · rw [setThread_of_ne hxt]
      exact h.linked x p hx
  · by_cases hxt : x = t
    · rw [hxt, setThread_self] at hx
      exact hxt ▸ hclosed hx
    · rw [setThread_of_ne hxt] at hx
      exact h.closed x hx

theorem remove (h : k.Timed detached) (t : τ) : (k.rtScheduleRemoveThread t).Timed detached := by
  refine ⟨h.suspended, fun x p hx => ?_, h.closed⟩
  unfold rtScheduleRemoveThread at hx
  rw [ReadyTable.clear_queue] at hx
  exact h.linked x p (mem_rtListRemove.mp hx).1

/-- The members of the ready queues after `rt_schedule_insert_thread`. -/
theorem mem_insert {t x : τ} {p : Nat} (hx : x ∈ (k.rtScheduleInsertThread t).ready.queue p) :
    x ∈ k.ready.queue p ∨ x = t ∧ t ≠ k.current := by
  unfold rtScheduleInsertThread at hx
  split_ifs at hx with hc
  · exact .inl hx
  · unfold ReadyTable.insert at hx
    dsimp only at hx
    by_cases hp : p = ((k.setThread t fun x => { x with stat := .ready }).thread t).currentPriority
    · rw [hp, Function.update_self] at hx
      rcases List.mem_append.mp hx with hx | hx
      · exact .inl (hp ▸ hx)
      · exact .inr ⟨List.mem_singleton.mp hx, hc⟩
    · rw [Function.update_of_ne hp] at hx
      exact .inl hx

variable {t : τ}

/-- A thread whose timer does not run becomes ready, or running when it is the current one. -/
theorem insert (h : k.Timed detached) (ht : (k.thread t).timer = false) :
    (k.rtScheduleInsertThread t).Timed detached := by
  have hself : ((k.rtScheduleInsertThread t).thread t).timer = false := by
    rw [insert_self]
    exact ht
  refine ⟨fun x hx => ?_, fun x p hx => ?_, fun x hx => ?_⟩
  · have hxt : x ≠ t := by
      rintro rfl
      cases hself.symm.trans hx
    rw [insert_of_ne hxt] at hx ⊢
    exact h.suspended x hx
  · by_cases hxt : x = t
    · rw [hxt]
      exact hself
    · rw [insert_of_ne hxt]
      exact h.linked x p ((mem_insert hx).resolve_right fun hne => hxt hne.1)
  · by_cases hxt : x = t
    · rw [hxt, insert_self] at hx
      split_ifs at hx
    · rw [insert_of_ne hxt] at hx
      exact h.closed x hx

theorem switchTo (h : k.Timed detached) {p : Nat} (ht : t ∈ k.ready.queue p) {b : Bool}
    (hb : b = true → (k.thread k.current).stat = .running) : (k.switchTo t b).Timed detached := by
  have hmoved : Timed { k with current := t } detached := ⟨h.suspended, h.linked, h.closed⟩
  have hrunning : b = true → (k.thread k.current).timer = false := by
    intro hb'
    refine Bool.eq_false_iff.mpr fun htimer => ?_
    cases (hb hb').symm.trans (h.suspended _ htimer)
  have hinserted : Timed (if b then
      Kernel.rtScheduleInsertThread { k with current := t } k.current
      else { k with current := t }) detached := by
    split_ifs with hb'
    · exact hmoved.insert (hrunning hb')
    · exact hmoved
  have htimer : ((if b then Kernel.rtScheduleInsertThread { k with current := t } k.current
      else { k with current := t }).thread t).timer = false := by
    have hold := h.linked t p ht
    split_ifs
    · by_cases hc : t = k.current
      · rw [← hc, insert_self]
        exact hold
      · rw [insert_of_ne hc]
        exact hold
    · exact hold
  unfold Kernel.switchTo
  refine (hinserted.remove t).setThread t (fun x => { x with stat := .running }) (fun hx => ?_)
    nofun
  exact absurd (htimer.symm.trans hx) nofun

end Timed

/-- After `rt_schedule_remove_thread` the thread is in no queue. -/
theorem notMem_remove (k : Kernel τ ω) (t : τ) (p : Nat) :
    t ∉ (k.rtScheduleRemoveThread t).ready.queue p := by
  unfold rtScheduleRemoveThread
  rw [ReadyTable.clear_queue]
  exact fun hmem => (mem_rtListRemove.mp hmem).2 rfl

namespace Armed

section

variable (h : k.Armed detached)
include h

/-- A change of a thread that does not start its timer. -/
theorem setThread (t : τ) (f : RtThread → RtThread) (htimer : (f (k.thread t)).timer = true →
      (k.thread t).timer = true ∧ (f (k.thread t)).stat = .suspend)
    (hbegun : t = k.current → (f (k.thread t)).stat ≠ .init)
    (hclosed : (f (k.thread t)).stat = .close → detached t) : (k.setThread t f).Armed detached := by
  refine ⟨h.toTimed.setThread t f htimer hclosed, h.current, ?_⟩
  by_cases hc : k.current = t
  · rw [setThread_current, hc, setThread_self]
    exact hbegun hc.symm
  · rw [setThread_current, setThread_of_ne hc]
    exact h.begun

theorem touch (t : τ) (f : RtThread → RtThread) (hs : (f (k.thread t)).stat = (k.thread t).stat)
    (ht : (f (k.thread t)).timer = (k.thread t).timer) : (k.setThread t f).Armed detached := by
  refine h.setThread t f (fun htimer => ?_) (fun hc => ?_) fun hclose => ?_
  · rw [ht] at htimer
    exact ⟨htimer, hs.trans (h.suspended t htimer)⟩
  · rw [hs, hc]
    exact h.begun
  · exact h.closed t (hs.symm.trans hclose)

omit [DecidableEq τ] in
theorem setWait (wait : ω → List τ) : Armed { k with wait := wait } detached :=
  ⟨⟨h.suspended, h.linked, h.closed⟩, h.current, h.begun⟩

theorem tlistRemove (t : τ) : (k.tlistRemove t).Armed detached :=
  ⟨⟨h.suspended, fun x p hx => h.linked x p (mem_rtListRemove.mp hx).1, h.closed⟩,
    fun p hp => h.current p (mem_rtListRemove.mp hp).1, h.begun⟩

theorem remove (t : τ) : (k.rtScheduleRemoveThread t).Armed detached := by
  refine ⟨h.toTimed.remove t, fun p hp => ?_, h.begun⟩
  unfold rtScheduleRemoveThread at hp
  rw [ReadyTable.clear_queue] at hp
  exact h.current p (mem_rtListRemove.mp hp).1

theorem insert (ht : (k.thread t).timer = false) : (k.rtScheduleInsertThread t).Armed detached := by
  refine ⟨h.toTimed.insert ht, fun p hp => ?_, ?_⟩
  · rw [insert_current] at hp
    rcases Timed.mem_insert hp with hp | ⟨hc, hne⟩
    · exact h.current p hp
    · exact hne hc.symm
  · rw [insert_current]
    by_cases hc : k.current = t
    · rw [hc, insert_self, if_pos hc.symm]
      nofun
    · rw [insert_of_ne hc]
      exact h.begun

theorem resume (t : τ) : (k.resume t).Armed detached := by
  unfold Kernel.resume
  have hr := h.tlistRemove t
  refine (hr.setThread t (fun x => { x with timer := false }) nofun (fun hc => ?_)
    fun hs => ?_).insert ?_
  · exact hc ▸ h.begun
  · exact h.closed t hs
  · rw [setThread_self]

theorem rtThreadResume (t : τ) : (k.rtThreadResume t).Armed detached := by
  unfold Kernel.rtThreadResume
  split_ifs
  · exact h.resume t
  · exact h

/-- The timer that runs is that of a suspended thread, so the assertion holds. -/
theorem threadTimeout (ht : (k.thread t).timer = true) :
    ∃ k', k.threadTimeout t = some k' ∧ k'.Armed detached := by
  have hs := h.suspended t ht
  unfold Kernel.threadTimeout
  rw [if_pos hs]
  refine ⟨_, rfl, ?_⟩
  have hset := h.setThread t (fun x => { x with timer := false, error := .etimeout }) nofun
    (fun _ => by rw [hs]; nofun) fun hclose => h.closed t hclose
  refine (hset.tlistRemove t).insert ?_
  rw [tlistRemove_thread, setThread_self]

theorem changePriority (t : τ) (priority : Nat) : (k.changePriority t priority).Armed detached := by
  unfold Kernel.changePriority
  split_ifs with hs
  · refine ((h.remove t).touch t
      (fun x => { x with currentPriority := priority, numberMask := bit priority }) rfl
      rfl).insert ?_
    rw [setThread_self]
    refine Bool.eq_false_iff.mpr fun ht => ?_
    cases hs.symm.trans (h.suspended t ht)
  · exact h.touch t (fun x => { x with currentPriority := priority, numberMask := bit priority })
      rfl rfl

theorem suspend : k.suspend.Armed detached :=
  (h.remove k.current).setThread k.current (fun x => { x with stat := .suspend, timer := false })
    nofun (fun _ => nofun) nofun

theorem rtThreadSuspend : k.rtThreadSuspend.Armed detached := by
  unfold Kernel.rtThreadSuspend
  split_ifs
  · exact h.suspend
  · exact h

omit [DecidableEq τ] in
/-- The states a current thread can have that is not detached. -/
theorem current_cases (hd : ¬ detached k.current) :
    (k.thread k.current).stat = .ready ∨ (k.thread k.current).stat = .running ∨
      (k.thread k.current).stat = .suspend := by
  have hbegun := h.begun
  have hclosed := fun hs => hd (h.closed k.current hs)
  cases hs : (k.thread k.current).stat with
  | init => exact absurd hs hbegun
  | ready => exact .inl rfl
  | suspend => exact .inr (.inr rfl)
  | running => exact .inr (.inl rfl)
  | close => exact absurd hs hclosed

theorem rtThreadSuspend_stat (hd : ¬ detached k.current) :
    (k.rtThreadSuspend.thread k.rtThreadSuspend.current).stat = .suspend := by
  unfold Kernel.rtThreadSuspend
  split_ifs with hs
  · have hself : (k.suspend.thread k.current).stat = .suspend := by
      simp [Kernel.suspend]
    exact hself
  · rcases h.current_cases hd with hr | hr | hr
    · exact absurd (.inl hr) hs
    · exact absurd (.inr hr) hs
    · exact hr

theorem startTimer (hs : (k.thread k.current).stat = .suspend) : k.startTimer.Armed detached := by
  refine ⟨⟨fun x hx => ?_, fun x p hx => ?_, fun x hx => ?_⟩, h.current, ?_⟩
  · by_cases hxc : x = k.current
    · unfold Kernel.startTimer
      rw [hxc, setThread_self]
      exact hs
    · unfold Kernel.startTimer at hx ⊢
      rw [setThread_of_ne hxc] at hx ⊢
      exact h.suspended x hx
  · have hxc : x ≠ k.current := by
      rintro rfl
      exact h.current p hx
    unfold Kernel.startTimer
    rw [setThread_of_ne hxc]
    exact h.linked x p hx
  · by_cases hxc : x = k.current
    · unfold Kernel.startTimer at hx
      rw [hxc, setThread_self] at hx
      exact hxc ▸ h.closed _ hx
    · unfold Kernel.startTimer at hx
      rw [setThread_of_ne hxc] at hx
      exact h.closed x hx
  · unfold Kernel.startTimer
    rw [setThread_current, setThread_self]
    exact h.begun

theorem setError (err : RtErr) : (k.setError err).Armed detached :=
  h.touch k.current (fun x => { x with error := err }) rfl rfl

theorem rtThreadSleep (hd : ¬ detached k.current) : k.rtThreadSleep.Armed detached :=
  ((h.setError .eok).rtThreadSuspend).startTimer ((h.setError .eok).rtThreadSuspend_stat hd)

theorem switchTo {p : Nat} (ht : t ∈ k.ready.queue p) {b : Bool}
    (hb : b = true → (k.thread k.current).stat = .running) : (k.switchTo t b).Armed detached := by
  refine ⟨h.toTimed.switchTo ht hb, ?_, ?_⟩
  · have hcur : (k.switchTo t b).current = t := by
      cases b <;> simp
    rw [hcur]
    exact notMem_remove _ t
  · have hcur : (k.switchTo t b).current = t := by
      unfold Kernel.switchTo
      cases b <;> simp
    rw [hcur]
    unfold Kernel.switchTo
    rw [setThread_self]
    nofun

end

variable {k' : Kernel τ ω}

section

variable (h : k.Armed detached)
include h

/-- `rt_schedule`, in whatever state the ready queues are. -/
theorem rtSchedule (hk : k.rtSchedule = some k') : k'.Armed detached := by
  unfold Kernel.rtSchedule at hk
  by_cases hcond : k.schedulerLockNest = 0 ∧ k.ready.group ≠ 0
  · rw [if_pos hcond] at hk
    dsimp only at hk
    generalize hq : k.ready.queue (rtFfs k.ready.group - 1) = queue at hk
    cases queue with
    | nil => cases hk
    | cons head rest =>
      have hhead : head ∈ k.ready.queue (rtFfs k.ready.group - 1) := hq ▸ List.mem_cons_self
      have hne : head ≠ k.current := fun he => h.current _ (he ▸ hhead)
      by_cases hrun : (k.thread k.current).stat = .running
      · have hclear := h.touch k.current (fun x => { x with yield := false }) rfl rfl
        have hrun' : ((k.setThread k.current fun x => { x with yield := false }).thread
            k.current).stat = .running := by
          rw [setThread_self]
          exact hrun
        by_cases hstay : (k.thread k.current).currentPriority < rtFfs k.ready.group - 1 ∨
            (k.thread k.current).currentPriority = rtFfs k.ready.group - 1 ∧
              (k.thread k.current).yield = false
        · simp only [hrun, hstay, decide_true, if_true, true_and, setThread_current, ne_eq,
            not_true_eq_false, if_false, remove_current] at hk
          cases hk
          refine (hclear.remove k.current).setThread k.current
            (fun x => { x with stat := .running }) (fun ht => ?_) (fun _ => nofun) nofun
          have hs := hclear.suspended k.current ht
          rw [hrun'] at hs
          cases hs
        · simp only [hrun, hstay, decide_true, decide_false, if_true, true_and, setThread_current,
            Bool.false_eq_true, if_false, ne_eq, hne, not_false_eq_true] at hk
          cases hk
          exact hclear.switchTo hhead fun _ => hrun'
      · simp only [hrun, decide_false, Bool.false_eq_true, if_false, false_and] at hk
        rw [if_pos hne] at hk
        cases hk
        exact h.switchTo hhead nofun
  · rw [if_neg hcond] at hk
    cases hk
    exact h

theorem startup (hk : k.rtThreadStartup t = some k') : k'.Armed detached := by
  unfold Kernel.rtThreadStartup at hk
  split_ifs at hk
  cases hk
  refine h.setThread t (fun x =>
    { x with numberMask := bit x.currentPriority, stat := .suspend, yield := false })
    (fun ht => ⟨ht, rfl⟩) (fun _ => by nofun) (by nofun)

section

variable {detached' : τ → Prop} (hmono : ∀ x, detached x → detached' x)
include hmono

/-- The timer of the thread is detached, and the thread closed. -/
theorem closeThread (ht : detached' t) : (k.closeThread t).Armed detached' := by
  have hmore : k.Armed detached' :=
    ⟨⟨h.suspended, h.linked, fun x hx => hmono x (h.closed x hx)⟩, h.current, h.begun⟩
  have hclosed := hmore.setThread t
    (fun x => { x with timer := false, stat := .close, yield := false }) (by nofun)
    (fun _ => by nofun) fun _ => ht
  exact ⟨⟨hclosed.suspended, hclosed.linked, hclosed.closed⟩, hclosed.current, hclosed.begun⟩

theorem threadExit (ht : detached' k.current) : k.threadExit.Armed detached' :=
  (h.remove k.current).closeThread hmono ht

end

theorem rtThreadYield : k.rtThreadYield.Armed detached :=
  h.touch k.current (fun x => { x with remainingTick := x.initTick, yield := true }) rfl rfl

theorem tickSlice : k.tickSlice.1.Armed detached := by
  have htick := h.touch k.current (fun x => { x with remainingTick := sub32 x.remainingTick 1 })
    rfl rfl
  unfold Kernel.tickSlice
  dsimp only
  split_ifs
  · exact htick.touch k.current (fun x => { x with remainingTick := x.initTick, yield := true })
      rfl rfl
  · exact htick

omit [DecidableEq τ] in
theorem setLock (nest : Nat) : Armed { k with schedulerLockNest := nest } detached :=
  ⟨⟨h.suspended, h.linked, h.closed⟩, h.current, h.begun⟩

theorem fail (t : τ) : (k.fail t).Armed detached :=
  (h.touch t (fun x => { x with error := .error }) rfl rfl).rtThreadResume t

theorem ipcListResumeAll (x : ω) : (k.ipcListResumeAll x).Armed detached :=
  ipcListResumeAll_rule (P := fun k => k.Armed detached) (fun _ t _ hk _ => hk.fail t) h

theorem wakes (hk : Wakes k k') : k'.Armed detached := by
  induction hk with
  | refl => exact h
  | resume _ t ih => exact ih.rtThreadResume t
  | fail _ _ ih => exact ih.fail _

theorem posts {b : Bool} (hk : Posts k k' b) : k'.Armed detached := by
  cases hk with
  | same => exact h
  | wake hk => exact h.wakes hk

end

theorem startTimer_timer (k : Kernel τ ω) : (k.startTimer.thread k.current).timer = true := by
  unfold Kernel.startTimer
  rw [setThread_self]

/-- The current thread is suspended and put in a list, and its timer maybe started. -/
theorem suspendOn (h : k.Armed detached) (wait : ω → List τ) (timed : Bool)
    (hk : k' = let k : Kernel τ ω := { k.rtThreadSuspend with wait := wait }
      if timed then k.startTimer else k)
    (hd : (k'.thread k.current).timer = true → ¬ detached k.current) : k'.Armed detached := by
  have hwait := h.rtThreadSuspend.setWait wait
  have hcur : k.rtThreadSuspend.current = k.current := by
    unfold Kernel.rtThreadSuspend
    split_ifs <;> rfl
  subst hk
  cases timed with
  | false => exact hwait
  | true =>
    have htimer := startTimer_timer { k.rtThreadSuspend with wait := wait }
    refine hwait.startTimer (h.rtThreadSuspend_stat (hd ?_))
    exact hcur ▸ htimer

theorem block [DecidableEq ω] (h : k.Armed detached) (x : ω) (flag : IpcFlag) (timed : Bool)
    (hd : ((k.block x flag timed).thread k.current).timer = true → ¬ detached k.current) :
    (k.block x flag timed).Armed detached :=
  (h.setError .eok).suspendOn _ timed rfl hd

/-- A part of a call that may suspend the current thread. -/
theorem does [DecidableEq ω] (h : k.Armed detached) {flag : ω → IpcFlag}
    {on : Option ω} {b : Bool} (hk : Does flag k k' on b)
    (hd : (k'.thread k.current).timer = true → ¬ detached k.current) : k'.Armed detached := by
  cases hk with
  | post hk => exact h.posts hk
  | error err => exact h.setError err
  | wait x timed => exact h.block x _ timed hd

end Armed

end Kernel

end RtKernel

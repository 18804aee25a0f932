import RtKernel.Kernel.Thread

/-!
# The invariant of the scheduler

The ready table holds the threads that are READY, each at its current priority.
While a thread is between two lists the table holds the others: `Queues` states
this for any assignment of keys, and every function says what it does to it.
-/

namespace RtKernel

open Function

namespace Kernel

variable {τ ω : Type*}

/-- The queue that a thread is linked in. -/
def key (k : Kernel τ ω) (t : τ) : Option Nat :=
  if (k.thread t).stat = .ready then some (k.thread t).currentPriority else none

/-- The ready table holds the threads that have a key. -/
structure Queues (k : Kernel τ ω) (started : τ → Prop) (key : τ → Option Nat) : Prop where
  holds : k.ready.Holds key
  priority : ∀ t, (k.thread t).currentPriority < 32
  mask : ∀ t, started t → (k.thread t).numberMask = bit (k.thread t).currentPriority

/-- The invariant of the scheduler, for the threads that were started. -/
structure Inv (k : Kernel τ ω) (started : τ → Prop) : Prop where
  queues : k.Queues started k.key
  /-- A thread that is ready, suspended or running was started. -/
  live : ∀ t, (k.thread t).stat ≠ .init → (k.thread t).stat ≠ .close → started t
  /-- The current thread is in no ready queue. -/
  current : (k.thread k.current).stat ≠ .ready
  /-- No other thread is running. -/
  running : ∀ t, (k.thread t).stat = .running → t = k.current

variable {t : τ} {k : Kernel τ ω}

theorem key_of_ready (h : (k.thread t).stat = .ready) :
    k.key t = some (k.thread t).currentPriority := if_pos h

theorem key_of_ne (h : (k.thread t).stat ≠ .ready) : k.key t = none :=
  if_neg h

theorem key_eq_some {p : Nat} (h : k.key t = some p) :
    (k.thread t).stat = .ready ∧ (k.thread t).currentPriority = p := by
  by_cases hr : (k.thread t).stat = .ready
  · rw [key_of_ready hr] at h
    exact ⟨hr, Option.some.inj h⟩
  · rw [key_of_ne hr] at h
    cases h

variable {started : τ → Prop}

theorem Inv.of_empty (hgroup : k.ready.group = 0)
    (hqueue : ∀ p, k.ready.queue p = []) (hnot : ∀ t, (k.thread t).stat ≠ .ready)
    (hp : ∀ t, (k.thread t).currentPriority < 32)
    (hm : ∀ t, started t → (k.thread t).numberMask = bit (k.thread t).currentPriority)
    (hlive : ∀ t, (k.thread t).stat ≠ .init → (k.thread t).stat ≠ .close → started t)
    (hrun : ∀ t, (k.thread t).stat = .running → t = k.current) : k.Inv started := by
  refine ⟨⟨⟨?_, ?_, ?_, ?_⟩, hp, hm⟩, hlive, hnot _, hrun⟩
  · intro p t
    rw [hqueue, key_of_ne (hnot t)]
    simp
  · intro p
    rw [hqueue]
    exact List.nodup_nil
  · intro t p hk
    rw [key_of_ne (hnot t)] at hk
    cases hk
  · intro p
    rw [hqueue, hgroup]
    simp

variable [DecidableEq τ] {b : Bool}

section

variable (k : Kernel τ ω) (t : τ) {p : τ}

@[simp] theorem setThread_self (f) : (k.setThread t f).thread t = f (k.thread t) :=
  update_self ..
variable {k t} in
theorem setThread_of_ne {f} (h : p ≠ t) : (k.setThread t f).thread p = k.thread p :=
  update_of_ne h ..
@[simp] theorem setThread_ready (f) : (k.setThread t f).ready = k.ready := rfl
@[simp] theorem setThread_wait (f) : (k.setThread t f).wait = k.wait := rfl
@[simp] theorem setThread_current (f) : (k.setThread t f).current = k.current := rfl
@[simp] theorem setThread_lock (f) : (k.setThread t f).schedulerLockNest = k.schedulerLockNest := rfl

@[simp] theorem tlistRemove_thread : (k.tlistRemove t).thread = k.thread := rfl
@[simp] theorem tlistRemove_current : (k.tlistRemove t).current = k.current := rfl
@[simp] theorem tlistRemove_wait : (k.tlistRemove t).wait = fun w => rtListRemove (k.wait w) t := rfl
@[simp] theorem tlistRemove_lock : (k.tlistRemove t).schedulerLockNest = k.schedulerLockNest := rfl

@[simp] theorem remove_thread : (k.rtScheduleRemoveThread t).thread = k.thread := rfl
@[simp] theorem remove_current : (k.rtScheduleRemoveThread t).current = k.current := rfl
@[simp] theorem remove_wait :
    (k.rtScheduleRemoveThread t).wait = fun w => rtListRemove (k.wait w) t := rfl
@[simp] theorem remove_lock :
    (k.rtScheduleRemoveThread t).schedulerLockNest = k.schedulerLockNest := rfl

@[simp] theorem insert_current : (k.rtScheduleInsertThread t).current = k.current := by
  unfold rtScheduleInsertThread
  split_ifs <;> rfl
@[simp] theorem insert_wait : (k.rtScheduleInsertThread t).wait = k.wait := by
  unfold rtScheduleInsertThread
  split_ifs <;> rfl
@[simp] theorem insert_lock :
    (k.rtScheduleInsertThread t).schedulerLockNest = k.schedulerLockNest := by
  unfold rtScheduleInsertThread
  split_ifs <;> rfl
/-- An inserted thread is ready, or running when it is the current one. -/
@[simp] theorem insert_self : (k.rtScheduleInsertThread t).thread t =
    { k.thread t with stat := if t = k.current then .running else .ready } := by
  unfold rtScheduleInsertThread
  split_ifs <;> exact update_self ..
variable {k t} in
theorem insert_of_ne (h : p ≠ t) : (k.rtScheduleInsertThread t).thread p = k.thread p := by
  unfold rtScheduleInsertThread
  split_ifs <;> exact update_of_ne h ..

variable {k t} in
theorem changePriority_of_ne (h : p ≠ t) {priority : Nat} :
    (k.changePriority t priority).thread p = k.thread p := by
  unfold changePriority
  split_ifs
  · rw [insert_of_ne h, setThread_of_ne h, remove_thread]
  · rw [setThread_of_ne h]
@[simp] theorem changePriority_current (priority : Nat) :
    (k.changePriority t priority).current = k.current := by
  unfold changePriority
  split_ifs <;> simp

end

namespace Queues

variable {key : τ → Option Nat} {f : RtThread → RtThread}

section

variable (h : k.Queues started key)
include h

/-- A change that keeps the priority within bounds and the mask that of the priority. -/
theorem setThread (hp : (f (k.thread t)).currentPriority < 32)
    (hm : started t → (f (k.thread t)).numberMask = bit (f (k.thread t)).currentPriority) :
    (k.setThread t f).Queues started key := by
  refine ⟨h.holds, ?_, ?_⟩
  · intro x
    by_cases hx : x = t
    · rw [hx, setThread_self]
      exact hp
    · rw [setThread_of_ne hx]
      exact h.priority x
  · intro x hs
    by_cases hx : x = t
    · rw [hx, setThread_self]
      exact hm (hx ▸ hs)
    · rw [setThread_of_ne hx]
      exact h.mask x hs

theorem touch (hp : (f (k.thread t)).currentPriority = (k.thread t).currentPriority)
    (hm : (f (k.thread t)).numberMask = (k.thread t).numberMask) :
    (k.setThread t f).Queues started key := by
  apply h.setThread
  · rw [hp]
    exact h.priority t
  · intro hs
    rw [hm, hp]
    exact h.mask t hs

/-- `rt_schedule_remove_thread` of a started thread unlinks it. -/
theorem remove (ht : started t) (hkey : ∀ p, key t = some p → p = (k.thread t).currentPriority) :
    (k.rtScheduleRemoveThread t).Queues started (update key t none) := by
  refine ⟨?_, h.priority, h.mask⟩
  have hholds := h.holds.remove hkey (h.priority t)
  rw [← h.mask t ht] at hholds
  exact hholds

theorem unlink (hkey : key t = none) : (k.tlistRemove t).Queues started key := by
  refine ⟨?_, h.priority, h.mask⟩
  have hsame : k.ready.unlink t = k.ready := by
    have hq : (fun p => rtListRemove (k.ready.queue p) t) = k.ready.queue := by
      funext p
      apply rtListRemove_of_notMem
      rw [h.holds.mem, hkey]
      nofun
    rw [ReadyTable.unlink, hq]
  have hready : (k.tlistRemove t).ready = k.ready := hsame
  rw [hready]
  exact h.holds

/-- `rt_schedule_insert_thread` of a started thread that is in no ready queue. -/
theorem insert (ht : started t) (hkey : key t = none) : (k.rtScheduleInsertThread t).Queues started
      (if t = k.current then key
        else update key t (some (k.thread t).currentPriority)) := by
  unfold rtScheduleInsertThread
  by_cases hc : t = k.current
  · rw [if_pos hc, if_pos hc]
    exact h.touch rfl rfl
  · rw [if_neg hc, if_neg hc]
    have hset := h.touch (t := t) (f := fun x => { x with stat := .ready }) rfl rfl
    refine ⟨?_, hset.priority, hset.mask⟩
    have hholds := hset.holds.insert hkey (hset.priority t)
    rw [← hset.mask t ht, setThread_self] at hholds
    simp only [setThread_self]
    exact hholds

end

end Queues

namespace Inv

/-- A change that leaves state, priority and mask alone. -/
theorem touch (h : k.Inv started) (hs : (f (k.thread t)).stat = (k.thread t).stat)
    (hp : (f (k.thread t)).currentPriority = (k.thread t).currentPriority)
    (hm : (f (k.thread t)).numberMask = (k.thread t).numberMask) : (k.setThread t f).Inv started := by
  have hstat : ∀ x, ((k.setThread t f).thread x).stat = (k.thread x).stat ∧
      ((k.setThread t f).thread x).currentPriority = (k.thread x).currentPriority := by
    intro x
    by_cases hx : x = t
    · rw [hx, setThread_self]
      exact ⟨hs, hp⟩
    · rw [setThread_of_ne hx]
      exact ⟨rfl, rfl⟩
  have hkey : (k.setThread t f).key = k.key := by
    funext x
    rw [key, key, (hstat x).1, (hstat x).2]
  refine ⟨hkey ▸ h.queues.touch hp hm, ?_, ?_, ?_⟩
  · intro x
    rw [(hstat x).1]
    exact h.live x
  · rw [(hstat _).1]
    exact h.current
  · intro x
    rw [(hstat x).1]
    exact h.running x

/-- Taking a thread off the ready queues and giving it a state other than ready. -/
theorem withdraw (h : k.Inv started) (ht : started t)
    (hs : (f (k.thread t)).stat ≠ .ready) (hr : (f (k.thread t)).stat = .running → t = k.current)
    (hp : (f (k.thread t)).currentPriority = (k.thread t).currentPriority)
    (hm : (f (k.thread t)).numberMask = (k.thread t).numberMask) :
    ((k.rtScheduleRemoveThread t).setThread t f).Inv started := by
  have hq := (h.queues.remove ht fun p hp => (key_eq_some hp).2.symm).touch (f := f) (t := t) hp hm
  refine ⟨⟨hq.holds.congr ?_, hq.priority, hq.mask⟩, ?_, ?_, ?_⟩
  · intro x
    by_cases hx : x = t
    · rw [hx, update_self, key_of_ne]
      rw [setThread_self]
      exact hs
    · rw [update_of_ne hx, key, setThread_of_ne hx]
      rfl
  · intro x
    by_cases hx : x = t
    · rw [hx]
      exact fun _ _ => ht
    · rw [setThread_of_ne hx]
      exact h.live x
  · by_cases hx : k.current = t
    · change ((((k.rtScheduleRemoveThread t).setThread t f).thread k.current)).stat ≠ _
      rw [hx, setThread_self]
      exact hs
    · change ((((k.rtScheduleRemoveThread t).setThread t f).thread k.current)).stat ≠ _
      rw [setThread_of_ne hx]
      exact h.current
  · intro x
    by_cases hx : x = t
    · rw [hx, setThread_self]
      exact hr
    · rw [setThread_of_ne hx]
      exact h.running x

/-- `rt_schedule_remove_thread` of a started thread that is in no ready queue. -/
theorem remove (h : k.Inv started) (ht : started t) (hs : (k.thread t).stat ≠ .ready) :
    (k.rtScheduleRemoveThread t).Inv started := by
  have hinv := h.withdraw (f := id) ht hs (h.running t) rfl rfl
  have hid : (k.rtScheduleRemoveThread t).setThread t id = k.rtScheduleRemoveThread t := by
    simp only [setThread, id, update_eq_self]
  rwa [hid] at hinv

/-- Making a started thread ready, when the others are queued as they should. -/
theorem of_insert {key : τ → Option Nat} (hq : k.Queues started key) (ht : started t)
    (hkey : key t = none) (hothers : ∀ x ≠ t, key x = k.key x)
    (hlive : ∀ x ≠ t, (k.thread x).stat ≠ .init → (k.thread x).stat ≠ .close → started x)
    (hcur : k.current ≠ t → (k.thread k.current).stat ≠ .ready)
    (hrun : ∀ x ≠ t, (k.thread x).stat = .running → x = k.current) :
    (k.rtScheduleInsertThread t).Inv started := by
  have hq' := hq.insert ht hkey
  refine ⟨⟨hq'.holds.congr ?_, hq'.priority, hq'.mask⟩, ?_, ?_, ?_⟩
  · intro x
    by_cases hx : x = t
    · subst hx
      rw [Kernel.key]
      by_cases hc : x = k.current
      · simp [← hc, hkey]
      · simp [hc]
    · rw [Kernel.key, insert_of_ne hx]
      by_cases hc : t = k.current
      · rw [if_pos hc, hothers x hx]
        rfl
      · rw [if_neg hc, update_of_ne hx, hothers x hx]
        rfl
  · intro x
    by_cases hx : x = t
    · rw [hx]
      exact fun _ _ => ht
    · rw [insert_of_ne hx]
      exact hlive x hx
  · rw [insert_current]
    by_cases hc : k.current = t
    · rw [hc, insert_self, if_pos hc.symm]
      nofun
    · rw [insert_of_ne hc]
      exact hcur hc
  · intro x
    rw [insert_current]
    by_cases hx : x = t
    · subst hx
      by_cases hc : x = k.current
      · exact fun _ => hc
      · simp [hc]
    · rw [insert_of_ne hx]
      exact hrun x hx

section

variable (h : k.Inv started) {k' : Kernel τ ω}
include h

/-- Readying a started thread that is in no ready queue. -/
theorem insert (ht : started t) (hs : (k.thread t).stat ≠ .ready) :
    (k.rtScheduleInsertThread t).Inv started :=
  of_insert h.queues ht (key_of_ne hs) (fun _ _ => rfl) (fun x _ => h.live x)
    (fun _ => h.current) fun x _ => h.running x

theorem unlink (hs : (k.thread t).stat ≠ .ready) : (k.tlistRemove t).Inv started :=
  ⟨h.queues.unlink (key_of_ne hs), h.live, h.current, h.running⟩

/-- What `rt_thread_resume` does to a started thread, whatever its state has become. -/
theorem resume (ht : started t) : (k.resume t).Inv started := by
  unfold Kernel.resume
  by_cases hs : (k.thread t).stat = .ready
  · -- the thread is queued already and moves to the end of its queue
    have hcur : t ≠ k.current := fun he => h.current (he ▸ hs)
    have hrm := h.queues.remove ht fun p hp => (key_eq_some hp).2.symm
    have hset := hrm.touch (t := t) (f := fun x => { x with timer := false }) rfl rfl
    have hinv : (((k.rtScheduleRemoveThread t).setThread t fun x =>
        { x with timer := false }).rtScheduleInsertThread t).Inv started := by
      apply of_insert hset ht (update_self ..)
      · intro x hx
        rw [update_of_ne hx, key, key, setThread_of_ne hx]
        rfl
      · intro x hx
        rw [setThread_of_ne hx]
        exact h.live x
      · intro _
        change (((k.rtScheduleRemoveThread t).setThread t fun x =>
          { x with timer := false }).thread k.current).stat ≠ _
        rw [setThread_of_ne hcur.symm]
        exact h.current
      · intro x hx
        rw [setThread_of_ne hx]
        exact h.running x
    -- the bit that the code leaves set is the one that the insertion sets
    have heq : ((k.tlistRemove t).setThread t fun x =>
        { x with timer := false }).rtScheduleInsertThread t =
        ((k.rtScheduleRemoveThread t).setThread t fun x =>
          { x with timer := false }).rtScheduleInsertThread t := by
      simp only [rtScheduleInsertThread, rtScheduleRemoveThread, setThread_current,
        tlistRemove_current, if_neg hcur, setThread_self, setThread_ready, tlistRemove_thread]
      rw [← ReadyTable.clear_insert (k.tlistRemove t).ready]
      rfl
    rw [heq]
    exact hinv
  · have hset := (h.unlink hs).touch (t := t) (f := fun x => { x with timer := false }) rfl rfl rfl
    apply hset.insert ht
    rw [setThread_self]
    exact hs

theorem rtThreadResume (t : τ) : (k.rtThreadResume t).Inv started := by
  unfold Kernel.rtThreadResume
  split_ifs with hs
  · exact h.resume (h.live t (by rw [hs]; nofun) (by rw [hs]; nofun))
  · exact h

theorem threadTimeout (hk : k.threadTimeout t = some k') : k'.Inv started := by
  unfold Kernel.threadTimeout at hk
  split_ifs at hk with hs
  have ht := h.live t (by rw [hs]; nofun) (by rw [hs]; nofun)
  have hset := h.touch (t := t) (f := fun x => { x with timer := false, error := .etimeout })
    rfl rfl rfl
  have hnot : ((k.setThread t fun x => { x with timer := false, error := .etimeout }).thread t).stat ≠
      .ready := by
    rw [setThread_self, hs]
    nofun
  have hkey : (k.setThread t fun x => { x with timer := false, error := .etimeout }).key t =
      none := key_of_ne hnot
  cases hk
  exact (hset.unlink hnot).insert ht hnot

/-- What `rt_thread_suspend` does to the current thread, whatever its state has become. -/
theorem suspend (ht : started k.current) : k.suspend.Inv started :=
  h.withdraw (f := fun x => { x with stat := .suspend, timer := false }) ht nofun nofun rfl rfl

theorem rtThreadSuspend : k.rtThreadSuspend.Inv started := by
  unfold Kernel.rtThreadSuspend
  split_ifs with hs
  · have hrun : (k.thread k.current).stat = .running := hs.resolve_left h.current
    exact h.suspend (h.live k.current (by rw [hrun]; nofun) (by rw [hrun]; nofun))
  · exact h

theorem rtThreadSleep : k.rtThreadSleep.Inv started := by
  have hset := h.touch (t := k.current) (f := fun x => { x with error := .eok }) rfl rfl rfl
  exact hset.rtThreadSuspend.touch (f := fun x => { x with timer := true }) rfl rfl rfl

theorem rtThreadYield : k.rtThreadYield.Inv started := h.touch rfl rfl rfl

theorem tickSlice : k.tickSlice.1.Inv started := by
  simp only [Kernel.tickSlice]
  split_ifs
  · have hset := h.touch (t := k.current)
      (f := fun x => { x with remainingTick := sub32 x.remainingTick 1 }) rfl rfl rfl
    exact hset.touch (f := fun x => { x with remainingTick := x.initTick, yield := true })
      rfl rfl rfl
  · exact h.touch (f := fun x => { x with remainingTick := sub32 x.remainingTick 1 }) rfl rfl rfl

/-- A priority below the limit may be given to any thread. -/
theorem changePriority (t : τ) {priority : Nat} (hp : priority < 32) :
    (k.changePriority t priority).Inv started := by
  unfold Kernel.changePriority
  by_cases hs : (k.thread t).stat = .ready
  · rw [if_pos hs]
    have ht := h.live t (by rw [hs]; nofun) (by rw [hs]; nofun)
    have hrm := h.queues.remove ht fun p hp => (key_eq_some hp).2.symm
    have hset := hrm.setThread (t := t)
      (f := fun x => { x with currentPriority := priority, numberMask := bit priority }) hp
      fun _ => rfl
    apply of_insert hset ht (update_self ..)
    · intro x hx
      rw [update_of_ne hx, key, key, setThread_of_ne hx]
      rfl
    · intro x hx
      rw [setThread_of_ne hx]
      exact h.live x
    · intro hne
      rw [setThread_of_ne hne]
      exact h.current
    · intro x hx
      rw [setThread_of_ne hx]
      exact h.running x
  · rw [if_neg hs]
    have hset := h.queues.setThread (t := t)
      (f := fun x => { x with currentPriority := priority, numberMask := bit priority }) hp
      fun _ => rfl
    have hstat : ∀ x, ((k.setThread t fun x =>
        { x with currentPriority := priority, numberMask := bit priority }).thread x).stat =
        (k.thread x).stat := by
      intro x
      by_cases hx : x = t
      · rw [hx, setThread_self]
      · rw [setThread_of_ne hx]
    refine ⟨⟨hset.holds.congr ?_, hset.priority, hset.mask⟩, ?_, ?_, ?_⟩
    · intro x
      by_cases hx : x = t
      · subst hx
        rw [key_of_ne hs, key_of_ne]
        rw [hstat]
        exact hs
      · rw [key, key, setThread_of_ne hx]
    · intro x
      rw [hstat]
      exact h.live x
    · rw [hstat]
      exact h.current
    · intro x
      rw [hstat]
      exact h.running x

theorem changePriority_self (t : τ) (priority : Nat) : (k.changePriority t priority).thread t =
      { k.thread t with currentPriority := priority, numberMask := bit priority } := by
  unfold Kernel.changePriority
  by_cases hs : (k.thread t).stat = .ready
  · have hne : t ≠ k.current := by
      rintro rfl
      exact h.current hs
    simp [hs, hne]
  · simp [hs]

/-- `rt_thread_startup` up to the call of `rt_thread_resume`. -/
theorem rtThreadStartup
    (hk : k.rtThreadStartup t = some k') : k'.Inv fun x => started x ∨ x = t := by
  unfold Kernel.rtThreadStartup at hk
  split_ifs at hk with hs
  cases hk
  have hset : (k.setThread t fun x =>
      { x with numberMask := bit x.currentPriority, stat := .suspend, yield := false }).Queues
      (fun x => started x ∨ x = t) k.key := by
    refine ⟨h.queues.holds, ?_, ?_⟩
    · intro x
      by_cases hx : x = t
      · rw [hx, setThread_self]
        exact h.queues.priority t
      · rw [setThread_of_ne hx]
        exact h.queues.priority x
    · rintro x hx
      by_cases hxt : x = t
      · rw [hxt, setThread_self]
      · rw [setThread_of_ne hxt]
        exact h.queues.mask x (hx.resolve_right hxt)
  refine ⟨⟨hset.holds.congr ?_, hset.priority, hset.mask⟩, ?_, ?_, ?_⟩
  · intro x
    by_cases hx : x = t
    · subst hx
      rw [key_of_ne, key_of_ne]
      · rw [hs]
        nofun
      · rw [setThread_self]
        nofun
    · rw [key, key, setThread_of_ne hx]
  · intro x
    by_cases hx : x = t
    · exact fun _ _ => .inr hx
    · rw [setThread_of_ne hx]
      exact fun h1 h2 => .inl (h.live x h1 h2)
  · by_cases hc : k.current = t
    · change ((k.setThread t _).thread k.current).stat ≠ _
      rw [hc, setThread_self]
      nofun
    · change ((k.setThread t _).thread k.current).stat ≠ _
      rw [setThread_of_ne hc]
      exact h.current
  · intro x
    by_cases hx : x = t
    · rw [hx, setThread_self]
      nofun
    · rw [setThread_of_ne hx]
      exact h.running x

theorem closeThread (hs : (k.thread t).stat ≠ .ready) : (k.closeThread t).Inv started := by
  unfold Kernel.closeThread
  have hset := h.queues.touch (t := t)
    (f := fun x => { x with timer := false, stat := .close, yield := false }) rfl rfl
  refine ⟨⟨hset.holds.congr ?_, hset.priority, hset.mask⟩, ?_, ?_, ?_⟩
  · intro x
    by_cases hx : x = t
    · subst hx
      rw [key_of_ne hs, key_of_ne]
      simp
    · simp [key, setThread_of_ne hx]
  · intro x
    by_cases hx : x = t
    · subst hx
      simp
    · simp only [setThread_of_ne hx]
      exact h.live x
  · by_cases hc : k.current = t
    · simp [hc]
    · simp only [setThread_current, setThread_of_ne hc]
      exact h.current
  · intro x
    by_cases hx : x = t
    · subst hx
      simp
    · simp only [setThread_current, setThread_of_ne hx]
      exact h.running x

theorem threadExit (ht : started k.current) : k.threadExit.Inv started :=
  (h.remove ht h.current).closeThread h.current

/-- Switching to a ready thread; the current one goes back to its queue when it is running. -/
theorem switchTo {b : Bool} (ht : (k.thread t).stat = .ready)
    (hb : b = true ↔ (k.thread k.current).stat = .running) : (k.switchTo t b).Inv started := by
  have hne : k.current ≠ t := fun he => h.current (he ▸ ht)
  have hst := h.live t (by rw [ht]; nofun) (by rw [ht]; nofun)
  have hmoved : Queues { k with current := t } started k.key :=
    ⟨h.queues.holds, h.queues.priority, h.queues.mask⟩
  unfold Kernel.switchTo
  cases b with
  | true =>
    have hrun := hb.mp rfl
    have hfrom := h.live k.current (by rw [hrun]; nofun) (by rw [hrun]; nofun)
    have hin := hmoved.insert hfrom (key_of_ne h.current)
    rw [if_neg hne] at hin
    have hrm := hin.remove hst fun p hp => by
      rw [update_of_ne hne.symm] at hp
      rw [insert_of_ne hne.symm]
      exact (key_eq_some hp).2.symm
    have hset := hrm.touch (t := t) (f := fun x => { x with stat := .running }) rfl rfl
    refine ⟨⟨hset.holds.congr ?_, hset.priority, hset.mask⟩, ?_, ?_, ?_⟩
    · intro x
      by_cases hx : x = t
      · subst hx
        rw [update_self, key_of_ne]
        simp
      · rw [update_of_ne hx]
        by_cases hxc : x = k.current
        · subst hxc
          rw [key_of_ready]
          · simp [setThread_of_ne hne]
          · simp [setThread_of_ne hne, hne]
        · rw [update_of_ne hxc]
          simp [key, setThread_of_ne hx, insert_of_ne hxc]
    · intro x
      by_cases hx : x = t
      · exact fun _ _ => hx ▸ hst
      · by_cases hxc : x = k.current
        · exact fun _ _ => hxc ▸ hfrom
        · simp only [setThread_of_ne hx, remove_thread, if_true, insert_of_ne hxc]
          exact h.live x
    · simp
    · intro x
      by_cases hx : x = t
      · exact fun _ => by simp [hx]
      · by_cases hxc : x = k.current
        · subst hxc
          simp [setThread_of_ne hne, hne]
        · simp only [setThread_of_ne hx, remove_thread, if_true, insert_of_ne hxc]
          exact fun hr => absurd (h.running x hr) hxc
  | false =>
    have hrun : (k.thread k.current).stat ≠ .running := fun hr => by cases hb.mpr hr
    have hrm := hmoved.remove hst fun p hp => (key_eq_some hp).2.symm
    have hset := hrm.touch (t := t) (f := fun x => { x with stat := .running }) rfl rfl
    refine ⟨⟨hset.holds.congr ?_, hset.priority, hset.mask⟩, ?_, ?_, ?_⟩
    · intro x
      by_cases hx : x = t
      · subst hx
        rw [update_self, key_of_ne]
        simp
      · rw [update_of_ne hx]
        simp [key, setThread_of_ne hx]
    · intro x
      by_cases hx : x = t
      · exact fun _ _ => hx ▸ hst
      · simp only [setThread_of_ne hx, Bool.false_eq_true, if_false, remove_thread]
        exact h.live x
    · simp
    · intro x
      by_cases hx : x = t
      · exact fun _ => by simp [hx]
      · simp only [setThread_of_ne hx, Bool.false_eq_true, if_false, remove_thread]
        intro hr
        exact absurd (h.running x hr ▸ hr) hrun

end

end Inv

/-- No ready thread is more urgent than the current one. -/
def Top (k : Kernel τ ω) : Prop :=
  ∀ t, (k.thread t).stat = .ready →
    (k.thread k.current).currentPriority ≤ (k.thread t).currentPriority

theorem switchTo_priority {k : Kernel τ ω} {t x : τ} :
    ((k.switchTo t b).thread x).currentPriority = (k.thread x).currentPriority := by
  have hins : ∀ y, ((Kernel.rtScheduleInsertThread { k with current := t } k.current).thread
      y).currentPriority = (k.thread y).currentPriority := by
    intro y
    by_cases hy : y = k.current
    · subst hy
      simp
    · rw [insert_of_ne hy]
  unfold switchTo
  by_cases hx : x = t
  · subst hx
    cases b
    · simp
    · simpa using hins x
  · cases b
    · simp [setThread_of_ne hx]
    · simpa [setThread_of_ne hx] using hins x

@[simp] theorem switchTo_current {k : Kernel τ ω} {t : τ} :
    (k.switchTo t b).current = t := by
  unfold switchTo
  cases b <;> simp

@[simp] theorem switchTo_self_stat (k : Kernel τ ω) (t : τ) (b : Bool) :
    ((k.switchTo t b).thread t).stat = .running := by
  unfold switchTo
  simp

/-- After a switch the ready threads are those before it and the one that was running. -/
theorem switchTo_ready {t x : τ} (h : ((k.switchTo t b).thread x).stat = .ready) :
    (k.thread x).stat = .ready ∨ b = true ∧ x = k.current := by
  have hx : x ≠ t := by
    rintro rfl
    rw [switchTo_self_stat] at h
    cases h
  unfold switchTo at h
  cases b with
  | false =>
    simp only [setThread_of_ne hx, Bool.false_eq_true, if_false, remove_thread] at h
    exact .inl h
  | true =>
    by_cases hxc : x = k.current
    · exact .inr ⟨rfl, hxc⟩
    · simp only [setThread_of_ne hx, if_true, remove_thread, insert_of_ne hxc] at h
      exact .inl h

/-- A switch to a most urgent thread leaves none more urgent behind. -/
theorem switchTo_top (hmin : ∀ x, (k.thread x).stat = .ready →
      (k.thread t).currentPriority ≤ (k.thread x).currentPriority)
    (hcur : b = true → (k.thread t).currentPriority ≤ (k.thread k.current).currentPriority) :
    (k.switchTo t b).Top := by
  intro x hx
  rw [switchTo_current, switchTo_priority, switchTo_priority]
  rcases switchTo_ready hx with hx | ⟨hb, rfl⟩
  · exact hmin x hx
  · exact hcur hb

/-- `rt_schedule` does nothing, lets the current thread run on, or switches to a ready thread. -/
theorem rtSchedule_cases {k k' : Kernel τ ω} (h : k.Inv started) (hk : k.rtSchedule = some k') :
    k' = k ∨
    ((k.thread k.current).stat = .running ∧
      k' = ((k.setThread k.current fun x => { x with yield := false }).rtScheduleRemoveThread
        k.current).setThread k.current fun x => { x with stat := .running }) ∨
    ∃ head, (k.thread head).stat = .ready ∧ head ≠ k.current ∧
      ((k.thread k.current).stat = .running ∧
          k' = (k.setThread k.current fun x => { x with yield := false }).switchTo head true ∨
        (k.thread k.current).stat ≠ .running ∧ k' = k.switchTo head false) := by
  unfold rtSchedule at hk
  by_cases hopen : k.schedulerLockNest = 0 ∧ k.ready.group ≠ 0
  · rw [if_pos hopen] at hk
    obtain ⟨p, head, rest, hffs, -, hqueue, hkey, -⟩ := h.queues.holds.lowest hopen.2
    have hready := (key_eq_some hkey).1
    have hne : head ≠ k.current := fun he => h.current (he ▸ hready)
    simp only [hffs, Nat.add_sub_cancel, hqueue] at hk
    by_cases hrun : (k.thread k.current).stat = .running
    · by_cases hstay : (k.thread k.current).currentPriority < p ∨
          (k.thread k.current).currentPriority = p ∧ (k.thread k.current).yield = false
      · simp only [hrun, decide_true, hstay, and_self, if_true, setThread_current, remove_current,
          ne_eq, not_true_eq_false, if_false] at hk
        cases hk
        exact .inr (.inl ⟨hrun, rfl⟩)
      · simp only [hrun, decide_true, hstay, and_false, decide_false, Bool.false_eq_true, if_false,
          if_true, setThread_current, ne_eq, hne, not_false_eq_true] at hk
        cases hk
        exact .inr (.inr ⟨head, hready, hne, .inl ⟨hrun, rfl⟩⟩)
    · simp only [hrun, decide_false, Bool.false_eq_true, false_and, if_false, ne_eq, hne,
        not_false_eq_true, if_true] at hk
      cases hk
      exact .inr (.inr ⟨head, hready, hne, .inr ⟨hrun, rfl⟩⟩)
  · rw [if_neg hopen] at hk
    cases hk
    exact .inl rfl

/-- `rt_schedule` returns, keeps the invariant, and leaves no ready thread more urgent than the
current one unless the scheduler is locked. -/
theorem Inv.rtSchedule (h : k.Inv started) :
    ∃ k', k.rtSchedule = some k' ∧ k'.Inv started ∧ (k.schedulerLockNest = 0 → k'.Top) ∧
      (k.schedulerLockNest = 0 → k.ready.group ≠ 0 → (k'.thread k'.current).stat = .running) := by
  unfold Kernel.rtSchedule
  by_cases hopen : k.schedulerLockNest = 0 ∧ k.ready.group ≠ 0
  · rw [if_pos hopen]
    obtain ⟨p, head, rest, hffs, hp, hqueue, hkey, hmin⟩ := h.queues.holds.lowest hopen.2
    obtain ⟨hready, hprio⟩ := key_eq_some hkey
    have hne : head ≠ k.current := fun he => h.current (he ▸ hready)
    have hmin' : ∀ t, (k.thread t).stat = .ready → p ≤ (k.thread t).currentPriority :=
      fun t ht => hmin t _ (key_of_ready ht)
    simp only [hffs, Nat.add_sub_cancel, hqueue]
    by_cases hrun : (k.thread k.current).stat = .running
    · have hclear := h.touch (t := k.current) (f := fun x => { x with yield := false }) rfl rfl rfl
      have hcur : ((k.setThread k.current fun x => { x with yield := false }).thread
          k.current).stat = .running := by simpa using hrun
      by_cases hstay : (k.thread k.current).currentPriority < p ∨
          (k.thread k.current).currentPriority = p ∧ (k.thread k.current).yield = false
      · -- the current thread stays
        have hst := h.live k.current (by rw [hrun]; nofun) (by rw [hrun]; nofun)
        have hinv := hclear.withdraw (t := k.current) (f := fun x => { x with stat := .running })
          hst nofun (fun _ => rfl) rfl rfl
        simp only [hrun, decide_true, hstay, and_self, if_true, setThread_current, remove_current,
          ne_eq, not_true_eq_false, if_false]
        refine ⟨_, rfl, hinv, ?_, ?_⟩
        · intro _ t ht
          have htc : t ≠ k.current := by
            rintro rfl
            simp at ht
          simp only [setThread_of_ne htc, remove_thread] at ht
          have := hmin' t ht
          simp only [setThread_current, remove_current, setThread_self, setThread_of_ne htc,
            remove_thread]
          omega
        · intro _ _
          simp
      · -- a more urgent or equal one takes over
        have hinv := hclear.switchTo (t := head) (b := true)
          (by rw [setThread_of_ne hne]; exact hready) (iff_of_true rfl hcur)
        simp only [hrun, decide_true, hstay, and_false, decide_false, Bool.false_eq_true, if_false,
          if_true, setThread_current, ne_eq, hne, not_false_eq_true]
        refine ⟨_, rfl, hinv, fun _ => switchTo_top ?_ ?_, fun _ _ => by simp⟩
        · intro x hx
          have hxc : x ≠ k.current := by
            rintro rfl
            rw [hcur] at hx
            cases hx
          rw [setThread_of_ne hne, setThread_of_ne hxc, hprio]
          rw [setThread_of_ne hxc] at hx
          exact hmin' x hx
        · intro _
          simp only [setThread_current, setThread_self, setThread_of_ne hne, hprio]
          omega
    · -- the current thread cannot go on
      have hinv := h.switchTo (t := head) (b := false) hready
        (iff_of_false Bool.false_ne_true hrun)
      simp only [hrun, decide_false, Bool.false_eq_true, false_and, if_false, ne_eq, hne,
        not_false_eq_true, if_true]
      refine ⟨_, rfl, hinv, fun _ => switchTo_top ?_ nofun, fun _ _ => by simp⟩
      intro x hx
      rw [hprio]
      exact hmin' x hx
  · rw [if_neg hopen]
    refine ⟨k, rfl, h, ?_, ?_⟩
    · intro hlock t ht
      have hg : k.ready.group = 0 := by
        by_contra hg
        exact hopen ⟨hlock, hg⟩
      have := h.queues.holds.group_eq_zero.mp hg t
      rw [key_of_ready ht] at this
      cases this
    · intro hlock hg
      exact absurd ⟨hlock, hg⟩ hopen

/-- The current thread changes in `rt_schedule` only. -/
theorem current_eq (t : τ) (priority : Nat) :
    (k.resume t).current = k.current ∧ k.suspend.current = k.current ∧
      (k.closeThread t).current = k.current ∧ k.rtThreadSuspend.current = k.current ∧
      (k.changePriority t priority).current = k.current ∧ k.tickSlice.1.current = k.current ∧
      ∀ k', k.threadTimeout t = some k' → k'.current = k.current := by
  refine ⟨?_, rfl, rfl, ?_, ?_, ?_, ?_⟩
  · simp [resume]
  · unfold rtThreadSuspend
    split_ifs <;> rfl
  · unfold changePriority
    split_ifs <;> simp
  · simp only [tickSlice]
    split_ifs <;> rfl
  · intro k' hk
    unfold threadTimeout at hk
    split_ifs at hk
    cases hk
    simp

/-- The thread that `rt_schedule` leaves running was running or ready. -/
theorem rtSchedule_current {k k' : Kernel τ ω} (h : k.Inv started) (hk : k.rtSchedule = some k') :
    k'.current = k.current ∨ (k.thread k'.current).stat = .ready := by
  rcases rtSchedule_cases h hk with rfl | ⟨-, rfl⟩ | ⟨head, hready, -, ⟨-, rfl⟩ | ⟨-, rfl⟩⟩
  · exact .inl rfl
  · exact .inl rfl
  all_goals exact .inr (by rw [switchTo_current]; exact hready)

end Kernel

end RtKernel

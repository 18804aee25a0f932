import RtKernel.Kernel.Background

/-!
# Suspend lists

The objects of inter-process communication suspend the current thread on a list
and resume the first one. A thread is in at most one of these lists: the list of
the object it has called, as long as it is suspended.
-/

open List

namespace RtKernel

/-- `RT_IPC_FLAG_FIFO` and `RT_IPC_FLAG_PRIO`. -/
inductive IpcFlag
  | fifo
  | prio
  deriving DecidableEq

namespace Kernel

variable {τ ω : Type*}

/-- The thread `a` is queued in front of `b` in a list ordered by priority. -/
def moreUrgent (k : Kernel τ ω) (a b : τ) : Prop :=
  (k.thread a).currentPriority < (k.thread b).currentPriority

instance (k : Kernel τ ω) : DecidableRel k.moreUrgent := fun _ _ => inferInstanceAs (Decidable (_ < _))

variable [DecidableEq τ] [DecidableEq ω]

/-- The part of `_ipc_list_suspend` that links the thread: at the end, or in front of the first
thread that is less urgent. -/
def ipcListInsert (k : Kernel τ ω) (list : List τ) (thread : τ) : IpcFlag → List τ
  | .fifo => list ++ [thread]
  | .prio => list.orderedInsert k.moreUrgent thread

/-- `_ipc_list_suspend` of the current thread. -/
def ipcListSuspend (k : Kernel τ ω) (w : ω) (flag : IpcFlag) : Kernel τ ω :=
  let thread := k.current
  let k := k.rtThreadSuspend
  { k with wait := Function.update k.wait w (k.ipcListInsert (k.wait w) thread flag) }

/-- `_ipc_list_resume`. -/
def ipcListResume (k : Kernel τ ω) (w : ω) : Option (Kernel τ ω) :=
  match k.wait w with
  | [] => none
  | thread :: _ => some (k.rtThreadResume thread)

/-- One turn of the loop of `_ipc_list_resume_all`. -/
def fail (k : Kernel τ ω) (thread : τ) : Kernel τ ω :=
  Kernel.rtThreadResume (k.setThread thread fun x => { x with error := .error }) thread

/-- `_ipc_list_resume_all`, for as many turns of its loop as there are threads in the list. -/
def ipcListResumeAll (k : Kernel τ ω) (w : ω) : Kernel τ ω :=
  go k (k.wait w).length
where
  go (k : Kernel τ ω) : Nat → Kernel τ ω
    | 0 => k
    | turns + 1 =>
        match k.wait w with
        | [] => k
        | thread :: _ => go (k.fail thread) turns

/-- Set the error of the current thread. -/
def setError (k : Kernel τ ω) (err : RtErr) : Kernel τ ω :=
  k.setThread k.current fun x => { x with error := err }

/-- Start the timer of the current thread for a timeout other than for ever. -/
def startTimer (k : Kernel τ ω) : Kernel τ ω := k.setThread k.current fun x => { x with timer := true }

/-- The common part of the blocking calls: the current thread forgets its last error, is suspended
on the list `w`, and starts its timer when it does not wait for ever. -/
def block (k : Kernel τ ω) (w : ω) (flag : IpcFlag) (timed : Bool) : Kernel τ ω :=
  let k := k.setThread k.current fun x => { x with error := .eok }
  let k := k.ipcListSuspend w flag
  if timed then k.startTimer else k

/-- The suspend lists hold the suspended threads that wait on them. -/
structure Waits (k : Kernel τ ω) (on : τ → Option ω) : Prop where
  mem : ∀ w t, t ∈ k.wait w ↔ (k.thread t).stat = .suspend ∧ on t = some w
  nodup : ∀ w, (k.wait w).Nodup
  /-- A thread that waits has not been given an error yet. -/
  error : ∀ t, (k.thread t).stat = .suspend → on t ≠ none → (k.thread t).error = .eok

section

variable {k : Kernel τ ω} {t : τ}

section

omit [DecidableEq ω]

theorem setError_setError (k : Kernel τ ω) (err err' : RtErr) :
    (k.setError err).setError err' = k.setError err' := by
  unfold setError setThread
  simp only [Function.update_self, Function.update_idem]

theorem resume_self : (k.resume t).thread t =
    { k.thread t with timer := false, stat := if t = k.current then .running else .ready } := by
  by_cases ht : t = k.current
  · simp [resume, ht]
  · simp [resume, ht]

theorem resume_of_ne {x : τ} (h : x ≠ t) : (k.resume t).thread x = k.thread x := by
  simp [resume, insert_of_ne h, setThread_of_ne h]

@[simp] theorem resume_wait : (k.resume t).wait = fun w => rtListRemove (k.wait w) t := by
  simp [resume]

@[simp] theorem resume_current : (k.resume t).current = k.current := by simp [resume]

@[simp] theorem resume_lock : (k.resume t).schedulerLockNest = k.schedulerLockNest := by
  simp [resume]

variable {k' : Kernel τ ω}

theorem threadTimeout_spec (h : k.threadTimeout t = some k') :
    (k.thread t).stat = .suspend ∧ k'.current = k.current ∧
      (k'.wait = fun w => rtListRemove (k.wait w) t) ∧
      k'.thread t = { k.thread t with
        timer := false, error := .etimeout
        stat := if t = k.current then .running else .ready } ∧
      ∀ x ≠ t, k'.thread x = k.thread x := by
  unfold threadTimeout at h
  split_ifs at h with hs
  cases h
  refine ⟨hs, by simp, by simp, ?_, ?_⟩
  · by_cases ht : t = k.current
    · simp [ht]
    · simp [ht]
  intro x hx
  simp [insert_of_ne hx, setThread_of_ne hx]

/-- What a turn of `_ipc_list_resume_all` does to its thread. -/
theorem fail_spec (hs : (k.thread t).stat = .suspend) :
    (k.fail t).current = k.current ∧ ((k.fail t).wait = fun w => rtListRemove (k.wait w) t) ∧
      (k.fail t).thread t = { k.thread t with
        timer := false, error := .error
        stat := if t = k.current then .running else .ready } ∧
      ∀ x ≠ t, (k.fail t).thread x = k.thread x := by
  have hfail : k.fail t = Kernel.resume (k.setThread t fun x => { x with error := .error }) t := by
    unfold fail rtThreadResume
    rw [if_pos]
    rw [setThread_self]
    exact hs
  rw [hfail]
  refine ⟨resume_current, resume_wait, ?_, ?_⟩
  · rw [resume_self, setThread_self]
    rfl
  · intro x hx
    rw [resume_of_ne hx, setThread_of_ne hx]

/-- What each turn of `_ipc_list_resume_all` keeps. -/
theorem ipcListResumeAll_rule {P : Kernel τ ω → Prop} {w : ω}
    (hturn : ∀ k t rest, P k → k.wait w = t :: rest → P (k.fail t)) (h : P k) :
    P (k.ipcListResumeAll w) := by
  unfold ipcListResumeAll
  generalize (k.wait w).length = turns
  induction turns generalizing k with
  | zero => exact h
  | succ turns ih =>
    unfold ipcListResumeAll.go
    cases hw : k.wait w with
    | nil => exact h
    | cons t rest => exact ih (hturn k t rest h hw)

/-- What `rt_thread_sleep` does to the current thread, when it is running. -/
theorem rtThreadSleep_spec (hrun : (k.thread k.current).stat = .running) :
    k.rtThreadSleep.current = k.current ∧
      (k.rtThreadSleep.wait = fun w => rtListRemove (k.wait w) k.current) ∧
      k.rtThreadSleep.thread k.current =
        { k.thread k.current with error := .eok, stat := .suspend, timer := true } ∧
      ∀ x ≠ k.current, k.rtThreadSleep.thread x = k.thread x := by
  obtain ⟨k₁, hk₁⟩ : ∃ k₁, k₁ = k.setThread k.current fun x => { x with error := .eok } := ⟨_, rfl⟩
  have hsus : k₁.rtThreadSuspend = k₁.suspend := by
    rw [rtThreadSuspend]
    simp [hk₁, hrun]
  have hsleep : k.rtThreadSleep =
      k₁.suspend.setThread k₁.suspend.current fun x => { x with timer := true } := by
    rw [← hsus, hk₁]
    rfl
  rw [hsleep]
  refine ⟨by simp [suspend, hk₁], by simp [suspend, hk₁], by simp [suspend, hk₁], ?_⟩
  intro x hx
  simp [suspend, hk₁, setThread_of_ne hx]

end

omit [DecidableEq τ] [DecidableEq ω] in
theorem ipcListInsert_perm (k : Kernel τ ω) (list : List τ) (thread : τ) (flag : IpcFlag) :
    (k.ipcListInsert list thread flag).Perm (thread :: list) := by
  cases flag with
  | fifo => exact perm_append_singleton _ _
  | prio => exact perm_orderedInsert _ _ _

/-- What blocking does to the current thread, when it is running. -/
theorem block_spec (w : ω) (flag : IpcFlag) (timed : Bool)
    (hrun : (k.thread k.current).stat = .running) : (k.block w flag timed).current = k.current ∧
      (k.block w flag timed).thread k.current =
        { k.thread k.current with error := .eok, stat := .suspend, timer := timed } ∧
      (∀ x ≠ k.current, (k.block w flag timed).thread x = k.thread x) ∧
      (∀ v ≠ w, (k.block w flag timed).wait v = rtListRemove (k.wait v) k.current) ∧
      ((k.block w flag timed).wait w).Perm (k.current :: rtListRemove (k.wait w) k.current) := by
  -- the kernel after the error is reset, and after the suspension
  obtain ⟨k₁, hk₁⟩ : ∃ k₁, k₁ = k.setThread k.current fun x => { x with error := .eok } := ⟨_, rfl⟩
  obtain ⟨k₂, hk₂⟩ : ∃ k₂, k₂ = k₁.rtThreadSuspend := ⟨_, rfl⟩
  have hself : k₁.thread k.current = { k.thread k.current with error := .eok } := by
    rw [hk₁, setThread_self]
  have hsus : k₂ = k₁.suspend := by
    rw [hk₂, rtThreadSuspend]
    simp [hk₁, hrun]
  have hcur : k₂.current = k.current := by simp [hsus, suspend, hk₁]
  have hthread : k₂.thread k.current =
      { k.thread k.current with error := .eok, stat := .suspend, timer := false } := by
    simp [hsus, suspend, hk₁]
  have hothers : ∀ x ≠ k.current, k₂.thread x = k.thread x := by
    intro x hx
    simp [hsus, suspend, hk₁, setThread_of_ne hx]
  have hwait : k₂.wait = fun v => rtListRemove (k.wait v) k.current := by
    simp [hsus, suspend, hk₁]
  obtain ⟨list, hlist⟩ : ∃ list, list = k₂.ipcListInsert (k₂.wait w) k.current flag := ⟨_, rfl⟩
  have hperm : list.Perm (k.current :: rtListRemove (k.wait w) k.current) := by
    have hp := k₂.ipcListInsert_perm (k₂.wait w) k.current flag
    rw [← hlist] at hp
    rwa [hwait] at hp
  have hblock : k.block w flag timed =
      let k := { k₂ with wait := Function.update k₂.wait w list }
      if timed then k.startTimer else k := by
    subst hlist hk₂ hk₁
    rfl
  rw [hblock]
  cases timed with
  | false =>
    refine ⟨hcur, hthread, hothers, ?_, ?_⟩
    · intro v hv
      exact (Function.update_of_ne hv ..).trans (congrFun hwait v)
    · change (Function.update k₂.wait w list w).Perm _
      rw [Function.update_self]
      exact hperm
  | true =>
    refine ⟨hcur, ?_, ?_, ?_, ?_⟩
    · simp [startTimer, hcur, hthread]
    · intro x hx
      simp [startTimer, hcur, setThread_of_ne hx, hothers x hx]
    · intro v hv
      exact (Function.update_of_ne hv ..).trans (congrFun hwait v)
    · change (Function.update k₂.wait w list w).Perm _
      rw [Function.update_self]
      exact hperm

end

section

variable {k : Kernel τ ω} {started : τ → Prop} (h : k.Inv started)
include h

omit [DecidableEq τ] [DecidableEq ω] in
/-- The invariant of the scheduler does not depend on the suspend lists. -/
theorem Inv.setWait (wait : ω → List τ) : Inv { k with wait := wait } started :=
  ⟨⟨h.queues.holds, h.queues.priority, h.queues.mask⟩, h.live, h.current, h.running⟩

/-- Suspending the current thread keeps the invariant of the scheduler. -/
theorem Inv.block (w : ω) (flag : IpcFlag) (timed : Bool) : (k.block w flag timed).Inv started := by
  have herror := h.touch (t := k.current) (f := fun x => { x with error := .eok }) rfl rfl rfl
  have hsuspend := herror.rtThreadSuspend
  cases timed with
  | false => exact hsuspend.setWait _
  | true => exact (hsuspend.setWait _).touch (f := fun x => { x with timer := true }) rfl rfl rfl

end

namespace Waits

variable {k : Kernel τ ω} {on : τ → Option ω}

section

omit [DecidableEq τ] [DecidableEq ω]

variable {t : τ}

section

variable (h : k.Waits on)
include h

/-- The first thread of a list is suspended on it. -/
theorem head {w : ω} {rest : List τ} (hw : k.wait w = t :: rest) :
    (k.thread t).stat = .suspend ∧ on t = some w ∧ (k.thread t).error = .eok := by
  have hmem := (h.mem w t).mp (hw ▸ mem_cons_self)
  refine ⟨hmem.1, hmem.2, h.error t hmem.1 ?_⟩
  rw [hmem.2]
  nofun

/-- Two assignments that agree on the suspended threads. -/
theorem congr {on' : τ → Option ω}
    (ho : ∀ t, (k.thread t).stat = .suspend → on' t = on t) : k.Waits on' := by
  refine ⟨?_, h.nodup, ?_⟩
  · intro w t
    rw [h.mem]
    constructor
    · rintro ⟨hs, hw⟩
      exact ⟨hs, (ho t hs).trans hw⟩
    · rintro ⟨hs, hw⟩
      exact ⟨hs, (ho t hs).symm.trans hw⟩
  · intro t hs hne
    exact h.error t hs (ho t hs ▸ hne)

theorem onlySuspended : k.OnlySuspended := fun w t ht => ((h.mem w t).mp ht).1

theorem calm (hc : k.Calm k') : k'.Waits on := by
  refine ⟨?_, ?_, ?_⟩
  · intro w t
    rw [hc.wait, hc.suspended]
    exact h.mem w t
  · intro w
    rw [hc.wait]
    exact h.nodup w
  · intro t hs hne
    rw [hc.error]
    exact h.error t ((hc.suspended t).mp hs) hne

end

end

section

omit [DecidableEq ω]

section

variable (h : k.Waits on) {k' : Kernel τ ω}
include h

theorem setThread {f : RtThread → RtThread}
    (ht : (k.thread t).stat ≠ .suspend) (hf : (f (k.thread t)).stat ≠ .suspend) :
    (k.setThread t f).Waits on := by
  refine ⟨?_, h.nodup, ?_⟩
  · intro w x
    rw [setThread_wait, h.mem]
    by_cases hx : x = t
    · rw [hx, setThread_self]
      exact iff_of_false (fun hc => ht hc.1) fun hc => hf hc.1
    · rw [setThread_of_ne hx]
  · intro x hs hne
    by_cases hx : x = t
    · rw [hx, setThread_self] at hs
      exact absurd hs hf
    · rw [setThread_of_ne hx] at hs ⊢
      exact h.error x hs hne

/-- `_ipc_list_resume` resumes the first thread of the list. -/
theorem ipcListResume {w : ω} (hk : k.ipcListResume w = some k') :
    ∃ t rest, k.wait w = t :: rest ∧ k' = k.resume t := by
  unfold Kernel.ipcListResume at hk
  cases hw : k.wait w with
  | nil =>
    rw [hw] at hk
    cases hk
  | cons t rest =>
    rw [hw] at hk
    cases hk
    exact ⟨t, rest, rfl, by rw [rtThreadResume, if_pos (h.head hw).1]⟩

/-- A thread leaves its list and is suspended no longer; the others stay as they are. -/
theorem leave
    (hw : k'.wait = fun w => rtListRemove (k.wait w) t) (ht : (k'.thread t).stat ≠ .suspend)
    (ho : ∀ x ≠ t, (k'.thread x).stat = .suspend →
      (k.thread x).stat = .suspend ∧ (k'.thread x).error = (k.thread x).error)
    (ho' : ∀ x ≠ t, (k.thread x).stat = .suspend → (k'.thread x).stat = .suspend) :
    k'.Waits on := by
  refine ⟨?_, ?_, ?_⟩
  · intro w x
    rw [hw, mem_rtListRemove, h.mem]
    by_cases hx : x = t
    · subst hx
      exact iff_of_false (fun hc => hc.2 rfl) fun hc => ht hc.1
    · constructor
      · rintro ⟨⟨hs, hon⟩, -⟩
        exact ⟨ho' x hx hs, hon⟩
      · rintro ⟨hs, hon⟩
        exact ⟨⟨(ho x hx hs).1, hon⟩, hx⟩
  · intro w
    rw [hw]
    exact (h.nodup w).sublist (rtListRemove_sublist _)
  · intro x hs hne
    have hx : x ≠ t := by
      rintro rfl
      exact ht hs
    obtain ⟨hs', he⟩ := ho x hx hs
    rw [he]
    exact h.error x hs' hne

theorem resume (t : τ) : (k.resume t).Waits on := by
  apply h.leave (t := t) resume_wait
  · rw [resume_self]
    by_cases ht : t = k.current
    · simp [ht]
    · simp [ht]
  · intro x hx hs
    rw [resume_of_ne hx] at hs ⊢
    exact ⟨hs, rfl⟩
  · intro x hx hs
    rw [resume_of_ne hx]
    exact hs

theorem threadTimeout (hk : k.threadTimeout t = some k') : k'.Waits on := by
  obtain ⟨-, -, hwait, hself, hother⟩ := threadTimeout_spec hk
  apply h.leave (t := t) hwait
  · rw [hself]
    by_cases ht : t = k.current
    · simp [ht]
    · simp [ht]
  · intro x hx hs
    rw [hother x hx] at hs ⊢
    exact ⟨hs, rfl⟩
  · intro x hx hs
    rw [hother x hx]
    exact hs

theorem fail (ht : (k.thread t).stat = .suspend) : (k.fail t).Waits on := by
  obtain ⟨-, hwait, hself, hother⟩ := fail_spec ht
  apply h.leave (t := t) hwait
  · rw [hself]
    by_cases ht : t = k.current
    · simp [ht]
    · simp [ht]
  · intro x hx hs
    rw [hother x hx] at hs ⊢
    exact ⟨hs, rfl⟩
  · intro x hx hs
    rw [hother x hx]
    exact hs

/-- `_ipc_list_resume_all` leaves nobody in the list. -/
theorem ipcListResumeAll (w : ω) : (k.ipcListResumeAll w).wait w = [] := by
  unfold Kernel.ipcListResumeAll
  obtain ⟨turns, hturns⟩ : ∃ turns, turns = (k.wait w).length := ⟨_, rfl⟩
  rw [← hturns]
  induction turns generalizing k with
  | zero => exact eq_nil_of_length_eq_zero hturns.symm
  | succ turns ih =>
    unfold Kernel.ipcListResumeAll.go
    cases hw : k.wait w with
    | nil => exact hw
    | cons t rest =>
      have hs := (h.head hw).1
      have hnodup := h.nodup w
      rw [hw, nodup_cons] at hnodup
      have hrest : (k.fail t).wait w = rest := by
        rw [(fail_spec hs).2.1]
        simp only [hw, rtListRemove_cons_self hnodup.1]
      refine ih (h.fail hs) ?_
      rw [hw, length_cons] at hturns
      rw [hrest]
      omega

/-- The current thread, running until now, goes to sleep outside of any call. -/
theorem rtThreadSleep (hrun : (k.thread k.current).stat = .running)
    (hon : on k.current = none) : k.rtThreadSleep.Waits on := by
  obtain ⟨-, hwait, hself, hother⟩ := rtThreadSleep_spec hrun
  have hnot : (k.thread k.current).stat ≠ .suspend := by
    rw [hrun]
    nofun
  rw [h.onlySuspended.remove hnot] at hwait
  refine ⟨?_, ?_, ?_⟩
  · intro w t
    rw [hwait, h.mem]
    by_cases ht : t = k.current
    · rw [ht, hon]
      exact iff_of_false (fun hc => by cases hc.2) fun hc => by cases hc.2
    · rw [hother t ht]
  · intro w
    rw [hwait]
    exact h.nodup w
  · intro t hs hne
    have ht : t ≠ k.current := by
      rintro rfl
      exact hne hon
    rw [hother t ht] at hs ⊢
    exact h.error t hs hne

end

end

/-- The current thread, running until now, is suspended on `w`. -/
theorem block (h : k.Waits on) {w : ω} {flag : IpcFlag} {timed : Bool}
    (hrun : (k.thread k.current).stat = .running) :
    (k.block w flag timed).Waits (Function.update on k.current (some w)) := by
  obtain ⟨-, hself, hother, hwait, hperm⟩ := block_spec w flag timed hrun
  have hnot : ∀ v, k.current ∉ k.wait v := by
    intro v hv
    rw [h.mem, hrun] at hv
    cases hv.1
  have hsame : ∀ v, rtListRemove (k.wait v) k.current = k.wait v := fun v =>
    rtListRemove_of_notMem (hnot v)
  rw [hsame] at hperm
  refine ⟨?_, ?_, ?_⟩
  · intro v x
    by_cases hv : v = w
    · subst hv
      rw [hperm.mem_iff, mem_cons]
      by_cases hx : x = k.current
      · simp [hx, hself]
      · rw [hother x hx, h.mem]
        simp [hx]
    · rw [hwait v hv, hsame, h.mem]
      by_cases hx : x = k.current
      · have hne : ¬ w = v := fun he => hv he.symm
        simp [hx, hself, hne, hrun]
      · rw [hother x hx, Function.update_of_ne hx]
  · intro v
    by_cases hv : v = w
    · subst hv
      exact hperm.nodup_iff.mpr (nodup_cons.mpr ⟨hnot v, h.nodup v⟩)
    · rw [hwait v hv, hsame]
      exact h.nodup v
  · intro x hs hne
    by_cases hx : x = k.current
    · rw [hx, hself]
    · rw [hother x hx] at hs ⊢
      rw [Function.update_of_ne hx] at hne
      exact h.error x hs hne

end Waits

end Kernel

end RtKernel

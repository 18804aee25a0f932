import RtKernel.Ipc.Wait

/-!
# Calls under way

A thread may be interrupted between the locked parts of a call, so beside the
kernel there is the call each thread is in. What the calls of an object have in
common is proved here once: `κ` are the calls, and `waitsOn` tells for which
suspend list a call has been suspended.
-/

namespace RtKernel

open Kernel Option

/-- How the locked part of a call ends: the value to return, or a suspended thread. -/
inductive Outcome
  | returns (err : RtErr)
  | waits
  deriving DecidableEq

/-- The threads and the calls they are in. -/
structure Callers (τ ω κ : Type*) where
  kernel : Kernel τ ω
  /-- The call each thread is in. -/
  call : τ → Option κ

namespace Callers

variable {τ ω κ : Type*} [DecidableEq τ]

/-- The current thread runs. -/
def Running (s : Callers τ ω κ) : Prop := (s.kernel.thread s.kernel.current).stat = .running

instance (s : Callers τ ω κ) : Decidable s.Running := inferInstanceAs (Decidable (_ = _))

/-- The current thread runs and is in no call. -/
def Free (s : Callers τ ω κ) : Prop := s.Running ∧ (s.call s.kernel.current).isNone

instance (s : Callers τ ω κ) : Decidable s.Free := inferInstanceAs (Decidable (_ ∧ _))

/-- The current thread enters a call, goes on to another part of it, or leaves it. -/
def enter (s : Callers τ ω κ) (c : Option κ) : Callers τ ω κ :=
  { s with call := Function.update s.call s.kernel.current c }

/-- The timer of a thread expires. -/
def timeout (s : Callers τ ω κ) (t : τ) : Option (Callers τ ω κ) :=
  if (s.kernel.thread t).timer then (s.kernel.threadTimeout t).map fun k => { s with kernel := k }
  else none

/-- A background step. -/
def background (s : Callers τ ω κ) (b : Background τ) : Option (Callers τ ω κ) :=
  (s.kernel.background b).map fun k => { s with kernel := k }

/-- The suspend list that a thread waits on, or has waited on. -/
def on (waitsOn : κ → Option ω) (s : Callers τ ω κ) (t : τ) : Option ω := (s.call t).bind waitsOn

/-- The scheduler is consistent, and the suspend lists hold the threads that wait in a call. -/
structure Ok (waitsOn : κ → Option ω) (s : Callers τ ω κ) : Prop where
  inv : ∃ started, s.kernel.Inv started
  waits : s.kernel.Waits (s.on waitsOn)

variable {t : τ}

@[simp] theorem enter_kernel (s : Callers τ ω κ) (c) : (s.enter c).kernel = s.kernel := rfl
@[simp] theorem enter_call_self (s : Callers τ ω κ) (c) : (s.enter c).call s.kernel.current = c :=
  Function.update_self ..
theorem enter_call_of_ne (s : Callers τ ω κ) (c) (h : t ≠ s.kernel.current) :
    (s.enter c).call t = s.call t := Function.update_of_ne h ..

theorem timeout_cases {s s' : Callers τ ω κ} (h : s.timeout t = some s') :
    ∃ k, s.kernel.threadTimeout t = some k ∧ s' = { s with kernel := k } := by
  unfold timeout at h
  split_ifs at h
  obtain ⟨k, hk, rfl⟩ := map_eq_some_iff.mp h
  exact ⟨k, hk, rfl⟩

theorem background_cases {s s' : Callers τ ω κ} {b : Background τ} (h : s.background b = some s') :
    ∃ k, s.kernel.background b = some k ∧ s' = { s with kernel := k } := by
  obtain ⟨k, hk, rfl⟩ := map_eq_some_iff.mp h
  exact ⟨k, hk, rfl⟩

variable {s : Callers τ ω κ}

omit [DecidableEq τ] in
theorem Free.call_eq (h : s.Free) : s.call s.kernel.current = none :=
  isNone_iff_eq_none.mp h.2

omit [DecidableEq τ] in
theorem Free.on_eq (h : s.Free) (waitsOn : κ → Option ω) :
    s.on waitsOn s.kernel.current = none := by
  unfold on
  rw [h.call_eq]
  rfl

/-- Resuming another thread, the current one stays free. -/
theorem Free.resume (h : s.Free)
    (ht : (s.kernel.thread t).stat = .suspend) : Free { s with kernel := s.kernel.resume t } := by
  have hne : s.kernel.current ≠ t := by
    rintro rfl
    cases h.1.symm.trans ht
  refine ⟨?_, ?_⟩
  · simp only [Running, resume_current]
    rw [resume_of_ne hne]
    exact h.1
  · simp only [resume_current]
    exact h.2

namespace Ok

variable {waitsOn : κ → Option ω}

omit [DecidableEq τ] in
theorem start (hinv : ∃ started, s.kernel.Inv started) (hwait : ∀ x, s.kernel.wait x = [])
    (hcall : ∀ t, s.call t = none) : s.Ok waitsOn := by
  have hon : ∀ t, s.on waitsOn t = none := by
    intro t
    unfold on
    rw [hcall]
    rfl
  refine ⟨hinv, ?_, ?_, ?_⟩
  · intro x t
    rw [hwait, hon]
    simp
  · intro x
    rw [hwait]
    exact List.nodup_nil
  · intro t _ hne
    exact absurd (hon t) hne

section

variable (h : s.Ok waitsOn)
include h

omit [DecidableEq τ] in
/-- The first thread of a list is suspended in a call that waits on it. -/
theorem head {x : ω} {rest : List τ} (hw : s.kernel.wait x = t :: rest) :
    (s.kernel.thread t).stat = .suspend ∧ (s.kernel.thread t).error = .eok ∧
      ∃ c, s.call t = some c ∧ waitsOn c = some x := by
  obtain ⟨hs, hon, he⟩ := h.waits.head hw
  exact ⟨hs, he, bind_eq_some_iff.mp hon⟩

theorem enter (hrun : s.Running) (c : Option κ) : (s.enter c).Ok waitsOn := by
  refine ⟨h.inv, h.waits.congr ?_⟩
  intro t hs
  have ht : t ≠ s.kernel.current := by
    rintro rfl
    cases hrun.symm.trans hs
  unfold on
  rw [enter_call_of_ne _ _ ht]

theorem block [DecidableEq ω] (hrun : s.Running) {x : ω} {c : κ}
    (hc : waitsOn c = some x) (flag : IpcFlag) (timed : Bool) :
    (Callers.enter { s with kernel := s.kernel.block x flag timed } (some c)).Ok waitsOn := by
  obtain ⟨started, hinv⟩ := h.inv
  obtain ⟨hcur, -⟩ := block_spec x flag timed hrun
  refine ⟨⟨started, hinv.block x flag timed⟩, (h.waits.block hrun).congr ?_⟩
  intro t _
  unfold on Callers.enter
  simp only [hcur]
  by_cases ht : t = s.kernel.current
  · rw [ht, Function.update_self, Function.update_self]
    exact hc
  · rw [Function.update_of_ne ht, Function.update_of_ne ht]

theorem resume (ht : (s.kernel.thread t).stat = .suspend) :
    Ok waitsOn { s with kernel := s.kernel.resume t } := by
  obtain ⟨started, hinv⟩ := h.inv
  have hst := hinv.live t (by rw [ht]; nofun) (by rw [ht]; nofun)
  exact ⟨⟨started, hinv.resume hst⟩, h.waits.resume t⟩

end

variable {k : Kernel τ ω}

section

variable (h : s.Ok waitsOn)
include h

theorem timeout (hk : s.kernel.threadTimeout t = some k) : Ok waitsOn { s with kernel := k } := by
  obtain ⟨started, hinv⟩ := h.inv
  exact ⟨⟨started, hinv.threadTimeout hk⟩, h.waits.threadTimeout hk⟩

theorem touch (hrun : s.Running) {f : RtThread → RtThread}
    (hs : ∀ x, (f x).stat = x.stat) (hp : ∀ x, (f x).currentPriority = x.currentPriority)
    (hm : ∀ x, (f x).numberMask = x.numberMask) :
    Ok waitsOn { s with kernel := s.kernel.setThread s.kernel.current f } := by
  obtain ⟨started, hinv⟩ := h.inv
  have hnot : (s.kernel.thread s.kernel.current).stat ≠ .suspend := by
    rw [hrun]
    nofun
  refine ⟨⟨started, hinv.touch (hs _) (hp _) (hm _)⟩, h.waits.setThread hnot ?_⟩
  rw [hs]
  exact hnot

/-- A thread that is free stays so when priorities change. -/
theorem free_changePriority (hfree : s.Free) (t : τ) (priority : Nat) :
    Free { s with kernel := s.kernel.changePriority t priority } := by
  obtain ⟨started, hinv⟩ := h.inv
  refine ⟨?_, ?_⟩
  · unfold Running
    rw [changePriority_current]
    by_cases ht : s.kernel.current = t
    · subst ht
      rw [hinv.changePriority_self]
      exact hfree.1
    · rw [changePriority_of_ne ht]
      exact hfree.1
  · rw [changePriority_current]
    exact hfree.2

theorem changePriority (t : τ) {priority : Nat} (hp : priority < 32) :
    Ok waitsOn { s with kernel := s.kernel.changePriority t priority } := by
  obtain ⟨started, hinv⟩ := h.inv
  have hcalm := calm_changePriority h.waits.onlySuspended t priority
  exact ⟨⟨started, hinv.changePriority t hp⟩, h.waits.calm hcalm⟩

omit [DecidableEq τ] in
/-- A change of the kernel that nobody who waits notices. -/
theorem calm (hinv : ∃ started, k.Inv started)
    (hk : s.kernel.Calm k) : Ok waitsOn { s with kernel := k } := ⟨hinv, h.waits.calm hk⟩

theorem background {b : Background τ} (hk : s.kernel.background b = some k) :
    s.kernel.Calm k ∧ Ok waitsOn { s with kernel := k } := by
  obtain ⟨started, hinv⟩ := h.inv
  have hcalm := calm_background hinv h.waits.onlySuspended hk
  exact ⟨hcalm, h.calm ⟨started, hinv.background hk⟩ hcalm⟩

end

end Ok

end Callers

end RtKernel

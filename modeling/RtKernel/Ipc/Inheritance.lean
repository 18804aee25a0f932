import Mathlib.Data.Fintype.Basic
import RtKernel.Ipc.Mutex

/-!
# Priority inheritance

An owner is lent the priority of who waits for its mutex, and each mutex keeps
the priority that its owner had when it got it. Two questions are settled here
over all runs: when a thread without a mutex has its own priority again, and when
an owner is at least as urgent as every thread that waits for it.
-/

namespace RtKernel.Mutex.Sys

open Kernel List Option

variable {τ ω : Type*} [DecidableEq τ] [DecidableEq ω] {s s' : Sys τ ω}

/-- The current priority of a thread. -/
def priority (s : Sys τ ω) (t : τ) : Nat := (s.kernel.thread t).currentPriority

/-- A step that leaves the priorities and the owners as they are, and adds no waiter. -/
structure Still (s s' : Sys τ ω) : Prop where
  priority : ∀ t, s'.priority t = s.priority t
  base : s'.base = s.base
  owner : ∀ x, (s'.mutex x).owner = (s.mutex x).owner
  wait : ∀ x t, t ∈ s'.kernel.wait x → t ∈ s.kernel.wait x

section

omit [DecidableEq ω]

theorem setError_priority (k : Kernel τ ω) (err : RtErr) (t : τ) :
    ((setError k err).thread t).currentPriority = (k.thread t).currentPriority :=
  setThread_priority (h := rfl) ..

section

variable {k : Kernel τ ω} {started : τ → Prop} (h : k.Inv started)
include h

theorem lend_priority (owner t : τ) : ((lend k owner).thread t).currentPriority =
      if t = owner then min (k.thread k.current).currentPriority (k.thread owner).currentPriority
      else (k.thread t).currentPriority := by
  unfold lend
  by_cases hlt : (k.thread k.current).currentPriority < (k.thread owner).currentPriority
  · rw [if_pos hlt]
    by_cases ht : t = owner
    · subst ht
      rw [h.changePriority_self, if_pos rfl]
      exact (Nat.min_eq_left hlt.le).symm
    · rw [changePriority_of_ne ht, if_neg ht]
  · rw [if_neg hlt]
    by_cases ht : t = owner
    · subst ht
      rw [if_pos rfl]
      exact (Nat.min_eq_right (Nat.le_of_not_lt hlt)).symm
    · rw [if_neg ht]

theorem restore_priority (p : Nat) (t : τ) : ((restore k p).thread t).currentPriority =
      if t = k.current then p else (k.thread t).currentPriority := by
  unfold restore
  by_cases hp : p ≠ (k.thread k.current).currentPriority
  · rw [if_pos hp]
    by_cases ht : t = k.current
    · subst ht
      rw [h.changePriority_self, if_pos rfl]
    · rw [changePriority_of_ne ht, if_neg ht]
  · rw [if_neg hp]
    by_cases ht : t = k.current
    · rw [if_pos ht, not_not.mp hp, ht]
    · rw [if_neg ht]

end

end

section

variable (h : s.Good)
include h

theorem Good.current_notMem (hfree : s.Free) (y : ω) : s.kernel.current ∉ s.kernel.wait y := by
  intro hy
  cases hfree.1.symm.trans (h.ok.waits.onlySuspended y _ hy)

theorem take_effect {x : ω} {timeout : Int} (hstep : Step s (.take x timeout) s') :
    (s.Still s' ∧ ((s.mutex x).owner = some s.kernel.current ∨ timeout = 0)) ∨
    ((s.mutex x).owner = none ∧ (∀ t, s'.priority t = s.priority t) ∧ s'.base = s.base ∧
      (∀ y, (s'.mutex y).owner = if y = x then some s.kernel.current else (s.mutex y).owner) ∧
      ∀ y, s'.kernel.wait y = s.kernel.wait y) ∨
    ∃ owner, (s.mutex x).owner = some owner ∧ owner ≠ s.kernel.current ∧ timeout ≠ 0 ∧
      s'.base = s.base ∧ s'.mutex = s.mutex ∧ (∀ y, s.kernel.current ∉ s.kernel.wait y) ∧
      (∀ t, s'.priority t =
        if t = owner then min (s.priority s.kernel.current) (s.priority owner) else s.priority t) ∧
      ∀ y t, t ∈ s'.kernel.wait y ↔ t ∈ s.kernel.wait y ∨ y = x ∧ t = s.kernel.current := by
  rw [Step, exec] at hstep
  split_ifs at hstep with hfree
  have hnot := h.current_notMem hfree
  obtain ⟨⟨k, m, outcome⟩, hk, rfl⟩ := map_eq_some_iff.mp hstep
  rcases rtMutexTake_cases (h.mutex x) hk with ⟨howner, rfl, -, rfl, rfl⟩ | ⟨howner, rfl, rfl, rfl⟩ |
    ⟨err, hwhy, rfl, rfl, herr, hk'⟩ | ⟨owner, howner, hne, htimeout, rfl, rfl, rfl⟩
  · refine .inl ⟨⟨setError_priority s.kernel .eok, rfl, ?_, fun _ _ => id⟩, .inl howner⟩
    intro y
    by_cases hy : y = x
    · subst hy
      simp [enter]
    · simp [enter, store_mutex_of_ne _ _ _ hy]
  · refine .inr (.inl ⟨howner, setError_priority s.kernel .eok, rfl, ?_, fun _ => rfl⟩)
    intro y
    by_cases hy : y = x
    · subst hy
      simp [enter]
    · simp [enter, store_mutex_of_ne _ _ _ hy, hy]
  · have hstill : s.Still { s with kernel := k } := by
      rcases hk' with rfl | rfl
      · exact ⟨setError_priority s.kernel .eok, rfl, fun _ => rfl, fun _ _ => id⟩
      · refine ⟨?_, rfl, fun _ => rfl, fun _ _ => id⟩
        intro t
        exact (setError_priority _ _ t).trans (setError_priority s.kernel .eok t)
    rw [← store_mutex s x k] at hstill
    cases err with
    | eok => exact absurd rfl herr
    | _ => exact .inl ⟨hstill, hwhy⟩
  · obtain ⟨hcur₁, hwait₁, hok₁, hfree₁, hthread₁⟩ := h.setError_facts hfree .eok
    obtain ⟨hcur₂, -, hfree₂, hcalm⟩ := Good.lend_facts hok₁ hfree₁ owner
    obtain ⟨started, hinv₁⟩ := hok₁.inv
    have hlend := lend_priority hinv₁ owner
    have hwait₂ : (lend (setError s.kernel .eok) owner).wait = s.kernel.wait := hcalm.wait
    have hcur : (lend (setError s.kernel .eok) owner).current = s.kernel.current := hcur₂
    generalize lend (setError s.kernel .eok) owner = k₂ at hlend hwait₂ hcur hfree₂ ⊢
    obtain ⟨-, hself, hother, hwait, hperm⟩ :=
      block_spec x .prio (0 < timeout) hfree₂.1
    rw [hwait₂] at hwait hperm
    rw [hcur] at hself hother hwait hperm
    refine .inr (.inr ⟨owner, howner, hne, htimeout, rfl, ?_, hnot, ?_, ?_⟩)
    · exact Function.update_eq_self x s.mutex
    · intro t
      have hblock : ((k₂.block x .prio (0 < timeout)).thread t).currentPriority =
          (k₂.thread t).currentPriority := by
        by_cases ht : t = s.kernel.current
        · rw [ht, hself]
        · rw [hother t ht]
      have hprio : ∀ z, ((setError s.kernel .eok).thread z).currentPriority = s.priority z :=
        setError_priority s.kernel .eok
      have hl := hlend t
      rw [hprio, hprio, hprio] at hl
      exact hblock.trans hl
    · intro y t
      change t ∈ (k₂.block x .prio (0 < timeout)).wait y ↔ _
      by_cases hy : y = x
      · subst hy
        rw [hperm.mem_iff, rtListRemove_of_notMem (hnot y)]
        simp [or_comm]
      · rw [hwait y hy, rtListRemove_of_notMem (hnot y)]
        simp [hy]

theorem release_effect {x : ω} (hstep : Step s (.release x) s') :
    (s.Still s' ∧ ((s.mutex x).owner ≠ some s.kernel.current ∨ (s.mutex x).hold ≠ 1)) ∨
    ((s.mutex x).owner = some s.kernel.current ∧ (s.mutex x).hold = 1 ∧ s'.base = s.base ∧
      (∀ y, s.kernel.current ∉ s.kernel.wait y) ∧
      (∀ t, s'.priority t =
        if t = s.kernel.current then (s.mutex x).originalPriority else s.priority t) ∧
      (∀ y, (s'.mutex y).owner = if y = x then (s.kernel.wait x).head? else (s.mutex y).owner) ∧
      ∀ y t, t ∈ s'.kernel.wait y ↔ t ∈ s.kernel.wait y ∧ (s.kernel.wait x).head? ≠ some t) := by
  rw [Step, exec] at hstep
  split_ifs at hstep with hfree
  obtain ⟨started, hinv⟩ := h.ok.inv
  have hp : (s.mutex x).owner ≠ none → (s.mutex x).originalPriority < 32 := by
    intro ho
    rcases h.mutex x with ⟨-, ho', -⟩ | ⟨-, -, -, -, hp⟩
    · exact absurd ho' ho
    · exact hp
  rcases rtMutexRelease_cases (h.mutex x) x with ⟨howner, heq⟩ | ⟨howner, hhold, heq⟩ |
    ⟨t, rest, howner, hhold, hwait, heq⟩ | ⟨howner, hhold, hwait, heq⟩
  · rw [heq] at hstep
    simp only [reduceCtorEq, if_false, store_mutex] at hstep
    cases hstep
    exact .inl ⟨⟨setError_priority s.kernel .error, rfl, fun _ => rfl, fun _ _ => id⟩, .inl howner⟩
  · rw [heq] at hstep
    cases hstep
    refine .inl ⟨⟨fun _ => rfl, rfl, ?_, fun _ _ => id⟩, .inr (by omega)⟩
    intro y
    by_cases hy : y = x
    · subst hy
      simp [enter]
    · simp [enter, store_mutex_of_ne _ _ _ hy]
  · have hne : (s.mutex x).owner ≠ none := by
      rw [howner]
      exact some_ne_none _
    obtain ⟨hcur, hok, -, hcalm⟩ := Good.restore_facts h.ok hfree (hp hne)
    have hrestore := restore_priority hinv (s.mutex x).originalPriority
    obtain ⟨hs, -⟩ := hok.head hwait
    rw [heq] at hstep
    cases hstep
    rw [hcalm.wait] at hwait
    have hwait' : (restore s.kernel (s.mutex x).originalPriority).wait = s.kernel.wait := hcalm.wait
    generalize restore s.kernel (s.mutex x).originalPriority = k₁ at hrestore hs hcur hwait' ⊢
    have hresume : k₁.rtThreadResume t = k₁.resume t := if_pos hs
    rw [hresume, hwait]
    refine .inr ⟨howner, hhold, rfl, h.current_notMem hfree, ?_, ?_, ?_⟩
    · intro z
      have hr : ((k₁.resume t).thread z).currentPriority = (k₁.thread z).currentPriority := by
        by_cases hz : z = t
        · rw [hz, resume_self]
        · rw [resume_of_ne hz]
      exact hr.trans (hrestore z)
    · intro y
      by_cases hy : y = x
      · subst hy
        simp [enter]
      · simp [enter, store_mutex_of_ne _ _ _ hy, hy]
    · intro y z
      change z ∈ (k₁.resume t).wait y ↔ _
      rw [resume_wait, hwait']
      simp [eq_comm]
  · have hne : (s.mutex x).owner ≠ none := by
      rw [howner]
      exact some_ne_none _
    obtain ⟨hcur, hok, -, hcalm⟩ := Good.restore_facts h.ok hfree (hp hne)
    have hrestore := restore_priority hinv (s.mutex x).originalPriority
    have hwait' : (restore s.kernel (s.mutex x).originalPriority).wait = s.kernel.wait := hcalm.wait
    rw [heq] at hstep
    cases hstep
    rw [hwait'] at hwait
    rw [hwait]
    refine .inr ⟨howner, hhold, rfl, h.current_notMem hfree, hrestore, ?_, ?_⟩
    · intro y
      by_cases hy : y = x
      · subst hy
        simp [enter, rtMutexInit]
      · simp [enter, store_mutex_of_ne _ _ _ hy, hy]
    · intro y z
      change z ∈ (restore s.kernel (s.mutex x).originalPriority).wait y ↔ _
      rw [hwait']
      simp

theorem other_effect {a : Act τ ω} (hstep : Step s a s') : match a with
    | .take _ _ | .release _ => True
    | .background (.changePriority t priority) =>
        (∀ z, s'.priority z = if z = t then priority else s.priority z) ∧
          (∀ z, s'.base z = if z = t then priority else s.base z) ∧
          ∀ x, (s'.mutex x).owner = (s.mutex x).owner
    | _ => s.Still s' := by
  obtain ⟨started, hinv⟩ := h.ok.inv
  cases a with
  | take x timeout => trivial
  | release x => trivial
  | ret =>
    rw [Step, exec] at hstep
    split_ifs at hstep
    obtain ⟨c, -, rfl⟩ := map_eq_some_iff.mp hstep
    exact ⟨fun _ => rfl, rfl, fun _ => rfl, fun _ _ => id⟩
  | timeout t =>
    obtain ⟨c, hc, rfl⟩ := map_eq_some_iff.mp hstep
    obtain ⟨k, hk, rfl⟩ := Callers.timeout_cases hc
    obtain ⟨-, -, hwait, hself, hother⟩ := threadTimeout_spec hk
    refine ⟨?_, rfl, fun _ => rfl, ?_⟩
    · intro z
      unfold priority
      by_cases hz : z = t
      · rw [hz, hself]
      · rw [hother z hz]
    · intro x z hz
      simp only [hwait, mem_rtListRemove] at hz
      exact hz.1
  | background b =>
    obtain ⟨c, hc, rfl⟩ := map_eq_some_iff.mp hstep
    obtain ⟨k, hk, rfl⟩ := Callers.background_cases hc
    obtain ⟨hcalm, -⟩ := h.ok.background hk
    have hprio := background_priority hinv hk
    have hwait : ∀ x t, t ∈ k.wait x → t ∈ s.kernel.wait x := by
      intro x t ht
      rwa [hcalm.wait] at ht
    cases b with
    | changePriority t priority =>
      refine ⟨hprio, ?_, fun _ => rfl⟩
      intro z
      simp [Function.update_apply]
    | _ => exact ⟨hprio, rfl, fun _ => rfl, hwait⟩

end

/-- The thread has no mutex. -/
def HoldsNone (s : Sys τ ω) (t : τ) : Prop := ∀ x, (s.mutex x).owner ≠ some t

/-- A thread without a mutex has its own priority. -/
def Restored (s : Sys τ ω) : Prop := ∀ t, s.HoldsNone t → s.priority t = s.base t

/-- A thread that gives up its last mutex gets its own priority from it. -/
def Returns (s : Sys τ ω) : Act τ ω → Prop
  | .release x =>
      (s.mutex x).owner = some s.kernel.current → (s.mutex x).hold = 1 →
        (∀ y ≠ x, (s.mutex y).owner ≠ some s.kernel.current) →
        (s.mutex x).originalPriority = s.base s.kernel.current
  | _ => True

instance [Fintype ω] (s : Sys τ ω) : (a : Act τ ω) → Decidable (s.Returns a)
  | .release _ => inferInstanceAs (Decidable (_ → _ → _ → _))
  | .take _ _ | .ret | .timeout _ | .background _ => isTrue trivial

omit [DecidableEq τ] [DecidableEq ω] in
theorem Restored.still (hr : s.Restored) (hs : s.Still s') : s'.Restored := by
  intro t ht
  rw [hs.priority, hs.base]
  exact hr t fun x => hs.owner x ▸ ht x

/-- A step from a state in which the priorities are restored keeps them so exactly when a last release
gives back the right one. -/
theorem Restored.step (hr : s.Restored) (h : s.Good) {a : Act τ ω} (hstep : Step s a s') :
    s'.Restored ↔ s.Returns a := by
  cases a with
  | release x =>
    rcases release_effect h hstep with ⟨hstill, hnot⟩ | ⟨howner, hhold, hbase, hcur, hprio, howner', -⟩
    · refine iff_of_true (hr.still hstill) ?_
      intro ho hh
      rcases hnot with hno | hnh
      · exact absurd ho hno
      · exact absurd hh hnh
    · have hnone : s'.HoldsNone s.kernel.current ↔ ∀ y ≠ x, (s.mutex y).owner ≠ some s.kernel.current := by
        constructor
        · intro hn y hy
          have := hn y
          rwa [howner', if_neg hy] at this
        · intro hn y
          rw [howner' y]
          by_cases hy : y = x
          · rw [if_pos hy]
            exact fun he => hcur x (mem_of_head? he)
          · rw [if_neg hy]
            exact hn y hy
      constructor
      · intro hr' _ _ hothers
        have := hr' s.kernel.current (hnone.mpr hothers)
        rwa [hprio, if_pos rfl, hbase] at this
      · intro hc t ht
        rw [hprio, hbase]
        by_cases htc : t = s.kernel.current
        · subst htc
          rw [if_pos rfl]
          exact hc howner hhold (hnone.mp ht)
        · rw [if_neg htc]
          apply hr
          intro y
          by_cases hy : y = x
          · rw [hy, howner]
            exact fun he => htc (some.inj he).symm
          · have := ht y
            rwa [howner', if_neg hy] at this
  | take x timeout =>
    refine iff_of_true ?_ trivial
    rcases take_effect h hstep with ⟨hstill, -⟩ | ⟨hfree, hprio, hbase, howner, -⟩ |
      ⟨owner, howner, -, -, hbase, hmutex, -, hprio, -⟩
    · exact hr.still hstill
    · intro t ht
      rw [hprio, hbase]
      apply hr
      intro y hy
      by_cases hyx : y = x
      · rw [hyx, hfree] at hy
        cases hy
      · apply ht y
        rw [howner, if_neg hyx]
        exact hy
    · intro t ht
      have hnone : s.HoldsNone t := by
        intro y
        have := ht y
        rwa [hmutex] at this
      have hne : t ≠ owner := by
        rintro rfl
        exact hnone x howner
      rw [hprio, hbase, if_neg hne]
      exact hr t hnone
  | background b =>
    refine iff_of_true ?_ trivial
    have heffect := other_effect h hstep
    cases b with
    | changePriority t priority =>
      obtain ⟨hprio, hbase, howner⟩ := heffect
      intro z hz
      rw [hprio, hbase]
      by_cases hzt : z = t
      · rw [if_pos hzt, if_pos hzt]
      · rw [if_neg hzt, if_neg hzt]
        exact hr z fun x => howner x ▸ hz x
    | _ => exact hr.still heffect
  | ret | timeout t => exact iff_of_true (hr.still (other_effect h hstep)) trivial

/-- In a run in which every thread that gives up its last mutex gets its own priority from it, a thread
without a mutex has its own priority in every state; and any further step keeps this exactly when it
does the same. -/
theorem reachable_restored (s : Sys τ ω) (h : Reachable Initial (Within Step Returns) s) :
    (∀ t, (∀ x, (s.mutex x).owner ≠ some t) → s.priority t = s.base t) ∧
      ∀ a s', Step s a s' → (s'.Restored ↔ s.Returns a) := by
  have hrestored : s.Restored := by
    apply h.invariant
    · intro s₀ h₀ t _
      exact (h₀.base t).symm
    · intro s₁ a s₂ h₁ hr hstep
      exact (hr.step (reachable_good h₁.of_within) hstep.2).mpr hstep.1
  exact ⟨hrestored, fun a s' hstep => hrestored.step (reachable_good h.of_within) hstep⟩

/-- A thread that was lent a priority has its own again. -/
theorem reachable_restored_handover : ∃ s : Sys (Fin 4) (Fin 2),
    (s.mutex 0).owner = some 0 ∧ s.priority 2 = s.base 2 := by
  have hrun : ∃ s ∈ runWithin exec Returns start handover, (s.mutex 0).owner = some 0 ∧
      (s.mutex 1).owner = none := by decide +kernel
  obtain ⟨s, h, h0, h1⟩ := Reachable.of_runWithin start_initial hrun
  refine ⟨s, h0, (reachable_restored s h).1 2 ?_⟩
  rw [Fin.forall_fin_two, h0, h1]
  decide

/-- Two mutexes are taken one inside the other but given back in the order they were taken, while
thread `0` waits for one after the other. -/
def crossed : List (Act (Fin 4) (Fin 2)) :=
  [.take 0 (-1), .ret, .timeout 0, .background .schedule,
    .take 0 (-1), .background .schedule, .take 1 (-1), .ret, .release 0, .background .schedule,
    .ret, .take 1 (-1), .background .schedule, .ret, .release 1]

/-- Thread `2` is left with the priority of thread `0`. -/
theorem crossed_boosted : ∃ s : Sys (Fin 4) (Fin 2), Reachable Initial Step s ∧
    (∀ x, (s.mutex x).owner ≠ some 2) ∧ s.priority 2 = 10 ∧ s.base 2 = 30 := by
  have hrun : ∃ s ∈ runAll exec start crossed, (s.mutex 0).owner = some 0 ∧
      (s.mutex 1).owner = some 0 ∧ s.priority 2 = 10 ∧ s.base 2 = 30 := by decide +kernel
  obtain ⟨s, hs, h0, h1, hprio, hbase⟩ := Reachable.of_runAll start_initial hrun
  refine ⟨s, hs, ?_, hprio, hbase⟩
  rw [Fin.forall_fin_two, h0, h1]
  decide

/-- An owner is at least as urgent as every thread that waits for its mutex. -/
def Bounded (s : Sys τ ω) : Prop :=
  ∀ x owner t, (s.mutex x).owner = some owner → t ∈ s.kernel.wait x → s.priority owner ≤ s.priority t

/-- Who is lent a priority does not wait for a less urgent owner itself; who gets its priority back has
no other mutex that a more urgent thread waits for; and who is given a mutex is the most urgent of those
that wait for it. -/
def Inherits (s : Sys τ ω) : Act τ ω → Prop
  | .take x timeout =>
      timeout ≠ 0 → ∀ owner, (s.mutex x).owner = some owner → owner ≠ s.kernel.current →
        s.priority s.kernel.current < s.priority owner → ∀ y next, owner ∈ s.kernel.wait y →
          (s.mutex y).owner = some next → next ≠ owner →
            s.priority next ≤ s.priority s.kernel.current
  | .release x =>
      (s.mutex x).owner = some s.kernel.current → (s.mutex x).hold = 1 →
        (∀ y ≠ x, (s.mutex y).owner = some s.kernel.current → ∀ t ∈ s.kernel.wait y,
          (s.mutex x).originalPriority ≤ s.priority t) ∧
        ∀ first, (s.kernel.wait x).head? = some first → ∀ t ∈ s.kernel.wait x,
          s.priority first ≤ s.priority t
  | _ => True

/-- The application changes a priority. -/
def Request : Act τ ω → Prop
  | .background (.changePriority _ _) => True
  | _ => False

instance [Fintype τ] [Fintype ω] (s : Sys τ ω) : (a : Act τ ω) → Decidable (s.Inherits a)
  | .take _ _ => inferInstanceAs (Decidable (_ → ∀ _, _ → _ → _ → ∀ _ _, _ → _ → _ → _))
  | .release _ => inferInstanceAs (Decidable (_ → _ → (∀ _, _ → _ → ∀ _ ∈ _, _) ∧ ∀ _, _ → ∀ _ ∈ _, _))
  | .ret | .timeout _ | .background _ => isTrue trivial

instance : (a : Act τ ω) → Decidable (Request a)
  | .background (.changePriority _ _) => isTrue trivial
  | .background .schedule | .background .tick | .background .yield | .background .enterCritical
  | .background .exitCritical | .take _ _ | .release _ | .ret | .timeout _ => isFalse id

section

variable (hb : s.Bounded)
include hb

omit [DecidableEq τ] [DecidableEq ω] in
theorem Bounded.still (hs : s.Still s') : s'.Bounded := by
  intro x owner t ho ht
  rw [hs.owner] at ho
  rw [hs.priority, hs.priority]
  exact hb x owner t ho (hs.wait x t ht)

theorem Bounded.take (h : s.Good) {x : ω} {timeout : Int}
    (hstep : Step s (.take x timeout) s') : s'.Bounded ↔ s.Inherits (.take x timeout) := by
  rcases take_effect h hstep with ⟨hstill, hwhy⟩ | ⟨hfree, hprio, -, howner, hwait⟩ |
    ⟨owner, howner, hne, htimeout, -, hmutex, hcur, hprio, hwait⟩
  · refine iff_of_true (hb.still hstill) ?_
    intro ht owner ho hne
    rcases hwhy with hwhy | hwhy
    · exact absurd (some.inj (ho.symm.trans hwhy)) hne
    · exact absurd hwhy ht
  · refine iff_of_true ?_ ?_
    · intro y owner t ho ht
      rw [hprio, hprio]
      rw [hwait] at ht
      by_cases hy : y = x
      · rw [hy, h.wait x hfree] at ht
        cases ht
      · rw [howner, if_neg hy] at ho
        exact hb y owner t ho ht
    · intro _ owner ho
      cases hfree.symm.trans ho
  · constructor
    · intro hb' _ owner' ho' _ hlt y next hy hnext hneq
      cases howner.symm.trans ho'
      have := hb' y next owner (by rw [hmutex]; exact hnext) ((hwait y owner).mpr (.inl hy))
      rw [hprio, hprio, if_neg hneq, if_pos rfl, Nat.min_eq_left hlt.le] at this
      exact this
    · intro hc y next t hnext ht
      rw [hmutex] at hnext
      have hnext_le : s'.priority next ≤ s.priority next := by
        rw [hprio]
        split_ifs with hn
        · rw [hn]
          exact Nat.min_le_right _ _
        · exact le_rfl
      rcases (hwait y t).mp ht with ht | ⟨rfl, rfl⟩
      · have hold := hb y next t hnext ht
        by_cases hto : t = owner
        · subst hto
          by_cases hnt : next = t
          · rw [hnt]
          · rw [hprio, if_neg hnt, hprio, if_pos rfl]
            refine le_min ?_ hold
            by_cases hlt : s.priority s.kernel.current < s.priority t
            · exact hc htimeout t howner hne hlt y next ht hnext hnt
            · omega
        · rw [hprio t, if_neg hto]
          exact hnext_le.trans hold
      · cases howner.symm.trans hnext
        rw [hprio, if_pos rfl, hprio, if_neg hne.symm]
        exact Nat.min_le_left _ _

theorem Bounded.release (h : s.Good) {x : ω} (hstep : Step s (.release x) s') :
    s'.Bounded ↔ s.Inherits (.release x) := by
  rcases release_effect h hstep with ⟨hstill, hnot⟩ |
    ⟨howner, hhold, -, hcur, hprio, howner', hwait⟩
  · refine iff_of_true (hb.still hstill) ?_
    intro ho hh
    rcases hnot with hno | hnh
    · exact absurd ho hno
    · exact absurd hh hnh
  · constructor
    · intro hb' _ _
      refine ⟨?_, ?_⟩
      · intro y hy ho t ht
        have hne : t ≠ s.kernel.current := fun he => hcur y (he ▸ ht)
        have hhead : (s.kernel.wait x).head? ≠ some t := by
          intro he
          have hx := ((h.ok.waits.mem x t).mp (mem_of_head? he)).2
          exact hy (some.inj (((h.ok.waits.mem y t).mp ht).2.symm.trans hx))
        have := hb' y s.kernel.current t (by rw [howner', if_neg hy]; exact ho)
          ((hwait y t).mpr ⟨ht, hhead⟩)
        rwa [hprio, if_pos rfl, hprio, if_neg hne] at this
      · intro first hfirst t ht
        have hne : t ≠ s.kernel.current := fun he => hcur x (he ▸ ht)
        have hne' : first ≠ s.kernel.current := fun he => hcur x (he ▸ mem_of_head? hfirst)
        by_cases htf : t = first
        · rw [htf]
        · have hhead : (s.kernel.wait x).head? ≠ some t := by
            rw [hfirst]
            exact fun he => htf (some.inj he).symm
          have := hb' x first t (by rw [howner', if_pos rfl, hfirst]) ((hwait x t).mpr ⟨ht, hhead⟩)
          rwa [hprio, if_neg hne', hprio, if_neg hne] at this
    · intro hc y owner t ho ht
      obtain ⟨hothers, hfirst⟩ := hc howner hhold
      obtain ⟨ht, hhead⟩ := (hwait y t).mp ht
      have hne : t ≠ s.kernel.current := fun he => hcur y (he ▸ ht)
      rw [hprio t, if_neg hne]
      rw [howner'] at ho
      by_cases hy : y = x
      · rw [if_pos hy] at ho
        have hne' : owner ≠ s.kernel.current := fun he => hcur x (he ▸ mem_of_head? ho)
        rw [hprio, if_neg hne']
        exact hfirst owner ho t (hy ▸ ht)
      · rw [if_neg hy] at ho
        by_cases hoc : owner = s.kernel.current
        · rw [hprio, if_pos hoc]
          exact hothers y hy (hoc ▸ ho) t ht
        · rw [hprio, if_neg hoc]
          exact hb y owner t ho ht

/-- A step that is no request keeps the bound exactly when it passes the priorities on. -/
theorem Bounded.step (h : s.Good) {a : Act τ ω} (hr : ¬ Request a)
    (hstep : Step s a s') : s'.Bounded ↔ s.Inherits a := by
  cases a with
  | take x timeout => exact hb.take h hstep
  | release x => exact hb.release h hstep
  | ret | timeout t => exact iff_of_true (hb.still (other_effect h hstep)) trivial
  | background b =>
    have heffect := other_effect h hstep
    cases b with
    | changePriority t priority => exact absurd trivial hr
    | _ => exact iff_of_true (hb.still heffect) trivial

end

/-- In a run without requests whose steps pass the priorities on, an owner is at least as urgent as
every thread that waits for it, in every state; and any further step keeps this exactly when it passes
them on. -/
theorem reachable_bounded (s : Sys τ ω)
    (h : Reachable Initial (Within Step fun s a => ¬ Request a ∧ s.Inherits a) s) :
    (∀ x owner t, (s.mutex x).owner = some owner → t ∈ s.kernel.wait x →
      s.priority owner ≤ s.priority t) ∧
      ∀ a s', ¬ Request a → Step s a s' → (s'.Bounded ↔ s.Inherits a) := by
  have hbounded : s.Bounded := by
    apply h.invariant
    · intro s₀ h₀ x owner t ho
      rw [h₀.mutex] at ho
      cases ho
    · intro s₁ a s₂ h₁ hb hstep
      exact (hb.step (reachable_good h₁.of_within) hstep.1.1 hstep.2).mpr hstep.1.2
  exact ⟨hbounded, fun a s' hr hstep => hbounded.step (reachable_good h.of_within) hr hstep⟩

/-- Thread `2` is lent the priority of thread `0` while that waits. -/
theorem reachable_bounded_waiting : ∃ s : Sys (Fin 4) (Fin 2),
    s.kernel.wait 0 = [0] ∧ s.priority 2 ≤ s.priority 0 := by
  have hrun : ∃ s ∈ runWithin exec (fun s a => ¬ Request a ∧ s.Inherits a) start (handover.take 5),
      (s.mutex 0).owner = some 2 ∧ s.kernel.wait 0 = [0] := by decide +kernel
  obtain ⟨s, h, howner, hwait⟩ := Reachable.of_runWithin start_initial hrun
  refine ⟨s, hwait, (reachable_bounded s h).1 0 2 0 howner ?_⟩
  rw [hwait]
  exact List.mem_singleton_self 0

/-- Thread `1` waits for thread `2`, and then thread `0` for thread `1`. -/
def chained : List (Act (Fin 4) (Fin 2)) :=
  [.take 0 (-1), .ret, .timeout 1, .background .schedule,
    .take 1 (-1), .ret, .take 0 (-1), .background .schedule, .timeout 0, .background .schedule,
    .take 1 (-1)]

/-- Thread `1` is lent a priority that thread `2` is not. -/
theorem chained_unbounded : ∃ s : Sys (Fin 4) (Fin 2), Reachable Initial Step s ∧ ¬ s.Bounded := by
  have hrun : ∃ s ∈ runAll exec start chained, (s.mutex 0).owner = some 2 ∧ s.kernel.wait 0 = [1] ∧
      s.priority 2 = 20 ∧ s.priority 1 = 10 := by decide +kernel
  obtain ⟨s, hs, howner, hwait, h2, h1⟩ := Reachable.of_runAll start_initial hrun
  refine ⟨s, hs, ?_⟩
  intro hb
  have := hb 0 2 1 howner (by rw [hwait]; exact List.mem_singleton_self 1)
  omega

end RtKernel.Mutex.Sys

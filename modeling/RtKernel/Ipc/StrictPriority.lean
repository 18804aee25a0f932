import RtKernel.Ipc.ObjectRuns

/-!
# Strict priority scheduling

When a call has returned, no ready thread should be more urgent than the one that
runs. A call that makes a thread ready, or the running one less urgent, has to end
with `rt_schedule`; four calls do not.
-/

open Option

namespace RtKernel.Objects.Sys

open Kernel

variable {τ ι β : Type*}

section

variable {ω : Type*} {k k' : Kernel τ ω}

/-- No ready thread is more urgent than the priority. -/
def NoneAbove (k : Kernel τ ω) (priority : Nat) : Prop :=
  ∀ t, (k.thread t).stat = .ready → priority ≤ (k.thread t).currentPriority

instance [Fintype τ] (k : Kernel τ ω) (priority : Nat) : Decidable (NoneAbove k priority) :=
  inferInstanceAs (Decidable (∀ _, _))

/-- The thread is not more urgent than the current one. -/
def NotAbove (k : Kernel τ ω) (t : τ) : Prop :=
  (k.thread k.current).currentPriority ≤ (k.thread t).currentPriority

instance (k : Kernel τ ω) : DecidablePred (NotAbove k) := fun _ =>
  inferInstanceAs (Decidable (_ ≤ _))

theorem top_congr (h : k.Top) (hcur : k'.current = k.current)
    (hstat : ∀ t, (k'.thread t).stat = .ready → (k.thread t).stat = .ready)
    (hprio : ∀ t, (k'.thread t).currentPriority = (k.thread t).currentPriority) : k'.Top := by
  intro t ht
  rw [hcur, hprio, hprio]
  exact h t (hstat t ht)

/-- Threads that are resumed are not more urgent than the current one. -/
theorem top_woken (h : k.Top) (hw : Woken k k')
    (hnew : ∀ t, (k'.thread t).stat = .ready → (k.thread t).stat = .ready ∨ NotAbove k t) :
    k'.Top := by
  intro t ht
  rw [hw.current, hw.priority, hw.priority]
  exact (hnew t ht).elim (h t) id

variable [DecidableEq τ] {started : τ → Prop}

theorem ready_rtThreadResume {t x : τ} (h : ((k.rtThreadResume t).thread x).stat = .ready) :
    (k.thread x).stat = .ready ∨ x = t ∧ (k.thread t).stat = .suspend := by
  unfold rtThreadResume at h
  split_ifs at h with hs
  · by_cases hx : x = t
    · exact .inr ⟨hx, hs⟩
    · rw [resume_of_ne hx] at h
      exact .inl h
  · exact .inl h

/-- The threads that `_ipc_list_resume_all` makes ready were in the list. -/
theorem ready_ipcListResumeAll {on : τ → Option ω} (h : k.Waits on) (w : ω) :
    ∀ t, ((k.ipcListResumeAll w).thread t).stat = .ready →
      (k.thread t).stat = .ready ∨ t ∈ k.wait w := by
  refine (ipcListResumeAll_rule (P := fun k' => k'.Waits on ∧ (∀ t ∈ k'.wait w, t ∈ k.wait w) ∧
    ∀ t, (k'.thread t).stat = .ready → (k.thread t).stat = .ready ∨ t ∈ k.wait w) ?_
    ⟨h, fun _ ht => ht, fun _ ht => .inl ht⟩).2.2
  intro k' t rest ⟨hwaits, hmem, hready⟩ hw
  have hs := (hwaits.head hw).1
  obtain ⟨-, hwait, -, hother⟩ := fail_spec hs
  refine ⟨hwaits.fail hs, ?_, ?_⟩
  · intro x hx
    rw [hwait, mem_rtListRemove] at hx
    exact hmem x hx.1
  · intro x hx
    by_cases hne : x = t
    · exact .inr (hne ▸ hmem t (hw ▸ List.mem_cons_self))
    · rw [hother x hne] at hx
      exact hready x hx

theorem top_changePriority (hinv : k.Inv started) (h : k.Top) {t : τ} {p : Nat}
    (hcur : t = k.current → NoneAbove k p)
    (hready : (k.thread t).stat = .ready → (k.thread k.current).currentPriority ≤ p) :
    (k.changePriority t p).Top := by
  intro x hx
  rw [changePriority_current]
  have hself := hinv.changePriority_self t p
  by_cases hxt : x = t
  · subst hxt
    rw [hself] at hx ⊢
    have hne : k.current ≠ x := by
      rintro rfl
      exact hinv.current hx
    rw [changePriority_of_ne hne]
    exact hready hx
  · rw [changePriority_of_ne hxt] at hx ⊢
    by_cases hct : k.current = t
    · rw [hct, hself]
      exact hcur hct.symm x hx
    · rw [changePriority_of_ne hct]
      exact h x hx

theorem changePriority_lock (k : Kernel τ ω) (t : τ) (p : Nat) :
    (k.changePriority t p).schedulerLockNest = k.schedulerLockNest := by
  unfold Kernel.changePriority
  split_ifs <;> simp

theorem rtSchedule_lock (hinv : k.Inv started) (hk : k.rtSchedule = some k') :
    k'.schedulerLockNest = k.schedulerLockNest := by
  have hswitch : ∀ (k : Kernel τ ω) t b,
      (k.switchTo t b).schedulerLockNest = k.schedulerLockNest := by
    intro k t b
    unfold switchTo
    cases b <;> simp
  rcases rtSchedule_cases hinv hk with rfl | ⟨-, rfl⟩ | ⟨head, -, -, ⟨-, rfl⟩ | ⟨-, rfl⟩⟩
  · rfl
  · rfl
  · rw [hswitch, setThread_lock]
  · exact hswitch ..

/-- A change of the current thread that the scheduler does not look at. -/
theorem top_touch {f : RtThread → RtThread}
    (hf : ∀ x, (f x).stat = x.stat ∧ (f x).currentPriority = x.currentPriority) (h : k.Top) :
    (k.setThread k.current f).Top := by
  refine top_congr h rfl ?_ (setThread_priority k (hf _).2)
  intro t ht
  by_cases htc : t = k.current
  · rw [htc, setThread_self, (hf _).1] at ht
    rw [htc]
    exact ht
  · rw [setThread_of_ne htc] at ht
    exact ht

theorem top_does [DecidableEq ω] (flag : ω → IpcFlag) {w : Option ω} (hk : Does flag k k' w false)
    (h : k.schedulerLockNest = 0 → k.Top) (hlock : k'.schedulerLockNest = 0) : k'.Top := by
  cases hk with
  | post hk =>
    cases hk
    exact h hlock
  | error err => exact top_touch (fun _ => ⟨rfl, rfl⟩) (h hlock)

theorem top_tickSlice (h : k.schedulerLockNest = 0 → k.Top)
    (hlock : k.tickSlice.1.schedulerLockNest = 0) : k.tickSlice.1.Top := by
  obtain ⟨k₁, hk₁⟩ : ∃ k₁, k₁ = k.setThread k.current fun x =>
    { x with remainingTick := sub32 x.remainingTick 1 } := ⟨_, rfl⟩
  have htop : k₁.schedulerLockNest = 0 → k₁.Top := by
    rw [hk₁]
    intro hlock
    apply top_touch
    · exact fun _ => ⟨rfl, rfl⟩
    · exact h hlock
  simp only [tickSlice, ← hk₁] at hlock ⊢
  split_ifs at hlock ⊢
  · simp only
    apply top_touch
    · exact fun _ => ⟨rfl, rfl⟩
    · exact htop hlock
  · exact htop hlock

end

variable [DecidableEq τ] [DecidableEq ι] {s s' : Sys τ ι β}

/-- Nothing that runs is about to call `rt_schedule`, and the scheduler is not locked. -/
def Settled (s : Sys τ ι β) : Prop := s.needSchedule = false ∧ s.kernel.schedulerLockNest = 0

/-- What must not happen where `rt_schedule` is not called: the last release without a waiter, or a
request, makes the current thread less urgent than a ready one, or makes a ready one more urgent than
it, or a thread more urgent than it is resumed. -/
def Careful (s : Sys τ ι β) (a : Act τ ι β) : Prop :=
  s.Settled →
    match a with
    | .call (.mutexRelease x) =>
        (s.objects.mutex x).owner = some s.kernel.current → (s.objects.mutex x).hold = 1 →
          s.kernel.wait (.mutex x) = [] → NoneAbove s.kernel (s.objects.mutex x).originalPriority
    | .changePriority t priority =>
        (t = s.kernel.current → NoneAbove s.kernel priority) ∧
          ((s.kernel.thread t).stat = .ready →
            (s.kernel.thread s.kernel.current).currentPriority ≤ priority)
    | .resume t => (s.kernel.thread t).stat = .suspend → NotAbove s.kernel t
    | .detach x => ∀ t ∈ s.kernel.wait x, NotAbove s.kernel t
    | _ => True

theorem Good.top_moves (h : s.Good) (hneed : s.needSchedule = false)
    (htop : s.Settled → s.kernel.Top) {r : Request ι β} (hcare : s.Careful (.call r))
    {k : Kernel τ (WaitList ι)} {w : Option (WaitList ι)} {b : Bool} (hmoves : Moves s r k w b)
    (hb : b = false) (hlock : k.schedulerLockNest = 0) : k.Top := by
  obtain ⟨started, hinv⟩ := h.ok.inv
  cases hmoves with
  | does hdoes =>
    subst hb
    exact top_does s.objects.flag hdoes (fun hlock => htop ⟨hneed, hlock⟩) hlock
  | lend timed howner hne ht => cases hb
  | hand howner hwait => cases hb
  | @restore x howner hhold hwait =>
    rcases restore_cases s.kernel (s.objects.mutex x).originalPriority with hk | hk
    · rw [hk] at hlock ⊢
      exact htop ⟨hneed, hlock⟩
    · rw [hk, changePriority_lock] at hlock
      rw [hk]
      refine top_changePriority hinv (htop ⟨hneed, hlock⟩) ?_ ?_
      · intro _
        exact hcare ⟨hneed, hlock⟩ howner hhold hwait
      · intro hready
        exact absurd hready hinv.current

theorem Good.top (h : s.Good) (htop : s.Settled → s.kernel.Top) {a : Act τ ι β}
    (hcare : s.Careful a) (hstep : Step s a s') : s'.Settled → s'.kernel.Top := by
  obtain ⟨started, hinv⟩ := h.ok.inv
  rintro ⟨hneed, hlock⟩
  cases a with
  | call r =>
    simp only [Step, exec] at hstep
    split_ifs at hstep with hret
    obtain ⟨p, hp, rfl⟩ := map_eq_some_iff.mp hstep
    exact h.top_moves hret.2 htop hcare (h.start hp).1 hneed hlock
  | go left =>
    simp only [Step, exec] at hstep
    split_ifs at hstep with hrun
    obtain ⟨c, hc, hstep⟩ := bind_eq_some_iff.mp hstep
    split_ifs at hstep with herror
    · cases hstep
      exact htop ⟨hneed, hlock⟩
    · obtain ⟨p, hp, rfl⟩ := map_eq_some_iff.mp hstep
      have hdoes := (h.proceed hp).1
      rw [show p.needSchedule = false from hneed] at hdoes
      exact top_does s.objects.flag hdoes (fun hlock => htop ⟨hrun.2, hlock⟩) hlock
  | post p =>
    obtain ⟨r, hr, rfl⟩ := map_eq_some_iff.mp hstep
    obtain ⟨hold, hnew⟩ := Bool.or_eq_false_iff.mp hneed
    have hposts := (h.post hr).1
    rw [hnew] at hposts
    exact top_does s.objects.flag (.post hposts) (fun hlock => htop ⟨hold, hlock⟩) hlock
  | changePriority t priority =>
    simp only [Step, exec] at hstep
    split_ifs at hstep with hp
    cases hstep
    rw [changePriority_lock] at hlock
    obtain ⟨hcur, hready⟩ := hcare ⟨hneed, hlock⟩
    exact top_changePriority hinv (htop ⟨hneed, hlock⟩) hcur hready
  | resume t =>
    cases hstep
    have hwoken := woken_rtThreadResume s.kernel t
    rw [hwoken.lock] at hlock
    refine top_woken (htop ⟨hneed, hlock⟩) hwoken ?_
    intro x hx
    refine (ready_rtThreadResume hx).imp_right ?_
    rintro ⟨rfl, hs⟩
    exact hcare ⟨hneed, hlock⟩ hs
  | detach x =>
    cases hstep
    have hwoken := (Wakes.ipcListResumeAll h.ok.waits x).woken
    rw [hwoken.lock] at hlock
    refine top_woken (htop ⟨hneed, hlock⟩) hwoken ?_
    intro t ht
    exact (ready_ipcListResumeAll h.ok.waits x t ht).imp_right (hcare ⟨hneed, hlock⟩ t)
  | sleep =>
    simp only [Step, exec] at hstep
    split_ifs at hstep
    cases hstep
    cases hneed
  | yield =>
    cases hstep
    cases hneed
  | enterCritical =>
    cases hstep
    cases hlock
  | exitCritical =>
    cases hstep
    exact absurd hlock (of_decide_eq_false (Bool.or_eq_false_iff.mp hneed).2)
  | timeout t =>
    obtain ⟨c, hc, rfl⟩ := map_eq_some_iff.mp hstep
    cases hneed
  | tick =>
    cases hstep
    obtain ⟨hold, -⟩ := Bool.or_eq_false_iff.mp hneed
    exact top_tickSlice (fun hlock => htop ⟨hold, hlock⟩) hlock
  | schedule =>
    obtain ⟨k, hk, rfl⟩ := map_eq_some_iff.mp hstep
    obtain ⟨k', hk', -, htop', -⟩ := hinv.rtSchedule
    cases hk.symm.trans hk'
    rw [rtSchedule_lock hinv hk] at hlock
    exact htop' hlock

/-- One object of each kind, none used yet. -/
def fresh (τ : Type*) : Objects τ Unit Nat :=
  { sem := fun _ => { value := 0, flag := .prio }
    mutex := fun _ => Mutex.rtMutexInit
    mailbox := fun _ =>
      { msgPool := fun _ => 0, size := 2, entry := 0, inOffset := 0, outOffset := 0, flag := .prio }
    queue := fun _ => MessageQueue.rtMqInit (fun _ => [0, 0, 0, 0]) (fun _ => none) 4 16 .prio
    event := fun _ => { set := 0, flag := .prio }
    info := fun _ => { eventSet := 0, eventInfo := 0 } }

/-- Three threads, of which the least urgent one runs. -/
def start : Sys (Fin 3) Unit Nat :=
  { kernel := boot (fun t => 5 * t + 5) 2 []
    call := fun _ => none, objects := fresh (Fin 3), needSchedule := true }

omit [DecidableEq τ] [DecidableEq ι] in
theorem start_initial : start.Initial where
  inv := ⟨_, boot_inv (by decide) 2 []⟩
  wait _ := congrFun (boot_wait) _
  call _ := rfl
  mutex _ := rfl
  needSchedule := rfl

/-- The least urgent thread owns the mutex, and the most urgent one waits for it with a timeout. -/
def inherited : List (Act (Fin 3) Unit Nat) :=
  [.schedule, .call (.mutexTake () (-1)), .timeout 0, .schedule, .call (.mutexTake () 10), .schedule,
    .timeout 1, .schedule]

/-- In every careful run no ready thread is more urgent than the current one whenever a call has
returned with the scheduler unlocked. -/
theorem reachable_strict (s : Sys τ ι β) (h : Reachable Initial (Within Step Careful) s)
    (hsettled : s.Settled) (t : τ) (ht : (s.kernel.thread t).stat = .ready) :
    (s.kernel.thread s.kernel.current).currentPriority ≤ (s.kernel.thread t).currentPriority := by
  have hinv : s.Good ∧ (s.Settled → s.kernel.Top) := by
    refine h.invariant (I := fun s => s.Good ∧ (s.Settled → s.kernel.Top)) ?_ ?_
    · intro s h₀
      refine ⟨h₀.good, ?_⟩
      rintro ⟨hneed, -⟩
      cases h₀.needSchedule.symm.trans hneed
    · intro s a s' _ ⟨hgood, htop⟩ hstep
      exact ⟨hgood.step hstep.2, hgood.top htop hstep.1 hstep.2⟩
  exact hinv.2 hsettled t ht

/-- The owner runs at the priority it is lent, ahead of a ready thread. -/
theorem reachable_strict_inherited : ∃ s : Sys (Fin 3) Unit Nat,
    s.kernel.current = 2 ∧ (s.kernel.thread 1).stat = .ready ∧
      (s.kernel.thread s.kernel.current).currentPriority ≤ (s.kernel.thread 1).currentPriority := by
  obtain ⟨s, hs, hcur, hready, hneed, hlock⟩ : ∃ s ∈ runAll exec start inherited, s.kernel.current = 2 ∧
      (s.kernel.thread 1).stat = .ready ∧ s.needSchedule = false ∧
      s.kernel.schedulerLockNest = 0 := by decide +kernel
  have hcare : ∀ a ∈ inherited, ∀ s : Sys (Fin 3) Unit Nat, s.Careful a := by
    intro a ha s _
    simp only [inherited, List.mem_cons, List.not_mem_nil, or_false] at ha
    rcases ha with rfl | rfl | rfl | rfl | rfl | rfl | rfl | rfl <;> trivial
  have hreach := (Reachable.start start_initial).runAll_within hcare hs
  exact ⟨s, hcur, hready, reachable_strict s hreach ⟨hneed, hlock⟩ 1 hready⟩

/-- After the waiter's timeout the last release gives the owner its own priority back and returns,
though a more urgent thread is ready. -/
theorem released_not_strict : ∃ s s' : Sys (Fin 3) Unit Nat, Reachable Initial Step s ∧
    Step s (.call (.mutexRelease ())) s' ∧ s'.Returned ∧ s'.Settled ∧
      ∃ t, (s'.kernel.thread t).stat = .ready ∧
        ¬ (s'.kernel.thread s'.kernel.current).currentPriority ≤
          (s'.kernel.thread t).currentPriority := by
  obtain ⟨s', hs', hret, hlock, hready, hprio⟩ : ∃ s ∈ runAll exec start (inherited ++ ([.timeout 0,
      .schedule] : List (Act (Fin 3) Unit Nat)) ++
      ([.call (.mutexRelease ())] : List (Act (Fin 3) Unit Nat))), s.Returned ∧
      s.kernel.schedulerLockNest = 0 ∧ (s.kernel.thread 1).stat = .ready ∧
      ¬ ((s.kernel.thread s.kernel.current).currentPriority ≤ (s.kernel.thread 1).currentPriority) := by decide +kernel
  obtain ⟨s, hs, hstep⟩ := runAll_concat hs'
  exact ⟨s, s', (Reachable.start start_initial).runAll hs, hstep, hret, ⟨hret.2, hlock⟩, 1, hready,
    hprio⟩

end RtKernel.Objects.Sys

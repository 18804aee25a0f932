import RtKernel.Ipc.Parts

/-!
# Runs of all objects

Whatever the threads do with the objects, the scheduler stays consistent and each
suspend list holds the threads that wait on it.
-/

open Option

namespace RtKernel

open Kernel

section

variable {τ ω κ : Type*} [DecidableEq τ] {k k' : Kernel τ ω}

/-- What resuming threads changes. -/
structure Woken (k k' : Kernel τ ω) : Prop where
  current : k'.current = k.current
  lock : k'.schedulerLockNest = k.schedulerLockNest
  thread : ∀ t, (k.thread t).stat ≠ .suspend → k'.thread t = k.thread t
  priority : ∀ t, (k'.thread t).currentPriority = (k.thread t).currentPriority
  wait : ∀ w, (k'.wait w).Sublist (k.wait w)

omit [DecidableEq τ] in
theorem Woken.refl (k : Kernel τ ω) : Woken k k :=
  ⟨rfl, rfl, fun _ _ => rfl, fun _ => rfl, fun _ => .refl _⟩

omit [DecidableEq τ] in
theorem Woken.trans {k'' : Kernel τ ω} (h : Woken k k') (h' : Woken k' k'') : Woken k k'' := by
  refine ⟨h'.current.trans h.current, h'.lock.trans h.lock, ?_,
    fun t => (h'.priority t).trans (h.priority t), fun w => (h'.wait w).trans (h.wait w)⟩
  intro t ht
  have hsame := h.thread t ht
  rw [← hsame]
  exact h'.thread t (hsame ▸ ht)

theorem woken_resume (k : Kernel τ ω) {t : τ} (ht : (k.thread t).stat = .suspend) :
    Woken k (k.resume t) := by
  refine ⟨resume_current, resume_lock, ?_, ?_, ?_⟩
  · intro x hx
    exact resume_of_ne (by rintro rfl; exact hx ht)
  · intro x
    by_cases hx : x = t
    · rw [hx, resume_self]
    · rw [resume_of_ne hx]
  · intro w
    rw [resume_wait]
    exact rtListRemove_sublist _

theorem woken_rtThreadResume (k : Kernel τ ω) (t : τ) : Woken k (k.rtThreadResume t) := by
  unfold rtThreadResume
  split_ifs with ht
  · exact woken_resume k ht
  · exact .refl k

theorem woken_fail (k : Kernel τ ω) {t : τ} (ht : (k.thread t).stat = .suspend) :
    Woken k (k.fail t) := by
  have herror : ∀ x, x ≠ t →
      (k.setThread t fun y => { y with error := .error }).thread x = k.thread x :=
    fun x hx => setThread_of_ne hx
  have hresume := woken_rtThreadResume (k.setThread t fun y => { y with error := .error }) t
  refine ⟨hresume.current, hresume.lock, ?_, ?_, hresume.wait⟩
  · intro x hx
    have hne : x ≠ t := by
      rintro rfl
      exact hx ht
    exact (hresume.thread x (herror x hne ▸ hx)).trans (herror x hne)
  · intro x
    refine (hresume.priority x).trans ?_
    by_cases hx : x = t
    · rw [hx, setThread_self]
    · rw [herror x hx]

theorem Wakes.woken (h : Wakes k k') : Woken k k' := by
  induction h with
  | refl => exact .refl k
  | resume _ t ih => exact ih.trans (woken_rtThreadResume _ t)
  | fail _ ht ih => exact ih.trans (woken_fail _ ht)

namespace Callers

variable {waitsOn : κ → Option ω} {s : Callers τ ω κ}

theorem Ok.wakes (h : s.Ok waitsOn) (hk : Wakes s.kernel k) :
    Ok waitsOn { s with kernel := k } := by
  induction hk with
  | refl => exact h
  | resume _ t ih => exact ih.rtThreadResume t
  | fail _ ht ih => exact ih.fail ht

variable {b : Bool} {flag : ω → IpcFlag} {w : Option ω}

theorem Ok.posts (h : s.Ok waitsOn) (hk : Posts s.kernel k b) :
    Ok waitsOn { s with kernel := k } := by
  cases hk with
  | same => exact h
  | wake hk => exact h.wakes hk

theorem running_wakes (hrun : s.Running) (hk : Wakes s.kernel k) :
    Running { s with kernel := k } := by
  have hwoken := hk.woken
  unfold Running
  rw [hwoken.current, hwoken.thread _ (by rw [hrun]; nofun)]
  exact hrun

theorem running_setError (hrun : s.Running) (err : RtErr) :
    Running { s with kernel := s.kernel.setError err } := by
  unfold Running Kernel.setError
  rw [setThread_current, setThread_self]
  exact hrun

theorem Ok.does [DecidableEq ω] (h : s.Ok waitsOn) (hrun : s.Running)
    {c : Option κ} (hc : c.bind waitsOn = w) (hk : Does flag s.kernel k w b) :
    (Callers.enter { s with kernel := k } c).Ok waitsOn := by
  cases hk with
  | post hk =>
    cases hk with
    | same => exact h.enter hrun c
    | wake hk => exact (h.wakes hk).enter (running_wakes hrun hk) c
  | error err =>
    refine (h.setError hrun err).enter ?_ c
    exact running_setError hrun err
  | wait x timed =>
    obtain ⟨c, rfl, hc⟩ := bind_eq_some_iff.mp hc
    exact h.block hrun hc _ _

theorem does_current [DecidableEq ω] (hrun : s.Running)
    (hk : Does flag s.kernel k w b) : k.current = s.kernel.current := by
  cases hk with
  | post hk =>
    cases hk with
    | same => rfl
    | wake hk => exact hk.woken.current
  | error err => rfl
  | wait x timed => exact (block_spec x _ timed hrun).1

/-- A mutex changes the priority of a thread, or leaves it. -/
theorem Ok.setPriority (h : s.Ok waitsOn) (hfree : s.Free) {t : τ} {p : Nat} (hp : p < 32)
    (hk : k = s.kernel ∨ k = s.kernel.changePriority t p) :
    Ok waitsOn { s with kernel := k } ∧ Free { s with kernel := k } ∧ k.current = s.kernel.current ∧
      k.wait = s.kernel.wait := by
  rcases hk with rfl | rfl
  · exact ⟨h, hfree, rfl, rfl⟩
  · exact ⟨h.changePriority t hp, h.free_changePriority hfree t p, changePriority_current ..,
      (calm_changePriority h.waits.onlySuspended t p).wait⟩

end Callers

theorem lend_cases (k : Kernel τ ω) (owner : τ) : Mutex.lend k owner = k ∨
      Mutex.lend k owner = k.changePriority owner (k.thread k.current).currentPriority := by
  unfold Mutex.lend
  simp only
  split_ifs
  · exact .inr rfl
  · exact .inl rfl

theorem restore_cases (k : Kernel τ ω) (p : Nat) :
    Mutex.restore k p = k ∨ Mutex.restore k p = k.changePriority k.current p := by
  unfold Mutex.restore
  split_ifs
  · exact .inr rfl
  · exact .inl rfl

end

namespace Objects.Sys

variable {τ ι β : Type*} [DecidableEq τ] [DecidableEq ι] {s s' : Sys τ ι β}

omit [DecidableEq ι] in
theorem Good.finish (h : s.Good) {p : Part τ ι β}
    (hok : (Callers.enter { s.toCallers with kernel := p.kernel } p.call).Ok waitsOn)
    (hcur : p.kernel.current = s.kernel.current) (hleaves : s.Leaves p) : (s.finish p).Good := by
  refine ⟨hok, hleaves.keeps.mutex, ?_⟩
  intro t x hc
  change Function.update s.call p.kernel.current p.call t = _ at hc
  rw [hcur] at hc
  by_cases ht : t = s.kernel.current
  · subst ht
    rw [Function.update_self] at hc
    exact hleaves.event x hc
  · rw [Function.update_of_ne ht] at hc
    exact hleaves.keeps.valid t (h.valid t x hc)

variable {k : Kernel τ (WaitList ι)}

theorem Good.moves (h : s.Good) (hret : s.Returned) {r : Request ι β} {c : Option (Call ι β)}
    (hmoves : Moves s r k (c.bind waitsOn) b) :
    (Callers.enter { s.toCallers with kernel := k } c).Ok waitsOn ∧ k.current = s.kernel.current := by
  obtain ⟨started, hinv⟩ := h.ok.inv
  obtain ⟨hfree, -⟩ := hret
  generalize hw : c.bind waitsOn = w at hmoves
  cases hmoves with
  | does hdoes => exact ⟨h.ok.does hfree.1 hw hdoes, Callers.does_current hfree.1 hdoes⟩
  | @lend x timeout owner timed howner hne ht =>
    have hok := h.ok.setError hfree.1 .eok
    have hfree' : Callers.Free { s.toCallers with kernel := s.kernel.setError .eok } :=
      ⟨Callers.running_setError hfree.1 .eok, hfree.2⟩
    obtain ⟨started', hinv'⟩ := hok.inv
    obtain ⟨hok₂, hfree₂, hcur₂, -⟩ := hok.setPriority hfree' (hinv'.queues.priority _)
      (lend_cases _ owner)
    obtain ⟨c, rfl, hc⟩ := bind_eq_some_iff.mp hw
    exact ⟨hok₂.block hfree₂.1 hc _ _, (block_spec _ _ _ hfree₂.1).1.trans hcur₂⟩
  | @hand x t rest howner hwait =>
    obtain ⟨hok₂, hfree₂, hcur₂, -⟩ := h.ok.setPriority hfree (Mutex.owned (h.mutex _) howner)
      (restore_cases _ _)
    have hwakes : Wakes (Mutex.restore s.kernel (s.objects.mutex x).originalPriority) _ :=
      .resume .refl t
    exact ⟨(hok₂.wakes hwakes).enter (Callers.running_wakes hfree₂.1 hwakes) c,
      hwakes.woken.current.trans hcur₂⟩
  | restore howner hhold hwait =>
    obtain ⟨hok₂, hfree₂, hcur₂, -⟩ := h.ok.setPriority hfree (Mutex.owned (h.mutex _) howner)
      (restore_cases _ _)
    exact ⟨hok₂.enter hfree₂.1 c, hcur₂⟩

omit [DecidableEq τ] [DecidableEq ι] in
theorem Good.kernel (h : s.Good) (hok : Callers.Ok waitsOn { s.toCallers with kernel := k }) :
    Good { s with kernel := k, needSchedule := b } := ⟨hok, h.mutex, h.valid⟩

theorem Good.step (h : s.Good) {a : Act τ ι β} (hstep : Step s a s') : s'.Good := by
  obtain ⟨started, hinv⟩ := h.ok.inv
  cases a with
  | call r =>
    simp only [Step, exec] at hstep
    split_ifs at hstep with hret
    obtain ⟨p, hp, rfl⟩ := map_eq_some_iff.mp hstep
    obtain ⟨hmoves, hleaves⟩ := h.start hp
    obtain ⟨hok, hcur⟩ := h.moves hret hmoves
    exact h.finish hok hcur hleaves
  | go left =>
    simp only [Step, exec] at hstep
    split_ifs at hstep with hrun
    obtain ⟨c, hc, hstep⟩ := bind_eq_some_iff.mp hstep
    split_ifs at hstep with herror
    · cases hstep
      refine ⟨h.ok.enter hrun.1 none, h.mutex, ?_⟩
      intro t x hc
      by_cases ht : t = s.kernel.current
      · subst ht
        rw [Callers.enter_call_self] at hc
        cases hc
      · rw [Callers.enter_call_of_ne _ _ ht] at hc
        exact h.valid t x hc
    · obtain ⟨p, hp, rfl⟩ := map_eq_some_iff.mp hstep
      obtain ⟨hdoes, hleaves⟩ := h.proceed hp
      exact h.finish (h.ok.does hrun.1 rfl hdoes) (Callers.does_current hrun.1 hdoes) hleaves
  | post p =>
    obtain ⟨r, hr, rfl⟩ := map_eq_some_iff.mp hstep
    obtain ⟨hposts, hkeeps⟩ := h.post hr
    exact ⟨h.ok.posts hposts, hkeeps.mutex, fun t x hc => hkeeps.valid t (h.valid t x hc)⟩
  | changePriority t priority =>
    simp only [Step, exec] at hstep
    split_ifs at hstep with hp
    cases hstep
    exact h.kernel (h.ok.changePriority t hp)
  | resume t =>
    cases hstep
    exact h.kernel (h.ok.rtThreadResume t)
  | detach x =>
    cases hstep
    exact h.kernel (h.ok.wakes (.ipcListResumeAll h.ok.waits x))
  | sleep =>
    simp only [Step, exec] at hstep
    split_ifs at hstep with hret
    cases hstep
    exact h.kernel (h.ok.rtThreadSleep hret.1)
  | yield =>
    cases hstep
    exact h.kernel (h.ok.background (b := .yield) rfl).2
  | enterCritical =>
    cases hstep
    exact h.kernel (h.ok.background (b := .enterCritical) rfl).2
  | exitCritical =>
    cases hstep
    exact h.kernel (h.ok.background (b := .exitCritical) rfl).2
  | timeout t =>
    obtain ⟨c, hc, rfl⟩ := map_eq_some_iff.mp hstep
    obtain ⟨k, hk, rfl⟩ := Callers.timeout_cases hc
    exact h.kernel (h.ok.timeout hk)
  | tick =>
    cases hstep
    exact h.kernel (h.ok.background (b := .tick) rfl).2
  | schedule =>
    obtain ⟨k, hk, rfl⟩ := map_eq_some_iff.mp hstep
    exact h.kernel (h.ok.background (b := .schedule) hk).2

omit [DecidableEq τ] [DecidableEq ι] in
theorem Initial.good (h : s.Initial) : s.Good := by
  refine ⟨.start h.inv h.wait h.call, ?_, ?_⟩
  · intro x
    rw [h.mutex]
    exact .inl ⟨rfl, rfl, rfl⟩
  · intro t x hc
    cases (h.call t).symm.trans hc

end Objects.Sys

end RtKernel

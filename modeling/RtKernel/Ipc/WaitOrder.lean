import RtKernel.Ipc.StrictPriority

/-!
# The order of the waiters

A suspend list of an object with `RT_IPC_FLAG_PRIO` is ordered when a thread is
inserted: the most urgent waiter first, and of equally urgent ones the first to
come. A change of the priority of a waiter does not move it, so the list stays in
order only if the waiter's new priority fits its place.
-/

open List
open Option

namespace RtKernel.Objects

open Kernel

variable {τ ι β : Type*}

section

variable {ω : Type*} {k k' : Kernel τ ω} {since : τ → Nat}

/-- The thread `a` comes before `b`, which may have another priority. -/
def Precedes (k : Kernel τ ω) (since : τ → Nat) (a b : τ) : Prop :=
  (k.thread a).currentPriority < (k.thread b).currentPriority ∨
    (k.thread a).currentPriority = (k.thread b).currentPriority ∧ since a < since b

/-- A thread that comes last is inserted behind all that are as urgent. -/
theorem pairwise_orderedInsert {list : List τ} {c : τ} (h : list.Pairwise (Precedes k since))
    (hlast : ∀ t ∈ list, since t < since c) :
    (list.orderedInsert k.moreUrgent c).Pairwise (Precedes k since) := by
  induction list with
  | nil => exact pairwise_singleton _ _
  | cons b rest ih =>
    obtain ⟨hb, hrest⟩ := pairwise_cons.mp h
    by_cases hc : k.moreUrgent c b
    · rw [orderedInsert_cons, if_pos hc]
      refine pairwise_cons.mpr ⟨?_, h⟩
      intro t ht
      rcases mem_cons.mp ht with rfl | ht
      · exact .inl hc
      · have hle : (k.thread b).currentPriority ≤ (k.thread t).currentPriority := by
          rcases hb t ht with hlt | heq
          · exact hlt.le
          · exact heq.1.le
        exact .inl (Nat.lt_of_lt_of_le hc hle)
    · rw [orderedInsert_cons, if_neg hc]
      refine pairwise_cons.mpr
        ⟨?_, ih hrest fun t ht => hlast t (mem_cons_of_mem b ht)⟩
      intro t ht
      rcases mem_cons.mp ((perm_orderedInsert _ _ _).mem_iff.mp ht) with rfl | ht
      · have hle : (k.thread b).currentPriority ≤ (k.thread t).currentPriority := Nat.le_of_not_lt hc
        rcases hle.lt_or_eq with hlt | heq
        · exact .inl hlt
        · exact .inr ⟨heq, hlast b (.head _)⟩
      · exact hb t ht

/-- The suspend lists with `RT_IPC_FLAG_PRIO` are in order. -/
def Ordered (flag : ω → IpcFlag) (k : Kernel τ ω) (since : τ → Nat) : Prop :=
  ∀ w, flag w = .prio → (k.wait w).Pairwise (Precedes k since)

/-- With the new priority the thread is in order where it waits. -/
def Fits (flag : ω → IpcFlag) (k : Kernel τ ω) (since : τ → Nat) (t : τ) (priority : Nat) : Prop :=
  ∀ w front back, flag w = .prio → k.wait w = front ++ t :: back →
    (∀ a ∈ front, (k.thread a).currentPriority < priority ∨
      (k.thread a).currentPriority = priority ∧ since a < since t) ∧
    ∀ b ∈ back, priority < (k.thread b).currentPriority ∨
      priority = (k.thread b).currentPriority ∧ since t < since b

variable {flag : ω → IpcFlag} {since' : τ → Nat}

section

variable (h : Ordered flag k since)
include h

/-- Threads may leave the lists, if the others stay as they are. -/
theorem Ordered.sublist (hwait : ∀ w, (k'.wait w).Sublist (k.wait w))
    (hprio : ∀ w, ∀ t ∈ k'.wait w, (k'.thread t).currentPriority = (k.thread t).currentPriority)
    (hsince : ∀ w, ∀ t ∈ k'.wait w, since' t = since t) : Ordered flag k' since' := by
  intro w hw
  refine ((h w hw).sublist (hwait w)).imp_of_mem ?_
  intro a b ha hb hab
  unfold Precedes
  rw [hprio w a ha, hprio w b hb, hsince w a ha, hsince w b hb]
  exact hab

theorem Ordered.woken [DecidableEq τ] (hk : Woken k k') : Ordered flag k' since := by
  apply h.sublist hk.wait
  · exact fun _ t _ => hk.priority t
  · exact fun _ _ _ => rfl

theorem Ordered.changePriority [DecidableEq τ] {started : τ → Prop} {on : τ → Option ω}
    (hinv : k.Inv started) (hwaits : k.Waits on) {t : τ} {p : Nat}
    (hfits : Fits flag k since t p) : Ordered flag (k.changePriority t p) since := by
  have hwait := (calm_changePriority hwaits.onlySuspended t p).wait
  have hself := hinv.changePriority_self t p
  have hother : ∀ x, x ≠ t → ((k.changePriority t p).thread x).currentPriority =
      (k.thread x).currentPriority := by
    intro x hx
    rw [changePriority_of_ne hx]
  have hkeeps : ∀ list : List τ, t ∉ list → list.Pairwise (Precedes k since) →
      list.Pairwise (Precedes (k.changePriority t p) since) := by
    intro list ht hlist
    refine hlist.imp_of_mem ?_
    intro a b ha hb hab
    unfold Precedes
    rw [hother a (ne_of_mem_of_not_mem ha ht), hother b (ne_of_mem_of_not_mem hb ht)]
    exact hab
  intro w hw
  rw [hwait]
  by_cases ht : t ∈ k.wait w
  · obtain ⟨front, back, hsplit⟩ := append_of_mem ht
    obtain ⟨hfront, hback⟩ := hfits w front back hw hsplit
    have hord := h w hw
    have hnodup := hwaits.nodup w
    rw [hsplit] at hord hnodup ⊢
    obtain ⟨hnf, hnb⟩ : t ∉ front ∧ t ∉ back := by
      rw [nodup_append, nodup_cons] at hnodup
      exact ⟨fun hf => hnodup.2.2 t hf t (.head _) rfl, hnodup.2.1.1⟩
    obtain ⟨hord₁, hord₂, hcross⟩ := pairwise_append.mp hord
    obtain ⟨-, hord₂⟩ := pairwise_cons.mp hord₂
    refine pairwise_append.mpr ⟨hkeeps front hnf hord₁,
      pairwise_cons.mpr ⟨?_, hkeeps back hnb hord₂⟩, ?_⟩
    · intro b hb
      unfold Precedes
      rw [hself, hother b (ne_of_mem_of_not_mem hb hnb)]
      exact hback b hb
    · intro a ha b hb
      unfold Precedes
      rw [hother a (ne_of_mem_of_not_mem ha hnf)]
      rcases mem_cons.mp hb with rfl | hb'
      · rw [hself]
        exact hfront a ha
      · rw [hother b (ne_of_mem_of_not_mem hb' hnb)]
        exact hcross a ha b hb
  · exact hkeeps _ ht (h w hw)

end

/-- Whether a priority fits depends on the lists and the threads in them. -/
theorem Fits.congr {t : τ} {p : Nat} (h : Fits flag k since t p) (hwait : k'.wait = k.wait)
    (hprio : ∀ x, (k'.thread x).currentPriority = (k.thread x).currentPriority)
    (hsince : ∀ w, ∀ x ∈ k.wait w, since' x = since x) : Fits flag k' since' t p := by
  intro w front back hw hsplit
  rw [hwait] at hsplit
  obtain ⟨hfront, hback⟩ := h w front back hw hsplit
  have ht : since' t = since t := hsince w t (hsplit ▸ mem_append_right _ (.head _))
  constructor
  · intro a ha
    rw [hprio, ht, hsince w a (hsplit ▸ mem_append_left _ ha)]
    exact hfront a ha
  · intro b hb
    rw [hprio, ht, hsince w b (hsplit ▸ mem_append_right _ (.tail _ hb))]
    exact hback b hb

/-- A thread that is in no list may have any priority. -/
theorem fits_of_notMem {t : τ} (h : ∀ w, t ∉ k.wait w) (p : Nat) : Fits flag k since t p := by
  intro w front back _ hsplit
  refine absurd ?_ (h w)
  rw [hsplit]
  exact mem_append_right _ (.head _)

variable [DecidableEq τ] [DecidableEq ω]

/-- The list that the current thread is suspended on, when it is in none. -/
theorem block_wait_prio (w : ω) (timed : Bool) (hrun : (k.thread k.current).stat = .running)
    (hnot : k.current ∉ k.wait w) : ∃ k₂ : Kernel τ ω,
      (∀ t, (k₂.thread t).currentPriority = (k.thread t).currentPriority) ∧
        (k.block w .prio timed).wait w = (k.wait w).orderedInsert k₂.moreUrgent k.current := by
  obtain ⟨k₁, hk₁⟩ : ∃ k₁, k₁ = k.setThread k.current fun x => { x with error := .eok } := ⟨_, rfl⟩
  have hsus : k₁.rtThreadSuspend = k₁.suspend := by
    rw [rtThreadSuspend]
    simp [hk₁, hrun]
  refine ⟨k₁.suspend, ?_, ?_⟩
  · intro t
    by_cases ht : t = k.current
    · simp [suspend, hk₁, ht]
    · simp [suspend, hk₁, setThread_of_ne ht]
  · have hwait : k₁.suspend.wait w = k.wait w := by
      have hremove := rtListRemove_of_notMem hnot
      simpa [suspend, hk₁] using hremove
    have hlist : (k.block w .prio timed).wait w =
        (k₁.rtThreadSuspend.wait w).orderedInsert k₁.rtThreadSuspend.moreUrgent k.current := by
      rw [hk₁]
      cases timed with
      | false | true => exact Function.update_self ..
    rw [hlist, hsus, hwait]

/-- The current thread is suspended, and has come last. -/
theorem Ordered.block {on : τ → Option ω} (h : Ordered flag k since) (hwaits : k.Waits on)
    (hrun : (k.thread k.current).stat = .running)
    (hlast : ∀ w, ∀ t ∈ k.wait w, since t < since k.current) (x : ω) (timed : Bool) :
    Ordered flag (k.block x (flag x) timed) since := by
  have hnot : ∀ w, k.current ∉ k.wait w := by
    intro w ht
    cases hrun.symm.trans (hwaits.onlySuspended w _ ht)
  have hprio : ∀ t, ((k.block x (flag x) timed).thread t).currentPriority =
      (k.thread t).currentPriority := by
    obtain ⟨-, hself, hother, -⟩ := block_spec x (flag x) timed hrun
    intro t
    by_cases ht : t = k.current
    · rw [ht, hself]
    · rw [hother t ht]
  have hcongr : ∀ {k₁ k₂ : Kernel τ ω},
      (∀ t, (k₁.thread t).currentPriority = (k₂.thread t).currentPriority) →
        Precedes k₁ since = Precedes k₂ since := by
    intro k₁ k₂ hsame
    funext a b
    unfold Precedes
    rw [hsame, hsame]
  intro w hw
  rw [hcongr hprio]
  by_cases hwx : w = x
  · subst hwx
    rw [hw]
    obtain ⟨k₂, hprio₂, hwait⟩ := block_wait_prio w timed hrun (hnot w)
    have hord := h w hw
    rw [hwait, ← hcongr hprio₂]
    rw [← hcongr hprio₂] at hord
    exact pairwise_orderedInsert hord (hlast w)
  · rw [(block_spec x (flag x) timed hrun).2.2.2.1 w hwx, rtListRemove_of_notMem (hnot w)]
    exact h w hw

end

namespace Sys

variable {κ ω : Type*} [DecidableEq τ] [DecidableEq ω] {waitsOn : κ → Option ω}

/-- A part of a call that changes no priority keeps the order. -/
theorem ordered_does {s : Callers τ ω κ} (h : s.Ok waitsOn) (hrun : s.Running) {since : τ → Nat}
    {flag : ω → IpcFlag} (hord : Ordered flag s.kernel since)
    (hlast : ∀ w, ∀ t ∈ s.kernel.wait w, since t < since s.kernel.current) {k : Kernel τ ω}
    {w : Option ω} {b : Bool} (hk : Does flag s.kernel k w b) : Ordered flag k since := by
  cases hk with
  | post hk =>
    cases hk with
    | same => exact hord
    | wake hk => exact hord.woken hk.woken
  | error err =>
    refine hord.sublist (fun _ => .refl _) ?_ fun _ _ _ => rfl
    intro w t ht
    rw [Kernel.setError, setThread_of_ne]
    rintro rfl
    cases hrun.symm.trans (h.waits.onlySuspended w _ ht)
  | wait x timed => exact hord.block h.waits hrun hlast x timed

end Sys

/-- The system, with the step at which each waiter has come. -/
structure Timed (τ ι β : Type*) where
  sys : Sys τ ι β
  since : τ → Nat
  clock : Nat

namespace Timed

/-- The thread is suspended in a call. -/
def waiting (s : Sys τ ι β) (t : τ) : Prop :=
  (s.kernel.thread t).stat = .suspend ∧ (s.on waitsOn t).isSome

instance (s : Sys τ ι β) : DecidablePred (waiting s) := fun _ =>
  inferInstanceAs (Decidable (_ ∧ _))

variable [DecidableEq τ] [DecidableEq ι]

/-- Whoever waits keeps the time at which it came. -/
def since' (s : Timed τ ι β) (t : τ) : Nat := if waiting s.sys t then s.since t else s.clock

def exec (s : Timed τ ι β) (a : Act τ ι β) : Option (Timed τ ι β) :=
  (s.sys.exec a).map fun sys => { sys := sys, since := s.since', clock := s.clock + 1 }

def Step (s : Timed τ ι β) (a : Act τ ι β) (s' : Timed τ ι β) : Prop := s.exec a = some s'

def Initial (s : Timed τ ι β) : Prop := s.sys.Initial

/-- The new priority of a thread that waits fits its place, whether it is requested or lent. -/
def Careful (s : Timed τ ι β) (a : Act τ ι β) : Prop :=
  let k := s.sys.kernel
  match a with
  | .changePriority t priority => Fits s.sys.objects.flag k s.since t priority
  | .call (.mutexTake x timeout) =>
      ∀ owner, (s.sys.objects.mutex x).owner = some owner → owner ≠ k.current → timeout ≠ 0 →
        (k.thread k.current).currentPriority < (k.thread owner).currentPriority →
        Fits s.sys.objects.flag k s.since owner (k.thread k.current).currentPriority
  | _ => True

/-- The invariant of a run. -/
structure Good (s : Timed τ ι β) : Prop where
  good : s.sys.Good
  past : ∀ w, ∀ t ∈ s.sys.kernel.wait w, s.since t < s.clock
  ordered : Ordered s.sys.objects.flag s.sys.kernel s.since

variable {s s' : Timed τ ι β} {a : Act τ ι β}

section

omit [DecidableEq τ] [DecidableEq ι]

theorem Good.since_eq (h : s.Good) (w : WaitList ι) (t : τ) (ht : t ∈ s.sys.kernel.wait w) :
    s.since' t = s.since t := by
  obtain ⟨hstat, hon⟩ := (h.good.ok.waits.mem w t).mp ht
  exact if_pos ⟨hstat, isSome_of_mem hon⟩

theorem Good.ordered_since (h : s.Good) : Ordered s.sys.objects.flag s.sys.kernel s.since' :=
  h.ordered.sublist (fun _ => .refl _) (fun _ _ _ => rfl) h.since_eq

/-- If the current thread is suspended now, it comes last. -/
theorem Good.last (h : s.Good) (hrun : s.sys.Running) (w : WaitList ι) (t : τ)
    (ht : t ∈ s.sys.kernel.wait w) : s.since' t < s.since' s.sys.kernel.current := by
  have hcur : s.since' s.sys.kernel.current = s.clock := by
    apply if_neg
    rintro ⟨hstat, -⟩
    cases hrun.symm.trans hstat
  rw [hcur, h.since_eq w t ht]
  exact h.past w t ht

end

omit [DecidableEq ι] in
/-- The last release keeps the order: the current thread is in no list. -/
theorem Good.ordered_restore (h : s.Good) (hrun : s.sys.Running) (p : Nat) :
    Ordered s.sys.objects.flag (Mutex.restore s.sys.kernel p) s.since' := by
  obtain ⟨started, hinv⟩ := h.good.ok.inv
  rcases restore_cases s.sys.kernel p with hk | hk
  · rw [hk]
    exact h.ordered_since
  · rw [hk]
    apply h.ordered_since.changePriority hinv h.good.ok.waits
    apply fits_of_notMem
    intro w ht
    exact h.good.ne_current hrun ht rfl

theorem Good.ordered_moves (h : s.Good) (hret : s.sys.Returned) {r : Request ι β}
    (hcare : s.Careful (.call r)) {k : Kernel τ (WaitList ι)} {w : Option (WaitList ι)} {b : Bool}
    (hmoves : Sys.Moves s.sys r k w b) : Ordered s.sys.objects.flag k s.since' := by
  obtain ⟨hfree, -⟩ := hret
  cases hmoves with
  | does hdoes => exact Sys.ordered_does h.good.ok hfree.1 h.ordered_since (h.last hfree.1) hdoes
  | @lend x timeout owner timed howner hne ht =>
    obtain ⟨k₁, hk₁⟩ : ∃ k₁, k₁ = s.sys.kernel.setError .eok := ⟨_, rfl⟩
    have hok₁ : Callers.Ok waitsOn { s.sys.toCallers with kernel := k₁ } := by
      rw [hk₁]
      exact h.good.ok.setError hfree.1 .eok
    have hfree₁ : Callers.Free { s.sys.toCallers with kernel := k₁ } := by
      rw [hk₁]
      exact ⟨Callers.running_setError hfree.1 .eok, hfree.2⟩
    have hprio₁ : ∀ t, (k₁.thread t).currentPriority = (s.sys.kernel.thread t).currentPriority := by
      rw [hk₁]
      exact setThread_priority _ rfl
    have hwait₁ : k₁.wait = s.sys.kernel.wait := by
      rw [hk₁]
      rfl
    have hcur₁ : k₁.current = s.sys.kernel.current := by
      rw [hk₁]
      rfl
    have hord₁ : Ordered s.sys.objects.flag k₁ s.since' := by
      apply h.ordered_since.sublist
      · intro w
        rw [hwait₁]
      · exact fun _ t _ => hprio₁ t
      · exact fun _ _ _ => rfl
    obtain ⟨started₁, hinv₁⟩ := hok₁.inv
    obtain ⟨hok₂, hfree₂, hcur₂, hwait₂⟩ := hok₁.setPriority hfree₁ (hinv₁.queues.priority _)
      (lend_cases k₁ owner)
    have hord₂ : Ordered s.sys.objects.flag (Mutex.lend k₁ owner) s.since' := by
      by_cases hlt : (k₁.thread k₁.current).currentPriority < (k₁.thread owner).currentPriority
      · have hlend : Mutex.lend k₁ owner =
            k₁.changePriority owner (k₁.thread k₁.current).currentPriority := if_pos hlt
        rw [hlend]
        apply hord₁.changePriority hinv₁ hok₁.waits
        rw [hprio₁, hprio₁, hcur₁] at hlt
        rw [hprio₁, hcur₁]
        exact (hcare owner howner hne ht hlt).congr hwait₁ hprio₁ h.since_eq
      · have hlend : Mutex.lend k₁ owner = k₁ := if_neg hlt
        rw [hlend]
        exact hord₁
    rw [← hk₁]
    refine hord₂.block hok₂.waits hfree₂.1 ?_ (.mutex x) timed
    intro w t ht
    rw [hwait₂] at ht
    rw [hcur₂]
    rw [hwait₁] at ht
    rw [hcur₁]
    exact h.last hfree.1 w t ht
  | @hand x t rest howner hwait =>
    exact (h.ordered_restore hfree.1 _).woken (woken_rtThreadResume _ t)
  | restore howner hhold hwait => exact h.ordered_restore hfree.1 _

theorem Good.ordered_step (h : s.Good) (hcare : s.Careful a) {sys : Sys τ ι β}
    (hstep : Sys.Step s.sys a sys) : Ordered sys.objects.flag sys.kernel s.since' := by
  obtain ⟨started, hinv⟩ := h.good.ok.inv
  have hcalm : ∀ {b k}, s.sys.kernel.background b = some k →
      (∀ x, (k.thread x).currentPriority = (s.sys.kernel.thread x).currentPriority) →
        Ordered s.sys.objects.flag k s.since' := by
    intro b k hk hprio
    have hsame := calm_background hinv h.good.ok.waits.onlySuspended hk
    apply h.ordered_since.sublist
    · intro w
      rw [hsame.wait]
    · exact fun _ t _ => hprio t
    · exact fun _ _ _ => rfl
  cases a with
  | call r =>
    simp only [Sys.Step, Sys.exec] at hstep
    split_ifs at hstep with hret
    obtain ⟨p, hp, rfl⟩ := map_eq_some_iff.mp hstep
    obtain ⟨hmoves, hleaves⟩ := h.good.start hp
    have hord := h.ordered_moves hret hcare hmoves
    rw [← hleaves.keeps.flag] at hord
    exact hord
  | go left =>
    simp only [Sys.Step, Sys.exec] at hstep
    split_ifs at hstep with hrun
    obtain ⟨c, hc, hstep⟩ := bind_eq_some_iff.mp hstep
    split_ifs at hstep with herror
    · cases hstep
      exact h.ordered_since
    · obtain ⟨p, hp, rfl⟩ := map_eq_some_iff.mp hstep
      obtain ⟨hdoes, hleaves⟩ := h.good.proceed hp
      have hord := Sys.ordered_does h.good.ok hrun.1 h.ordered_since (h.last hrun.1) hdoes
      rw [← hleaves.keeps.flag] at hord
      exact hord
  | post p =>
    obtain ⟨r, hr, rfl⟩ := map_eq_some_iff.mp hstep
    obtain ⟨hposts, hkeeps⟩ := h.good.post hr
    have hord : Ordered s.sys.objects.flag r.1 s.since' := by
      generalize r.1 = k, r.2.2 = b at hposts ⊢
      cases hposts with
      | same => exact h.ordered_since
      | wake hk => exact h.ordered_since.woken hk.woken
    rw [← hkeeps.flag] at hord
    exact hord
  | changePriority t priority =>
    simp only [Sys.Step, Sys.exec] at hstep
    split_ifs at hstep with hp
    cases hstep
    apply h.ordered_since.changePriority hinv h.good.ok.waits
    exact Fits.congr hcare rfl (fun _ => rfl) h.since_eq
  | resume t =>
    cases hstep
    exact h.ordered_since.woken (woken_rtThreadResume _ t)
  | detach x =>
    cases hstep
    exact h.ordered_since.woken (Wakes.ipcListResumeAll h.good.ok.waits x).woken
  | sleep =>
    simp only [Sys.Step, Sys.exec] at hstep
    split_ifs at hstep with hret
    cases hstep
    obtain ⟨-, hwait, hself, hother⟩ := rtThreadSleep_spec hret.1.1
    apply h.ordered_since.sublist
    · intro w
      simp only [hwait]
      exact rtListRemove_sublist _
    · intro w t _
      by_cases ht : t = s.sys.kernel.current
      · rw [ht, hself]
      · rw [hother t ht]
    · exact fun _ _ _ => rfl
  | yield =>
    cases hstep
    exact hcalm (b := .yield) rfl (background_priority hinv (b := .yield) rfl)
  | enterCritical =>
    cases hstep
    exact hcalm (b := .enterCritical) rfl fun _ => rfl
  | exitCritical =>
    cases hstep
    exact hcalm (b := .exitCritical) rfl fun _ => rfl
  | timeout t =>
    obtain ⟨c, hc, rfl⟩ := map_eq_some_iff.mp hstep
    obtain ⟨k, hk, rfl⟩ := Callers.timeout_cases hc
    obtain ⟨-, -, hwait, hself, hother⟩ := threadTimeout_spec hk
    apply h.ordered_since.sublist
    · intro w
      simp only [hwait]
      exact rtListRemove_sublist _
    · intro w x _
      by_cases hx : x = t
      · rw [hx, hself]
      · rw [hother x hx]
    · exact fun _ _ _ => rfl
  | tick =>
    cases hstep
    exact hcalm (b := .tick) rfl (background_priority hinv (b := .tick) rfl)
  | schedule =>
    obtain ⟨k, hk, rfl⟩ := map_eq_some_iff.mp hstep
    exact hcalm (b := .schedule) hk (rtSchedule_priority hinv hk)

theorem Good.step (h : s.Good) (hcare : s.Careful a) (hstep : Step s a s') :
    s'.Good := by
  obtain ⟨sys, hsys, rfl⟩ := map_eq_some_iff.mp hstep
  refine ⟨h.good.step hsys, ?_, h.ordered_step hcare hsys⟩
  intro w t _
  by_cases ht : waiting s.sys t
  · obtain ⟨v, hv⟩ := isSome_iff_exists.mp ht.2
    have hmem := (h.good.ok.waits.mem v t).mpr ⟨ht.1, hv⟩
    simp only [h.since_eq v t hmem]
    exact Nat.lt_succ_of_lt (h.past v t hmem)
  · have hnow : s.since' t = s.clock := if_neg ht
    simp only [hnow]
    exact Nat.lt_succ_self _

omit [DecidableEq τ] [DecidableEq ι] in
theorem good_of_initial (h : s.Initial) : s.Good := by
  refine ⟨Sys.Initial.good h, ?_, ?_⟩
  · intro w t ht
    rw [Sys.Initial.wait h] at ht
    cases ht
  · intro w _
    rw [Sys.Initial.wait h]
    exact .nil

/-- The list is in order, and a wake-up serves one of its most urgent threads. -/
def Serves (s : Timed τ ι β) (w : WaitList ι) : Prop :=
  (s.sys.kernel.wait w).Pairwise (Precedes s.sys.kernel s.since) ∧
    ∀ k, s.sys.kernel.ipcListResume w = some k →
      ∃ t ∈ s.sys.kernel.wait w, k = s.sys.kernel.rtThreadResume t ∧
        ∀ x ∈ s.sys.kernel.wait w,
          (s.sys.kernel.thread t).currentPriority ≤ (s.sys.kernel.thread x).currentPriority

omit [DecidableEq ι] in
theorem Good.serves (h : s.Good) {w : WaitList ι} (hw : s.sys.objects.flag w = .prio) :
    s.Serves w := by
  have hord := h.ordered w hw
  refine ⟨hord, ?_⟩
  intro k hk
  obtain ⟨t, rest, hlist, -⟩ := h.good.ok.waits.ipcListResume hk
  rw [Kernel.ipcListResume, hlist] at hk
  cases hk
  rw [hlist] at hord ⊢
  refine ⟨t, .head _, rfl, ?_⟩
  intro x hx
  rcases mem_cons.mp hx with rfl | hx
  · exact le_refl _
  · rcases (pairwise_cons.mp hord).1 x hx with hlt | heq
    · exact hlt.le
    · exact heq.1.le

/-- Before the first step. -/
def start : Timed (Fin 3) Unit Nat := { sys := Sys.start, since := fun _ => 0, clock := 0 }

/-- Two threads wait for the semaphore; the more urgent one has come later. -/
def twoWaiters : List (Act (Fin 3) Unit Nat) :=
  [.schedule, .call (.semTake () (-1)), .timeout 1, .schedule, .call (.semTake () (-1))]

/-- The owner of the mutex waits for the semaphore behind a more urgent thread. -/
def ownerWaits : List (Act (Fin 3) Unit Nat) :=
  [.schedule, .call (.mutexTake () (-1)), .timeout 1, .schedule, .call (.semTake () (-1)), .schedule,
    .call (.semTake () (-1)), .timeout 0, .schedule]

/-- In every careful run each list with `RT_IPC_FLAG_PRIO` is in order, and a wake-up serves one of
its most urgent threads. -/
theorem reachable_serves (s : Timed τ ι β) (h : Reachable Initial (Within Step Careful) s)
    (w : WaitList ι) (hw : s.sys.objects.flag w = .prio) : s.Serves w := by
  have hgood : s.Good := h.invariant (fun _ h₀ => good_of_initial h₀)
    fun _ _ _ _ hgood hstep => hgood.step hstep.1 hstep.2
  exact hgood.serves hw

/-- The more urgent thread is queued in front. -/
theorem reachable_serves_two : ∃ s : Timed (Fin 3) Unit Nat,
    s.sys.kernel.wait (.sem ()) = [1, 2] ∧ s.Serves (.sem ()) := by
  obtain ⟨s, hs, hlist, hflag⟩ :
      ∃ s ∈ runAll exec start twoWaiters, s.sys.kernel.wait (.sem ()) = [1, 2] ∧
      s.sys.objects.flag (.sem ()) = .prio := by decide +kernel
  have hcare : ∀ a ∈ twoWaiters, ∀ s : Timed (Fin 3) Unit Nat, s.Careful a := by
    intro a ha s
    simp only [twoWaiters, List.mem_cons, List.not_mem_nil, or_false] at ha
    rcases ha with rfl | rfl | rfl | rfl | rfl <;> trivial
  have hstart : Initial start := Sys.start_initial
  have hreach := (Reachable.start hstart).runAll_within hcare hs
  exact ⟨s, hlist, reachable_serves s hreach (.sem ()) hflag⟩

/-- The priority that the owner of the mutex is lent does not move it in the list of the semaphore. -/
theorem lent_out_of_order : ∃ s s' : Timed (Fin 3) Unit Nat, Reachable Initial Step s ∧
    Step s (.call (.mutexTake () (-1))) s' ∧ s'.sys.objects.flag (.sem ()) = .prio ∧
      ¬ s'.Serves (.sem ()) := by
  obtain ⟨s', hs', hlist, hflag, h₁, h₂⟩ : ∃ s ∈ runAll exec start (ownerWaits ++
      ([.call (.mutexTake () (-1))] : List (Act (Fin 3) Unit Nat))),
      s.sys.kernel.wait (.sem ()) = [1, 2] ∧ s.sys.objects.flag (.sem ()) = .prio ∧
      (s.sys.kernel.thread 1).currentPriority = 10 ∧
      (s.sys.kernel.thread 2).currentPriority = 5 := by decide +kernel
  obtain ⟨s, hs, hstep⟩ := runAll_concat hs'
  have hstart : Reachable Initial Step start := Reachable.start Sys.start_initial
  refine ⟨s, s', hstart.runAll hs, hstep, hflag, ?_⟩
  rintro ⟨hord, -⟩
  rw [hlist] at hord
  have hpair := (List.pairwise_cons.mp hord).1 2 List.mem_cons_self
  unfold Precedes at hpair
  rw [h₁, h₂] at hpair
  omega

end Timed

end RtKernel.Objects

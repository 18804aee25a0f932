import RtKernel.Timer.Runs

/-!
# Timers keep their deadlines

The list is ordered by deadline, and by the order of the starts where deadlines
agree. Deadlines lie less than half a turn ahead, so the wrapped comparisons of
the code agree with this order, whatever the tick counter reads.
-/

namespace RtKernel.Timer

open Timers Function List

/-- Insertion into an ordered list, when the test of the insertion decides the order. -/
theorem pairwise_orderedInsert {α : Type*} {r lt : α → α → Prop} [DecidableRel r] {a : α}
    (htrans : ∀ x y z, lt x y → lt y z → lt x z) :
    ∀ l : List α, l.Pairwise lt → (∀ b ∈ l, r a b → lt a b) → (∀ b ∈ l, ¬ r a b → lt b a) →
      (l.orderedInsert r a).Pairwise lt := by
  intro l
  induction l with
  | nil =>
    intro _ _ _
    exact pairwise_singleton lt a
  | cons b l ih =>
    intro hl hlt hgt
    obtain ⟨hb, hl⟩ := pairwise_cons.mp hl
    rw [orderedInsert_cons]
    by_cases hab : r a b
    · rw [if_pos hab]
      have hlt' := hlt b (.head _) hab
      apply List.Pairwise.cons _ (List.Pairwise.cons hb hl)
      intro x hx
      rcases mem_cons.mp hx with rfl | hx
      · exact hlt'
      · exact htrans _ _ _ hlt' (hb x hx)
    · rw [if_neg hab]
      apply List.Pairwise.cons
      · intro x hx
        rcases (mem_orderedInsert r).mp hx with rfl | hx
        · exact hgt b (.head _) hab
        · exact hb x hx
      · exact ih hl (fun x hx => hlt x (mem_cons_of_mem b hx))
          fun x hx => hgt x (mem_cons_of_mem b hx)

namespace Sys

variable {τ : Type*}

/-- The order of the list. -/
def Before (s : Sys τ) (a b : τ) : Prop :=
  Earlier (s.deadline a) (s.serial a) (s.deadline b) (s.serial b)

/-- Where a timer started at `n` stands after its callback was invoked `k` times. -/
structure OnSchedule (s : Sys τ) (t : τ) (n k : Nat) : Prop where
  fires : s.fires t = (List.range k).map fun i => n + (i + 1) * (s.timers.timer t).initTick
  past : n + k * (s.timers.timer t).initTick ≤ s.now
  activated : (s.timers.timer t).periodic = true → (s.timers.timer t).activated = true
  /-- It waits for its next timeout, or is in its callback, or was a one-shot timer. -/
  place : t ∈ s.timers.timerList ∧ s.deadline t = n + (k + 1) * (s.timers.timer t).initTick ∧
        ((s.timers.timer t).periodic = false → k = 0) ∨
      t ∈ s.timers.list ∧ n + k * (s.timers.timer t).initTick = s.now ∧
        ((s.timers.timer t).periodic = false → k = 1) ∨
      t ∉ s.timers.timerList ∧ (s.timers.timer t).periodic = false ∧ k = 1

/-- The invariant of the timers. -/
structure Good (s : Sys τ) : Prop where
  tick : s.timers.rtTick = s.now % 2 ^ 32
  initTick : ∀ t, ValidTime (s.timers.timer t).initTick
  /-- A timer in the list times out at its deadline, less than half a turn ahead. -/
  timeout : ∀ t ∈ s.timers.timerList, (s.timers.timer t).timeoutTick = s.deadline t % 2 ^ 32 ∧
    s.now ≤ s.deadline t ∧ s.deadline t < s.now + 0x7fffffff
  sorted : s.timers.timerList.Pairwise s.Before
  serial : ∀ t ∈ s.timers.timerList, s.serial t < s.starts
  /-- When a check is complete, no timer in the list is due. -/
  due : s.check = .idle → ∀ t ∈ s.timers.timerList, s.now < s.deadline t
  loop : ∀ currentTick, s.check = .loop currentTick → currentTick = s.timers.rtTick
  /-- The local list of the check holds at most the timer whose callback runs. -/
  list : ∀ t ∈ s.timers.list,
    s.check = .callback t ∧ s.timers.list = [t] ∧ t ∉ s.timers.timerList
  /-- The check is that of a tick. -/
  ticked : s.check = .idle ∨ 1 ≤ s.now
  /-- The callbacks were invoked in order, ... -/
  log : s.log.Pairwise fun e e' => Earlier e.time e.serial e'.time e'.serial
  /-- ... and those still to come come after them. -/
  logged : ∀ e ∈ s.log, e.time ≤ s.now ∧
    ∀ t ∈ s.timers.timerList, Earlier e.time e.serial (s.deadline t) (s.serial t)
  schedule : ∀ t n, s.started t = some n → ∃ k, s.OnSchedule t n k

variable {s : Sys τ}

theorem Initial.good (h : s.Initial) : s.Good := by
  obtain ⟨htick, hlist, htmp, hinit, hcheck, hstarted, hlog⟩ := h
  refine ⟨htick, hinit, ?_, ?_, ?_, ?_, ?_, ?_, .inl hcheck, ?_, ?_, ?_⟩
  · simp [hlist]
  · simp [hlist]
  · simp [hlist]
  · simp [hlist]
  · simp [hcheck]
  · simp [htmp]
  · simp [hlog]
  · simp [hlog]
  · simp [hstarted]

variable {t : τ}

/-- What `OnSchedule` says of `t` depends on `t` alone. -/
theorem OnSchedule.congr {s s' : Sys τ} {n k : Nat} (h : s.OnSchedule t n k)
    (hfires : s'.fires t = s.fires t) (hnow : s'.now = s.now)
    (htimer : s'.timers.timer t = s.timers.timer t) (hdead : s'.deadline t = s.deadline t)
    (hmem : t ∈ s'.timers.timerList ↔ t ∈ s.timers.timerList)
    (htmp : t ∈ s'.timers.list ↔ t ∈ s.timers.list) : s'.OnSchedule t n k where
  fires := by rw [hfires, htimer, h.fires]
  past := by
    rw [htimer, hnow]
    exact h.past
  activated := by
    rw [htimer]
    exact h.activated
  place := by
    rw [htimer, hnow, hdead, hmem, htmp]
    exact h.place

theorem Good.stopsAt_iff (h : s.Good) {t p : τ} {m : Timers τ}
    (hp : p ∈ s.timers.timerList) (hmp : m.timer p = s.timers.timer p)
    (hmt : (m.timer t).timeoutTick = add32 s.timers.rtTick (s.timers.timer t).initTick) :
    m.stopsAt t p ↔ s.now + (s.timers.timer t).initTick < s.deadline p := by
  obtain ⟨htimeout, hle, hlt⟩ := h.timeout p hp
  obtain ⟨hpos, hhalf⟩ := h.initTick t
  rw [rtTickMax_half] at hhalf
  unfold stopsAt
  rw [hmp, hmt, htimeout, h.tick, add32_mod, sub32_lt_half_iff (by omega) (by omega), ne_eq,
    sub32_eq_zero_iff (by omega) (by omega)]
  omega

variable {currentTick : Nat}

/-- The head of the list is expired exactly when its deadline is now. -/
theorem Good.expired_iff (h : s.Good)
    (hloop : s.check = .loop currentTick) (ht : t ∈ s.timers.timerList) :
    sub32 currentTick (s.timers.timer t).timeoutTick < rtTickMax / 2 ↔ s.deadline t = s.now := by
  obtain ⟨htimeout, hle, hlt⟩ := h.timeout t ht
  rw [h.loop currentTick hloop, htimeout, h.tick, sub32_lt_half_iff (by omega) hlt]
  omega

variable [DecidableEq τ] {a : Act τ}

theorem Good.stopped (h : s.Good) (t : τ) :
    (s.recordStop t).Good ∧ (s.recordStop t).started t = none := by
  have hself : (s.recordStop t).started t = none := update_self ..
  refine ⟨⟨h.tick, h.initTick, h.timeout, h.sorted, h.serial, h.due, h.loop, h.list, h.ticked,
    h.log, h.logged, ?_⟩, hself⟩
  intro p n hp
  have hne : p ≠ t := by
    rintro rfl
    rw [hself] at hp
    cases hp
  obtain ⟨k, hk⟩ := h.schedule p n ((update_of_ne hne ..).symm.trans hp)
  exact ⟨k, hk.fires, hk.past, hk.activated, hk.place⟩

/-- A timer that the application has not started may be changed, but not when it times out. -/
theorem Good.adjust (h : s.Good) (ht : s.started t = none)
    (f : RtTimer → RtTimer) (hf : ValidTime (f (s.timers.timer t)).initTick)
    (htimeout : t ∈ s.timers.timerList →
      (f (s.timers.timer t)).timeoutTick = (s.timers.timer t).timeoutTick) :
    Good { s with timers := s.timers.setTimer t f } := by
  refine ⟨h.tick, ?_, ?_, h.sorted, h.serial, h.due, h.loop, h.list, h.ticked, h.log, h.logged, ?_⟩
  · intro p
    by_cases hp : p = t
    · rw [hp, setTimer_self]
      exact hf
    · rw [setTimer_of_ne _ _ _ hp]
      exact h.initTick p
  · intro p hmem
    by_cases hp : p = t
    · subst hp
      rw [setTimer_self, htimeout hmem]
      exact h.timeout p hmem
    · rw [setTimer_of_ne _ _ _ hp]
      exact h.timeout p hmem
  · intro p n hp
    have hne : p ≠ t := by
      rintro rfl
      rw [ht] at hp
      cases hp
    obtain ⟨k, hk⟩ := h.schedule p n hp
    exact ⟨k, hk.congr rfl rfl (setTimer_of_ne _ _ _ hne) rfl Iff.rfl Iff.rfl⟩

/-- A timer may be unlinked when nothing is expected of it, and the check goes on after it. -/
theorem Good.unlink (h : s.Good) {check : Check τ}
    (hcheck : check = s.check ∨ s.check = .callback t ∧ check = .loop s.timers.rtTick)
    (hsched : ∀ n, s.started t = some n →
      ∃ k, OnSchedule { s with timers := s.timers.timerRemove t, check := check } t n k) :
    Good { s with timers := s.timers.timerRemove t, check := check } := by
  have hold : ∀ p ∈ rtListRemove s.timers.timerList t, p ∈ s.timers.timerList := fun p hp =>
    (mem_rtListRemove.mp hp).1
  refine ⟨h.tick, h.initTick, ?_, h.sorted.sublist (rtListRemove_sublist _), ?_, ?_, ?_, ?_, ?_,
    h.log, ?_, ?_⟩
  · intro p hp
    exact h.timeout p (hold p hp)
  · intro p hp
    exact h.serial p (hold p hp)
  · intro hidle p hp
    rcases hcheck with hc | ⟨-, hc⟩
    · exact h.due (hc ▸ hidle) p (hold p hp)
    · exact absurd (hc.symm.trans hidle) nofun
  · intro currentTick hloop
    rcases hcheck with hc | ⟨-, hc⟩
    · exact h.loop currentTick (hc ▸ hloop)
    · cases hc.symm.trans hloop
      rfl
  · intro p hp
    obtain ⟨hp, hne⟩ := mem_rtListRemove.mp hp
    obtain ⟨hcall, hlist, hnot⟩ := h.list p hp
    rcases hcheck with hc | ⟨hc, -⟩
    · refine ⟨hc.trans hcall, ?_, fun hmem => hnot (hold p hmem)⟩
      change rtListRemove s.timers.list t = [p]
      rw [hlist]
      exact rtListRemove_of_notMem fun ht => hne (mem_singleton.mp ht).symm
    · cases hcall.symm.trans hc
      exact absurd rfl hne
  · rcases hcheck with hc | ⟨hc, -⟩
    · exact hc ▸ h.ticked
    · exact .inr (h.ticked.resolve_left fun hidle => by cases hc.symm.trans hidle)
  · intro e he
    refine ⟨(h.logged e he).1, ?_⟩
    intro p hp
    exact (h.logged e he).2 p (hold p hp)
  · intro p n hp
    by_cases hpt : p = t
    · subst hpt
      exact hsched n hp
    · obtain ⟨k, hk⟩ := h.schedule p n hp
      refine ⟨k, hk.congr rfl rfl rfl rfl ?_ ?_⟩
      · simp [hpt]
      · simp [hpt]

/-- A started timer is due after `init_tick` ticks. -/
theorem recordStart_self (s : Sys τ) (t : τ) :
    (s.recordStart t).deadline t = s.now + (s.timers.timer t).initTick ∧
      (s.recordStart t).serial t = s.starts :=
  ⟨update_self .., update_self ..⟩

theorem recordStart_of_ne (s : Sys τ) (t : τ) :
    (∀ p ≠ t, (s.recordStart t).deadline p = s.deadline p) ∧
      ∀ p ≠ t, (s.recordStart t).serial p = s.serial p :=
  ⟨fun _ hp => update_of_ne hp .., fun _ hp => update_of_ne hp ..⟩

section

variable (h : s.Good)
include h

theorem Good.start_sorted (t : τ) :
    (s.timers.rtTimerStart t).timerList.Pairwise (s.recordStart t).Before := by
  obtain ⟨hdt, hst⟩ := recordStart_self s t
  obtain ⟨hdp, hsp⟩ := recordStart_of_ne s t
  rw [rtTimerStart]
  have htrans : ∀ x y z, (s.recordStart t).Before x y → (s.recordStart t).Before y z →
      (s.recordStart t).Before x z := fun _ _ _ => Earlier.trans
  apply pairwise_orderedInsert htrans
  · apply (h.sorted.sublist (rtListRemove_sublist t)).imp_of_mem
    intro a b ha hb hab
    have hat := (mem_rtListRemove.mp ha).2
    have hbt := (mem_rtListRemove.mp hb).2
    rw [Before, hdp a hat, hsp a hat, hdp b hbt, hsp b hbt]
    exact hab
  all_goals
    intro p hp hstop
    obtain ⟨hp, hpt⟩ := mem_rtListRemove.mp hp
    rw [h.stopsAt_iff hp (by simp [setTimer_of_ne _ _ _ hpt]) (by simp)] at hstop
    rw [Before, hdt, hst, hdp p hpt, hsp p hpt]
  · exact .inl hstop
  · rcases Nat.lt_or_ge (s.deadline p) (s.now + (s.timers.timer t).initTick) with hlt | hge
    · exact .inl hlt
    · exact .inr ⟨by omega, h.serial p hp⟩

/-- A call of `rt_timer_start` keeps the invariant, when `t` is on schedule afterwards. -/
theorem Good.restart (t : τ) {started : τ → Option Nat}
    {fires : τ → List Nat} {check : Check τ} (hstarted : ∀ p ≠ t, started p = s.started p)
    (hfires : ∀ p ≠ t, fires p = s.fires p)
    (hcheck : check = s.check ∨ s.check = .callback t ∧ check = .loop s.timers.rtTick)
    (hsched : ∀ n, started t = some n → ∃ k, OnSchedule { s.recordStart t with
      timers := s.timers.rtTimerStart t, started := started, fires := fires, check := check } t n k) :
    Good { s.recordStart t with
      timers := s.timers.rtTimerStart t, started := started, fires := fires, check := check } := by
  obtain ⟨hpos, hhalf⟩ := h.initTick t
  rw [rtTickMax_half] at hhalf
  obtain ⟨hdt, hst⟩ := recordStart_self s t
  obtain ⟨hdp, hsp⟩ := recordStart_of_ne s t
  have hold : ∀ p ≠ t, p ∈ (s.timers.rtTimerStart t).timerList → p ∈ s.timers.timerList :=
    fun p hp hmem => (mem_rtTimerStart.mp hmem).resolve_left hp
  refine ⟨h.tick, ?_, ?_, h.start_sorted t, ?_, ?_, ?_, ?_, ?_, h.log, ?_, ?_⟩
  · intro p
    by_cases hp : p = t
    · rw [hp, rtTimerStart_self]
      exact h.initTick t
    · rw [rtTimerStart_of_ne _ _ hp]
      exact h.initTick p
  · intro p hmem
    change ((s.timers.rtTimerStart t).timer p).timeoutTick = (s.recordStart t).deadline p % 2 ^ 32 ∧
      s.now ≤ (s.recordStart t).deadline p ∧ (s.recordStart t).deadline p < s.now + 0x7fffffff
    by_cases hp : p = t
    · rw [hp, rtTimerStart_self, hdt, h.tick]
      exact ⟨add32_mod _ _, by omega, by omega⟩
    · rw [rtTimerStart_of_ne _ _ hp, hdp p hp]
      exact h.timeout p (hold p hp hmem)
  · intro p hmem
    by_cases hp : p = t
    · rw [hp, hst]
      exact Nat.lt_succ_self _
    · rw [hsp p hp]
      exact (h.serial p (hold p hp hmem)).trans (Nat.lt_succ_self _)
  · intro hidle p hmem
    change s.now < (s.recordStart t).deadline p
    by_cases hp : p = t
    · rw [hp, hdt]
      omega
    · rw [hdp p hp]
      rcases hcheck with hc | ⟨-, hc⟩
      · exact h.due (hc ▸ hidle) p (hold p hp hmem)
      · rw [hc] at hidle
        cases hidle
  · intro currentTick hloop
    rcases hcheck with hc | ⟨-, hc⟩
    · exact h.loop currentTick (hc ▸ hloop)
    · rw [hc] at hloop
      cases hloop
      rfl
  · intro p hmem
    obtain ⟨hmem, hp⟩ := mem_rtListRemove.mp hmem
    obtain ⟨hcall, hlist, hnot⟩ := h.list p hmem
    rcases hcheck with hc | ⟨hc, -⟩
    · refine ⟨hc.trans hcall, ?_, fun hnew => hnot (hold p hp hnew)⟩
      change rtListRemove s.timers.list t = [p]
      rw [hlist]
      exact rtListRemove_of_notMem fun ht => hp (mem_singleton.mp ht).symm
    · rw [hcall] at hc
      cases hc
      exact absurd rfl hp
  · change check = .idle ∨ 1 ≤ s.now
    rcases hcheck with hc | ⟨hc, -⟩
    · exact hc ▸ h.ticked
    · right
      refine h.ticked.resolve_left fun hidle => ?_
      rw [hc] at hidle
      cases hidle
  · intro e he
    obtain ⟨htime, hearlier⟩ := h.logged e he
    refine ⟨htime, ?_⟩
    intro p hmem
    by_cases hp : p = t
    · rw [hp, hdt]
      exact .inl (by omega)
    · rw [hdp p hp, hsp p hp]
      exact hearlier p (hold p hp hmem)
  · intro p n hp
    by_cases hpt : p = t
    · rw [hpt] at hp ⊢
      exact hsched n hp
    · obtain ⟨k, hk⟩ := h.schedule p n (hstarted p hpt ▸ hp)
      refine ⟨k, hk.congr (hfires p hpt) rfl (rtTimerStart_of_ne _ _ hpt) (hdp p hpt) ?_ ?_⟩
      · rw [mem_rtTimerStart]
        simp [hpt]
      · simp [hpt]

/-- Operations of threads, interrupts and callbacks keep the invariant. -/
theorem Good.apply {o : TimerOp τ} (hlegal : s.Legal o) : (s.apply o).Good := by
  have hdetach : ∀ t, Good ({ s with timers := s.timers.rtTimerDetach t }.recordStop t) := by
    intro t
    obtain ⟨hstop, hnone⟩ := h.stopped t
    have hun := hstop.unlink (t := t) (.inl rfl) fun n hn => by
      rw [hnone] at hn
      cases hn
    exact hun.adjust hnone (fun x => { x with activated := false }) (h.initTick t) fun _ => rfl
  cases o with
  | init t time periodic =>
    obtain ⟨hlist, -, htime⟩ := hlegal
    obtain ⟨hstop, hnone⟩ := h.stopped t
    exact hstop.adjust hnone
      (fun _ => { initTick := time, timeoutTick := 0, activated := false, periodic := periodic })
      htime fun hmem => absurd hmem hlist
  | start t =>
    apply h.restart t (fun p hp => update_of_ne hp ..)
      (fun p hp => update_of_ne hp ..) (.inl rfl)
    intro n hn
    rw [update_self] at hn
    cases hn
    refine ⟨0, update_self .., ?_, ?_, .inl ⟨mem_rtTimerStart.mpr (.inl rfl), ?_, ?_⟩⟩
    · rw [Nat.zero_mul]
      exact le_rfl
    · intro _
      rw [rtTimerStart_self]
    · rw [rtTimerStart_self, Nat.zero_add, Nat.one_mul]
      exact update_self ..
    · exact fun _ => rfl
  | stop t =>
    rw [Sys.apply, rtTimerStop]
    by_cases hact : (s.timers.timer t).activated = true
    · rw [if_pos hact]
      exact hdetach t
    · rw [if_neg hact]
      exact h
  | detach t => exact hdetach t
  | control t cmd =>
    obtain ⟨hstop, hnone⟩ := h.stopped t
    cases cmd with
    | setTime time =>
      exact hstop.adjust hnone (fun x => { x with initTick := time }) hlegal fun _ => rfl
    | setOneshot =>
      exact hstop.adjust hnone (fun x => { x with periodic := false }) (h.initTick t) fun _ => rfl
    | setPeriodic =>
      exact hstop.adjust hnone (fun x => { x with periodic := true }) (h.initTick t) fun _ => rfl

omit [DecidableEq τ] in
/-- One tick brings every deadline one tick closer. -/
theorem Good.advance (hidle : s.check = .idle) : Good { s with
      timers := { s.timers with rtTick := add32 s.timers.rtTick 1 }
      now := s.now + 1
      check := .pending } := by
  have htmp : ∀ t, t ∉ s.timers.list := fun t ht => by
    cases hidle.symm.trans (h.list t ht).1
  refine ⟨?_, h.initTick, ?_, h.sorted, h.serial, ?_, ?_, ?_, .inr (Nat.le_add_left 1 s.now), h.log,
    ?_, ?_⟩
  · change add32 s.timers.rtTick 1 = (s.now + 1) % 2 ^ 32
    rw [h.tick, add32_mod_one]
  · intro t ht
    obtain ⟨htimeout, -, hlt⟩ := h.timeout t ht
    have hdue := h.due hidle t ht
    refine ⟨htimeout, hdue, ?_⟩
    change s.deadline t < s.now + 1 + 0x7fffffff
    omega
  · intro hc
    cases hc
  · intro currentTick hc
    cases hc
  · intro t ht
    exact absurd ht (htmp t)
  · intro e he
    exact ⟨(h.logged e he).1.trans (Nat.le_add_right s.now 1), (h.logged e he).2⟩
  · intro t n ht
    obtain ⟨k, hk⟩ := h.schedule t n ht
    refine ⟨k, hk.fires, hk.past.trans (Nat.le_add_right s.now 1), hk.activated, ?_⟩
    rcases hk.place with hl | ⟨hl, -⟩ | hl
    · exact .inl hl
    · exact absurd hl (htmp t)
    · exact .inr (.inr hl)

/-- A callback is invoked at the deadline of its timer. -/
theorem Good.fire
    (hloop : s.check = .loop currentTick) (ht : s.timers.expired currentTick = some t) :
    Good { s.recordFire t with timers := s.timers.beforeCallback t, check := .callback t } := by
  have htmp : s.timers.list = [] := by
    rw [eq_nil_iff_forall_not_mem]
    intro p hp
    cases hloop.symm.trans (h.list p hp).1
  obtain ⟨rest, hlist, hexp⟩ := expired_eq_some ht
  have hmem : t ∈ s.timers.timerList := hlist ▸ mem_cons_self
  have hnow := (h.expired_iff hloop hmem).mp hexp
  obtain ⟨hfirst, hrest⟩ := pairwise_cons.mp (hlist ▸ h.sorted)
  have hnot : t ∉ rest := by
    intro hin
    rcases hfirst t hin with hlt | ⟨-, hlt⟩ <;> exact lt_irrefl _ hlt
  have hlist' : (s.timers.beforeCallback t).timerList = rest := by
    rw [beforeCallback_timerList, hlist, rtListRemove_cons_self hnot]
  have htmp' : (s.timers.beforeCallback t).list = [t] := by
    rw [beforeCallback_list, htmp, rtListRemove_nil]
  have hne : ∀ p ∈ (s.timers.beforeCallback t).timerList, p ≠ t ∧ p ∈ s.timers.timerList := by
    intro p hp
    rw [hlist'] at hp
    exact ⟨fun he => hnot (he ▸ hp), hlist ▸ mem_cons_of_mem t hp⟩
  refine ⟨(beforeCallback_rtTick _ _).trans h.tick, ?_, ?_, ?_, ?_, nofun, nofun, ?_, ?_, ?_, ?_, ?_⟩
  · intro p
    by_cases hp : p = t
    · rw [hp, beforeCallback_self]
      exact h.initTick t
    · rw [beforeCallback_of_ne _ _ hp]
      exact h.initTick p
  · intro p hp
    rw [beforeCallback_of_ne _ _ (hne p hp).1]
    exact h.timeout p (hne p hp).2
  · change (s.timers.beforeCallback t).timerList.Pairwise s.Before
    rw [hlist']
    exact hrest
  · intro p hp
    exact h.serial p (hne p hp).2
  · intro p hp
    rw [htmp'] at hp ⊢
    obtain rfl := mem_singleton.mp hp
    exact ⟨rfl, rfl, hlist' ▸ hnot⟩
  · exact .inr (h.ticked.resolve_left fun hidle => by cases hloop.symm.trans hidle)
  · refine pairwise_append.mpr ⟨h.log, pairwise_singleton _ _, ?_⟩
    intro e he e' he'
    obtain rfl := mem_singleton.mp he'
    have hlt := (h.logged e he).2 t hmem
    rwa [hnow] at hlt
  · intro e he
    rcases mem_append.mp he with he | he
    · exact ⟨(h.logged e he).1, fun p hp => (h.logged e he).2 p (hne p hp).2⟩
    · obtain rfl := mem_singleton.mp he
      refine ⟨le_rfl, ?_⟩
      intro p hp
      have hlt := hfirst p (hlist' ▸ hp)
      rwa [Before, hnow] at hlt
  · intro p n hp
    obtain ⟨k, hk⟩ := h.schedule p n hp
    by_cases hpt : p = t
    · subst hpt
      obtain ⟨-, hdead, hone⟩ := hk.place.resolve_right fun hpl => by
        rcases hpl with ⟨hin, -⟩ | ⟨hout, -⟩
        · rw [htmp] at hin
          cases hin
        · exact hout hmem
      have hfires : (s.recordFire p).fires p = s.fires p ++ [s.now] := update_self ..
      have hnext : n + (k + 1) * (s.timers.timer p).initTick = s.now := by rw [← hdead, hnow]
      refine ⟨k + 1, ?_, ?_, ?_, .inr (.inl ⟨?_, ?_, ?_⟩)⟩
      · change (s.recordFire p).fires p = _
        rw [hfires, hk.fires, beforeCallback_self, range_succ, map_append, map_singleton,
          hnext]
      · rw [beforeCallback_self]
        exact hnext.le
      · rw [beforeCallback_self]
        intro hper
        rw [hper, hk.activated hper]
        rfl
      · exact htmp' ▸ mem_singleton_self p
      · rw [beforeCallback_self]
        exact hnext
      · rw [beforeCallback_self]
        intro hper
        rw [hone hper]
    · refine ⟨k, hk.congr (update_of_ne hpt ..) rfl (beforeCallback_of_ne _ _ hpt) rfl ?_ ?_⟩
      · simp [hpt]
      · simp [hpt, htmp]

omit [DecidableEq τ] in
theorem Good.leave
    (hloop : s.check = .loop currentTick) (ht : s.timers.expired currentTick = none) :
    Good { s with check := .idle } := by
  have htmp : ∀ p, p ∉ s.timers.list := by
    intro p hp
    cases hloop.symm.trans (h.list p hp).1
  refine ⟨h.tick, h.initTick, h.timeout, h.sorted, h.serial, ?_, nofun, ?_, .inl rfl, h.log,
    h.logged, ?_⟩
  · rintro - p hp
    cases hl : s.timers.timerList with
    | nil =>
      rw [hl] at hp
      cases hp
    | cons q rest =>
      have hq : q ∈ s.timers.timerList := hl ▸ mem_cons_self
      have hlate : s.now < s.deadline q := by
        apply lt_of_le_of_ne (h.timeout q hq).2.1
        intro he
        have hexp := (h.expired_iff hloop hq).mpr he.symm
        rw [expired, hl] at ht
        simp only [if_pos hexp] at ht
        cases ht
      rw [hl] at hp
      rcases mem_cons.mp hp with rfl | hp
      · exact hlate
      · rcases (pairwise_cons.mp (hl ▸ h.sorted)).1 p hp with hlt | ⟨heq, -⟩
        · exact hlate.trans hlt
        · exact heq ▸ hlate
  · intro p hp
    exact absurd hp (htmp p)
  · intro p n hp
    obtain ⟨k, hk⟩ := h.schedule p n hp
    exact ⟨k, hk.fires, hk.past, hk.activated, hk.place⟩

/-- After its callback a timer is restarted when it is periodic, and rests otherwise. -/
theorem Good.finish (hcall : s.check = .callback t) : (s.finish t).Good := by
  by_cases hempty : s.timers.list = []
  · -- the callback detached or restarted its timer
    have hafter : s.timers.afterCallback t = s.timers := if_pos hempty
    simp only [Sys.finish, hempty, ne_eq, not_true_eq_false, false_and, if_false, hafter]
    refine ⟨h.tick, h.initTick, h.timeout, h.sorted, h.serial, nofun, ?_, ?_, ?_, h.log, h.logged, ?_⟩
    · rintro _ ⟨⟩
      rfl
    · intro p hp
      rw [hempty] at hp
      cases hp
    · exact .inr (h.ticked.resolve_left fun hidle => by cases hcall.symm.trans hidle)
    · intro p n hp
      obtain ⟨k, hk⟩ := h.schedule p n hp
      exact ⟨k, hk.fires, hk.past, hk.activated, hk.place⟩
  · obtain ⟨q, hq⟩ := exists_mem_of_ne_nil _ hempty
    obtain ⟨hq', hlist, hnot⟩ := h.list q hq
    obtain rfl : t = q := by
      cases hcall.symm.trans hq'
      rfl
    by_cases hper : (s.timers.timer t).periodic ∧ (s.timers.timer t).activated
    · simp only [Sys.finish, ne_eq, hempty, not_false_eq_true, hper, and_self, if_true,
        afterCallback_restart hempty hper]
      apply h.restart t (fun _ _ => rfl) (fun _ _ => rfl) (.inr ⟨hcall, rfl⟩)
      intro n hn
      obtain ⟨k, hk⟩ := h.schedule t n hn
      have hat : n + k * (s.timers.timer t).initTick = s.now := by
        rcases hk.place with ⟨hin, -⟩ | ⟨-, hat, -⟩ | ⟨-, hone, -⟩
        · exact absurd hin hnot
        · exact hat
        · rw [hper.1] at hone
          cases hone
      refine ⟨k, ?_, ?_, ?_, .inl ⟨mem_rtTimerStart.mpr (.inl rfl), ?_, ?_⟩⟩
      · rw [rtTimerStart_self]
        exact hk.fires
      · rw [rtTimerStart_self]
        exact hk.past
      · intro _
        rw [rtTimerStart_self]
      · rw [rtTimerStart_self, Nat.add_mul, Nat.one_mul, ← Nat.add_assoc, hat]
        exact update_self ..
      · rw [rtTimerStart_self]
        intro hone
        rw [hper.1] at hone
        cases hone
    · simp only [Sys.finish, ne_eq, hempty, not_false_eq_true, true_and, if_neg hper,
        afterCallback_remove hempty hper]
      apply h.unlink (.inr ⟨hcall, rfl⟩)
      intro n hn
      obtain ⟨k, hk⟩ := h.schedule t n hn
      refine ⟨k, hk.fires, hk.past, hk.activated, .inr (.inr ⟨?_, ?_⟩)⟩
      · exact fun hin => (mem_rtListRemove.mp hin).2 rfl
      · have hone : (s.timers.timer t).periodic = false :=
          Bool.eq_false_iff.mpr fun hp => hper ⟨hp, hk.activated hp⟩
        rcases hk.place with ⟨hin, -⟩ | ⟨-, -, hk1⟩ | ⟨-, -, hk1⟩
        · exact absurd hin hnot
        · exact ⟨hone, hk1 hone⟩
        · exact ⟨hone, hk1⟩

end

theorem Good.step {s s' : Sys τ} (h : s.Good) (hstep : Step s a s') : s'.Good := by
  cases hstep with
  | tick hidle => exact h.advance hidle
  | check hp =>
    refine ⟨h.tick, h.initTick, h.timeout, h.sorted, h.serial, nofun, ?_, ?_, ?_, h.log, h.logged, ?_⟩
    · rintro _ ⟨⟩
      rfl
    · intro p hin
      cases hp.symm.trans (h.list p hin).1
    · exact .inr (h.ticked.resolve_left fun hidle => by cases hp.symm.trans hidle)
    · intro p n hn
      obtain ⟨k, hk⟩ := h.schedule p n hn
      exact ⟨k, hk.fires, hk.past, hk.activated, hk.place⟩
  | fire hloop ht => exact h.fire hloop ht
  | leave hloop ht => exact h.leave hloop ht
  | callbackReturn hcall => exact h.finish hcall
  | op _ hlegal => exact h.apply hlegal

theorem reachable_good (h : Reachable Initial Step s) : s.Good :=
  h.induct (·.good) (·.step)

/-- The number of timers in the list that are due now. -/
def due (s : Sys τ) : Nat := s.timers.timerList.countP fun t => s.deadline t = s.now

theorem Good.due_start (h : s.Good) (t : τ) : (s.timers.rtTimerStart t).timerList.countP
      (fun p => (s.recordStart t).deadline p = s.now) ≤ s.due := by
  obtain ⟨hpos, -⟩ := h.initTick t
  have hdt := (recordStart_self s t).1
  have hlate : ¬ (s.recordStart t).deadline t = s.now := by omega
  rw [rtTimerStart]
  simp only [setTimer_timerList, timerRemove_timerList]
  rw [(perm_orderedInsert _ _ _).countP_eq, countP_cons_of_neg (by simpa using hlate)]
  have hsame : (rtListRemove s.timers.timerList t).countP
      (fun p => (s.recordStart t).deadline p = s.now) =
      (rtListRemove s.timers.timerList t).countP fun p => s.deadline p = s.now := by
    apply countP_congr
    intro p hp
    rw [(recordStart_of_ne s t).1 p (mem_rtListRemove.mp hp).2]
  rw [hsame]
  exact (rtListRemove_sublist _).countP_le

/-- During a check no timer becomes due, and each callback leaves fewer of them. -/
theorem Good.due_step {s s' : Sys τ} (h : s.Good) (hstep : Step s a s')
    (hcheck : s.check ≠ .idle) : s'.due ≤ s.due ∧ (s'.log ≠ s.log → s'.due < s.due) := by
  cases hstep with
  | tick hidle => exact absurd hidle hcheck
  | check | leave => exact ⟨le_rfl, fun hlog => absurd rfl hlog⟩
  | @fire currentTick t hloop ht =>
    obtain ⟨rest, hlist, hexp⟩ := expired_eq_some ht
    have hmem : t ∈ s.timers.timerList := hlist ▸ mem_cons_self
    have hnow := (h.expired_iff hloop hmem).mp hexp
    have hlt : (s.timers.beforeCallback t).timerList.countP (fun p => s.deadline p = s.now) <
        s.due := by
      have hrest : (rtListRemove (t :: rest) t).countP (fun p => s.deadline p = s.now) ≤
          rest.countP fun p => s.deadline p = s.now := by
        rw [rtListRemove, filter_cons_of_neg (by simp)]
        exact filter_sublist.countP_le
      have hall : s.due = rest.countP (fun p => s.deadline p = s.now) + 1 := by
        rw [Sys.due, hlist]
        exact countP_cons_of_pos (by simpa using hnow)
      rw [beforeCallback_timerList, hlist]
      omega
    exact ⟨hlt.le, fun _ => hlt⟩
  | @callbackReturn t hcall =>
    have hlog : (s.finish t).log = s.log := by
      rw [Sys.finish]
      split_ifs <;> rfl
    refine ⟨?_, fun hne => absurd hlog hne⟩
    by_cases hempty : s.timers.list = []
    · have hafter : s.timers.afterCallback t = s.timers := if_pos hempty
      simp only [Sys.finish, hempty, ne_eq, not_true_eq_false, false_and, if_false, hafter]
      exact le_rfl
    · by_cases hper : (s.timers.timer t).periodic ∧ (s.timers.timer t).activated
      · simp only [Sys.finish, ne_eq, hempty, not_false_eq_true, hper, and_self, if_true,
          afterCallback_restart hempty hper]
        exact h.due_start t
      · simp only [Sys.finish, ne_eq, hempty, not_false_eq_true, true_and, if_neg hper,
          afterCallback_remove hempty hper]
        exact (rtListRemove_sublist _).countP_le
  | @op o _ hlegal =>
    have hlog : (s.apply o).log = s.log := by
      cases o with
      | stop t =>
        rw [Sys.apply]
        cases s.timers.rtTimerStop t <;> rfl
      | _ => rfl
    refine ⟨?_, fun hne => absurd hlog hne⟩
    cases o with
    | init t time periodic => exact le_rfl
    | start t => exact h.due_start t
    | stop t =>
      rw [Sys.apply, rtTimerStop]
      by_cases hact : (s.timers.timer t).activated = true
      · rw [if_pos hact]
        exact (rtListRemove_sublist _).countP_le
      · rw [if_neg hact]
    | detach t => exact (rtListRemove_sublist _).countP_le
    | control t cmd => cases cmd <;> exact le_rfl

omit [DecidableEq τ] in
/-- The callbacks of a timer on schedule, when its next timeout lies behind `now`. -/
theorem OnSchedule.fires_eq {n k now : Nat} (hk : s.OnSchedule t n k)
    (hd : 1 ≤ (s.timers.timer t).initTick)
    (hpast : 1 ≤ k → n + k * (s.timers.timer t).initTick ≤ now)
    (hnext : (s.timers.timer t).periodic = true ∨ k = 0 →
      now < n + (k + 1) * (s.timers.timer t).initTick)
    (hone : (s.timers.timer t).periodic = false → k ≤ 1) :
    s.fires t = schedule n (s.timers.timer t).initTick (s.timers.timer t).periodic now := by
  rw [hk.fires, Timer.schedule]
  congr 2
  generalize (s.timers.timer t).initTick = d at *
  cases hper : (s.timers.timer t).periodic with
  | true =>
    have hnext := hnext (.inl hper)
    rw [if_pos rfl]
    symm
    rw [Nat.div_eq_iff (by omega)]
    rw [Nat.add_mul] at hnext
    rcases Nat.eq_zero_or_pos k with rfl | hkpos
    · omega
    · have := hpast hkpos
      omega
  | false =>
    have hk1 := hone hper
    rw [if_neg Bool.false_ne_true]
    rcases Nat.eq_zero_or_pos k with rfl | hkpos
    · have := hnext (.inr rfl)
      rw [if_neg (by omega)]
    · obtain rfl : k = 1 := by omega
      rw [if_pos (by omega)]

/-- In every state that a run reaches: the tick is the count of ticks wrapped to 32 bits; a timer
that the application started at count `n` and has not stopped, restarted or changed since has had
its callback invoked at `n + d`, and again every `d` ticks if it is periodic, and at no other count,
where the callbacks of the current count are complete when the check is; the callbacks were invoked
in the order of their starts wherever they fell on one count; and a check invokes no more callbacks
than there are timers due. -/
theorem reachable_onTime :
    ∀ s : Sys τ, Reachable Initial Step s →
      s.timers.rtTick = s.now % 2 ^ 32 ∧
      (∀ t n, s.started t = some n →
        s.fires t = schedule n (s.timers.timer t).initTick (s.timers.timer t).periodic s.now ∨
        s.check ≠ .idle ∧
          s.fires t =
            schedule n (s.timers.timer t).initTick (s.timers.timer t).periodic (s.now - 1)) ∧
      (s.log.Pairwise fun e e' => Earlier e.time e.serial e'.time e'.serial) ∧
      ∀ a s', Step s a s' → s.check ≠ .idle →
        s'.due ≤ s.due ∧ (s'.log ≠ s.log → s'.due < s.due) := by
  intro s hs
  have h := reachable_good hs
  refine ⟨h.tick, ?_, h.log, fun a s' hstep hcheck => h.due_step hstep hcheck⟩
  intro t n hn
  obtain ⟨k, hk⟩ := h.schedule t n hn
  obtain ⟨hd, -⟩ := h.initTick t
  have hpast := hk.past
  rcases hk.place with ⟨hin, hdead, hone⟩ | ⟨-, hat, hone⟩ | ⟨-, hone, hk1⟩
  · have hle := (h.timeout t hin).2.1
    rw [hdead] at hle
    have hone' : (s.timers.timer t).periodic = false → k ≤ 1 := fun hp => by
      rw [hone hp]
      exact Nat.zero_le 1
    rcases Nat.lt_or_eq_of_le hle with hlt | heq
    · exact Or.inl (hk.fires_eq hd (fun _ => hpast) (fun _ => hlt) hone')
    · -- due at this very count: its callback is still to come
      right
      have hcheck : s.check ≠ .idle := by
        intro hidle
        have := h.due hidle t hin
        omega
      have hpos := h.ticked.resolve_left hcheck
      refine ⟨hcheck, hk.fires_eq hd (fun _ => ?_) (fun _ => by omega) hone'⟩
      rw [Nat.add_mul] at heq
      omega
  · left
    apply hk.fires_eq hd (fun _ => hpast)
    · intro _
      rw [Nat.add_mul]
      omega
    · exact fun hp => (hone hp).le
  · left
    apply hk.fires_eq hd (fun _ => hpast)
    · rintro (hper | hzero)
      · rw [hone] at hper
        cases hper
      · omega
    · exact fun _ => hk1.le

/-- A one-shot timer of two ticks, not started, when the tick counter is about to wrap. -/
def beforeWrap : Sys Unit :=
  { timers :=
      { rtTick := 0xffffffff
        timer := fun _ => { initTick := 2, timeoutTick := 0, activated := false, periodic := false }
        timerList := []
        list := [] }
    check := .idle, now := 0xffffffff, starts := 0, deadline := fun _ => 0, serial := fun _ => 0
    started := fun _ => none, fires := fun _ => [], log := [] }

/-- Started at the tick before the wrap, it is called at tick `1`. -/
theorem reachable_onTime_wrap : ∃ s : Sys Unit,
    s.started () = some 0xffffffff ∧ s.check = .callback () ∧ s.timers.rtTick = 1 ∧
      s.fires () = [0x100000001] := by
  have h₀ : beforeWrap.Initial :=
    ⟨rfl, rfl, rfl, fun t => by cases t; decide, rfl, fun _ => rfl, rfl⟩
  have h₁ := (Reachable.start h₀).next (Step.op (o := .start ()) nofun trivial)
  have h₂ := (h₁.next (.tick rfl)).next (.check rfl)
  have h₃ := h₂.next (.leave rfl (by decide))
  have h₄ := ((h₃.next (.tick rfl)).next (.check rfl)).next (.fire (t := ()) rfl (by decide))
  obtain ⟨htick, hfires, -⟩ := reachable_onTime _ h₄
  refine ⟨_, rfl, rfl, htick.trans (by decide), ?_⟩
  rcases hfires () 0xffffffff rfl with hf | ⟨-, hf⟩
  · exact hf.trans (by decide)
  · exact absurd (hf.symm.trans rfl) (by decide)

end Sys

end RtKernel.Timer

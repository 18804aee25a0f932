import RtKernel.Timer.Runs
import RtKernel.Timer.SkipList

/-!
# The skip list over whole runs

The steps are those of `Sys`, for times from zero and for any number of rows. A
timer is in the last row exactly while it is activated, but for the periodic timer
whose callback runs: it stays activated and waits in the local list of the check.
-/

namespace RtKernel.Timer

open SkipRows List

/-- The timers and the progress of the check. -/
structure SkipSys (τ : Type*) where
  timers : SkipTimers τ
  check : Check τ

namespace SkipSys

variable {τ : Type*} [DecidableEq τ]

/-- May the operation be called? A timer that is initialised is in no row, and a callback does not
make a one-shot timer of its own. -/
def Legal (c : SkipConfig) (s : SkipSys τ) : TimerOp τ → Prop
  | .init t time _ => t ∉ s.timers.row c.bottom ∧ t ∉ s.timers.list ∧ Admitted time
  | .control _ (.setTime time) => Admitted time
  | .control t .setOneshot => t ∉ s.timers.list
  | _ => True

/-- An operation on a timer. -/
def apply (c : SkipConfig) (s : SkipTimers τ) : TimerOp τ → SkipTimers τ
  | .init t time periodic => s.timerInit t time periodic
  | .start t => s.rtTimerStart c t
  | .stop t => (s.rtTimerStop t).getD s
  | .detach t => s.rtTimerDetach t
  | .control t cmd => s.rtTimerControl t cmd

/-- The steps of the system. -/
inductive Step (c : SkipConfig) : SkipSys τ → Act τ → SkipSys τ → Prop
  | tick {s} (h : s.check = .idle) :
      Step c s .tick
        { timers := { s.timers with rtTick := add32 s.timers.rtTick 1 }, check := .pending }
  | check {s} (h : s.check = .pending) : Step c s .check { s with check := .loop s.timers.rtTick }
  | fire {s currentTick t} (h : s.check = .loop currentTick)
      (ht : s.timers.expired c currentTick = some t) :
      Step c s .iterate { timers := s.timers.beforeCallback t, check := .callback t }
  | leave {s currentTick} (h : s.check = .loop currentTick)
      (ht : s.timers.expired c currentTick = none) : Step c s .iterate { s with check := .idle }
  | callbackReturn {s t} (h : s.check = .callback t) :
      Step c s .callbackReturn
        { timers := s.timers.afterCallback c t, check := .loop (s.timers.afterCallback c t).rtTick }
  -- the check itself runs with interrupts disabled; its callbacks may operate on the timers
  | op {s o} (h : ∀ currentTick, s.check ≠ .loop currentTick) (hlegal : s.Legal c o) :
      Step c s (.op o) { s with timers := apply c s.timers o }

/-- A system whose timers are not started, at any tick. -/
def Initial (c : SkipConfig) (s : SkipSys τ) : Prop :=
  (∀ i ≤ c.bottom, s.timers.row i = []) ∧ s.timers.list = [] ∧ s.check = .idle ∧
    ∀ t, Admitted (s.timers.timer t).initTick ∧ (s.timers.timer t).activated = false

/-- The invariant of the skip list. -/
structure Good (c : SkipConfig) (s : SkipSys τ) : Prop where
  ordered : s.timers.Ordered c
  admitted : ∀ t, Admitted (s.timers.timer t).initTick
  active : ∀ t, t ∉ s.timers.list →
    (t ∈ s.timers.row c.bottom ↔ (s.timers.timer t).activated = true)
  /-- The local list of the check holds at most the timer whose callback runs. -/
  list : ∀ t ∈ s.timers.list, s.check = .callback t ∧ s.timers.list = [t] ∧
    t ∉ s.timers.row c.bottom ∧
    ((s.timers.timer t).activated = true → (s.timers.timer t).periodic = true)
  /-- When a check is complete, no timer is late. -/
  onTime : s.check = .idle → ∀ t ∈ s.timers.row c.bottom, 0 ≤ s.timers.remaining t
  loop : ∀ currentTick, s.check = .loop currentTick → currentTick = s.timers.rtTick

variable {c : SkipConfig} {s : SkipSys τ}

omit [DecidableEq τ] in
theorem Initial.good (h : s.Initial c) : s.Good c := by
  obtain ⟨hrow, hlist, hcheck, htimer⟩ := h
  have hbottom := hrow c.bottom (Nat.le_refl _)
  refine ⟨⟨⟨fun i hi => ?_, ?_⟩, ?_, ?_⟩, fun t => (htimer t).1, fun t _ => ?_, ?_, ?_, ?_⟩
  · rw [hrow i (by omega)]
    exact nil_sublist _
  · simp [hbottom]
  · simp [hbottom]
  · simp [hbottom]
  · simp [hbottom, (htimer t).2]
  · simp [hlist]
  · simp [hbottom]
  · simp [hcheck]

section

variable {s : SkipSys τ}

section

variable (h : s.Good c) {t : τ}
include h

/-- A timer may be changed, but not when it times out nor whether it is activated. -/
theorem Good.setTimer (t : τ) (f : RtTimer → RtTimer)
    (hinit : Admitted (f (s.timers.timer t)).initTick) (htimeout : t ∈ s.timers.row c.bottom →
      (f (s.timers.timer t)).timeoutTick = (s.timers.timer t).timeoutTick)
    (hactive : (f (s.timers.timer t)).activated = (s.timers.timer t).activated)
    (hperiodic : t ∈ s.timers.list → (s.timers.timer t).periodic = true →
      (f (s.timers.timer t)).periodic = true) :
    Good c { s with timers := s.timers.setTimer t f } := by
  have hact : ∀ p, ((s.timers.setTimer t f).timer p).activated =
      (s.timers.timer p).activated := by
    intro p
    by_cases hp : p = t
    · rw [hp, SkipTimers.setTimer_self, hactive]
    · rw [SkipTimers.setTimer_of_ne _ _ hp]
  refine ⟨h.ordered.setTimer htimeout, fun p => ?_, fun p hp => ?_, fun p hp => ?_, ?_, h.loop⟩
  · by_cases hp : p = t
    · rw [hp, SkipTimers.setTimer_self]
      exact hinit
    · rw [SkipTimers.setTimer_of_ne _ _ hp]
      exact h.admitted p
  · rw [hact p]
    exact h.active p hp
  · obtain ⟨hcall, hone, hrow, hper⟩ := h.list p hp
    refine ⟨hcall, hone, hrow, fun ha => ?_⟩
    rw [hact p] at ha
    by_cases hpt : p = t
    · subst hpt
      rw [SkipTimers.setTimer_self]
      exact hperiodic hp (hper ha)
    · rw [SkipTimers.setTimer_of_ne _ _ hpt]
      exact hper ha
  · intro hidle p hp
    have hkeep : (s.timers.setTimer t f).remaining p = s.timers.remaining p := by
      refine SkipTimers.remaining_congr rfl ?_
      by_cases hpt : p = t
      · subst hpt
        rw [SkipTimers.setTimer_self]
        exact htimeout hp
      · rw [SkipTimers.setTimer_of_ne _ _ hpt]
    rw [hkeep]
    exact h.onTime hidle p hp

theorem Good.timerInit {time : Nat} (periodic : Bool)
    (hrow : t ∉ s.timers.row c.bottom) (hlist : t ∉ s.timers.list) (htime : Admitted time) :
    Good c { s with timers := s.timers.timerInit t time periodic } := by
  have hoff : (s.timers.timer t).activated = false := by
    rw [← Bool.not_eq_true, ← h.active t hlist]
    exact hrow
  exact h.setTimer t _ htime (fun hmem => absurd hmem hrow) hoff.symm fun hmem => absurd hmem hlist

/-- A timer is taken out of the rows and the local list and is no longer activated. -/
theorem Good.rtTimerDetach (t : τ) : Good c { s with timers := s.timers.rtTimerDetach t } := by
  have hother : ∀ p ≠ t, (s.timers.rtTimerDetach t).timer p = s.timers.timer p := fun p hp =>
    SkipTimers.setTimer_of_ne _ _ hp
  have hself : (s.timers.rtTimerDetach t).timer t = { s.timers.timer t with activated := false } :=
    SkipTimers.setTimer_self _ _ _
  refine ⟨h.ordered.rtTimerDetach t, fun p => ?_, fun p hp => ?_, fun p hp => ?_, ?_, h.loop⟩
  · by_cases hp : p = t
    · rw [hp, hself]
      exact h.admitted t
    · rw [hother p hp]
      exact h.admitted p
  · by_cases hpt : p = t
    · rw [hpt, hself]
      exact iff_of_false (fun hmem => (mem_rtListRemove.mp hmem).2 rfl) Bool.false_ne_true
    · have hp' : p ∉ s.timers.list := fun hmem => hp (mem_rtListRemove.mpr ⟨hmem, hpt⟩)
      rw [hother p hpt, ← h.active p hp']
      exact mem_rtListRemove.trans (and_iff_left hpt)
  · obtain ⟨hmem, hpt⟩ := mem_rtListRemove.mp hp
    obtain ⟨hcall, hone, hrow, hper⟩ := h.list p hmem
    refine ⟨hcall, ?_, fun hin => hrow (mem_rtListRemove.mp hin).1, ?_⟩
    · have hkeep : rtListRemove s.timers.list t = s.timers.list := by
        rw [hone]
        exact rtListRemove_of_notMem fun hin => hpt (mem_singleton.mp hin).symm
      exact hkeep.trans hone
    · rw [hother p hpt]
      exact hper
  · intro hidle p hp
    obtain ⟨hmem, hpt⟩ := mem_rtListRemove.mp hp
    have hkeep : (s.timers.rtTimerDetach t).remaining p = s.timers.remaining p :=
      SkipTimers.remaining_congr rfl (congrArg RtTimer.timeoutTick (hother p hpt))
    rw [hkeep]
    exact h.onTime hidle p hmem

/-- `rt_timer_start`, by the application or after a callback. -/
theorem Good.rtTimerStart (t : τ) {check : Check τ}
    (hcheck : check = s.check ∨ s.check = .callback t ∧ check = .loop s.timers.rtTick) :
    Good c { timers := s.timers.rtTimerStart c t, check := check } := by
  have ha := h.admitted t
  have hother : ∀ p ≠ t, (s.timers.rtTimerStart c t).timer p = s.timers.timer p := fun p hp => by
    rw [SkipTimers.rtTimerStart_timer, Timers.rtTimerStart_of_ne _ _ hp]
    rfl
  have hself : (s.timers.rtTimerStart c t).timer t = { s.timers.timer t with
      timeoutTick := add32 s.timers.rtTick (s.timers.timer t).initTick, activated := true } := by
    rw [SkipTimers.rtTimerStart_timer, Timers.rtTimerStart_self]
    rfl
  refine ⟨h.ordered.rtTimerStart ha, fun p => ?_, fun p hp => ?_, fun p hp => ?_, ?_, ?_⟩
  · by_cases hp : p = t
    · rw [hp, hself]
      exact ha
    · rw [hother p hp]
      exact h.admitted p
  · dsimp only
    rw [h.ordered.mem_rtTimerStart ha]
    by_cases hpt : p = t
    · rw [hpt, hself]
      exact iff_of_true (.inl rfl) rfl
    · have hp' : p ∉ s.timers.list := fun hmem => hp (mem_rtListRemove.mpr ⟨hmem, hpt⟩)
      rw [hother p hpt, ← h.active p hp']
      exact or_iff_right hpt
  · obtain ⟨hmem, hpt⟩ := mem_rtListRemove.mp hp
    obtain ⟨hcall, hone, hrow, hper⟩ := h.list p hmem
    refine ⟨?_, ?_, ?_, ?_⟩
    · rcases hcheck with rfl | ⟨hcall', -⟩
      · exact hcall
      · cases hcall.symm.trans hcall'
        exact absurd rfl hpt
    · have hkeep : rtListRemove s.timers.list t = s.timers.list := by
        rw [hone]
        exact rtListRemove_of_notMem fun hin => hpt (mem_singleton.mp hin).symm
      exact hkeep.trans hone
    · rw [h.ordered.mem_rtTimerStart ha]
      exact not_or.mpr ⟨hpt, hrow⟩
    · rw [hother p hpt]
      exact hper
  · rintro hidle p hp
    by_cases hpt : p = t
    · rw [hpt, SkipTimers.rtTimerStart_remaining_self ha]
      exact Int.natCast_nonneg _
    · rw [SkipTimers.rtTimerStart_remaining_of_ne hpt]
      have hidle' : s.check = .idle := by
        rcases hcheck with rfl | ⟨-, rfl⟩
        · exact hidle
        · cases hidle
      exact h.onTime hidle' p (((h.ordered.mem_rtTimerStart ha).mp hp).resolve_left hpt)
  · intro currentTick hloop
    rcases hcheck with rfl | ⟨-, rfl⟩
    · exact h.loop currentTick hloop
    · cases hloop
      rfl

theorem Good.apply {o : TimerOp τ} (hlegal : s.Legal c o) :
    Good c { s with timers := apply c s.timers o } := by
  cases o with
  | init t time periodic =>
    obtain ⟨hrow, hlist, htime⟩ := hlegal
    exact h.timerInit periodic hrow hlist htime
  | start t => exact h.rtTimerStart t (.inl rfl)
  | stop t =>
    rw [SkipSys.apply, SkipTimers.rtTimerStop]
    split_ifs
    · exact h.rtTimerDetach t
    · exact h
  | detach t => exact h.rtTimerDetach t
  | control t cmd =>
    cases cmd with
    | setTime time =>
      exact h.setTimer t (fun x => { x with initTick := time }) hlegal (fun _ => rfl) rfl
        fun _ hp => hp
    | setOneshot =>
      exact h.setTimer t (fun x => { x with periodic := false }) (h.admitted t) (fun _ => rfl) rfl
        fun hmem => absurd hmem hlegal
    | setPeriodic =>
      exact h.setTimer t (fun x => { x with periodic := true }) (h.admitted t) (fun _ => rfl) rfl
        fun _ _ => rfl

/-- An expired timer goes into the local list for its callback. -/
theorem Good.fire {currentTick : Nat} (hloop : s.check = .loop currentTick)
    (ht : s.timers.expired c currentTick = some t) :
    Good c { timers := s.timers.beforeCallback t, check := .callback t } := by
  have hempty : s.timers.list = [] := by
    refine eq_nil_iff_forall_not_mem.mpr fun p hp => ?_
    cases hloop.symm.trans (h.list p hp).1
  have hflat := SkipTimers.flat_beforeCallback c s.timers t
  have htimer : (s.timers.beforeCallback t).timer =
      ((s.timers.flat c).beforeCallback t).timer := congrArg Timers.timer hflat
  have hlist : (s.timers.beforeCallback t).list = [t] := by
    have := congrArg Timers.list hflat
    rw [Timers.beforeCallback_list] at this
    rw [show (s.timers.flat c).list = [] from hempty] at this
    exact this
  have hother : ∀ p ≠ t, (s.timers.beforeCallback t).timer p = s.timers.timer p := fun p hp => by
    rw [htimer, Timers.beforeCallback_of_ne _ _ hp]
    rfl
  have hself : (s.timers.beforeCallback t).timer t = { s.timers.timer t with
      activated := (s.timers.timer t).activated && (s.timers.timer t).periodic } := by
    rw [htimer, Timers.beforeCallback_self]
    rfl
  have hrow : ∀ p, p ∈ (s.timers.beforeCallback t).row c.bottom ↔
      p ∈ s.timers.row c.bottom ∧ p ≠ t := by
    intro p
    rw [SkipTimers.beforeCallback_row]
    exact mem_rtListRemove
  refine ⟨h.ordered.beforeCallback t, fun p => ?_, fun p hp => ?_, fun p hp => ?_, nofun, nofun⟩
  · by_cases hp : p = t
    · rw [hp, hself]
      exact h.admitted t
    · rw [hother p hp]
      exact h.admitted p
  · dsimp only at hp ⊢
    rw [hlist, mem_singleton] at hp
    rw [hrow, hother p hp, ← h.active p (hempty ▸ not_mem_nil)]
    exact and_iff_left hp
  · dsimp only at hp ⊢
    rw [hlist] at hp ⊢
    obtain rfl := mem_singleton.mp hp
    refine ⟨rfl, rfl, fun hmem => ((hrow p).mp hmem).2 rfl, ?_⟩
    rw [hself]
    exact fun ha => (Bool.and_eq_true_iff.mp ha).2

theorem Good.callbackReturn (hcall : s.check = .callback t) :
    Good c { timers := s.timers.afterCallback c t
             check := .loop (s.timers.afterCallback c t).rtTick } := by
  by_cases hempty : s.timers.list = []
  · rw [SkipTimers.afterCallback, if_pos hempty]
    refine ⟨h.ordered, h.admitted, h.active, fun p hp => ?_, fun hidle => (by cases hidle), ?_⟩
    · dsimp only at hp
      rw [hempty] at hp
      cases hp
    · rintro _ ⟨⟩
      rfl
  · obtain ⟨q, hq⟩ := exists_mem_of_ne_nil _ hempty
    obtain ⟨hcall', hone, hrow, hper⟩ := h.list q hq
    cases hcall.symm.trans hcall'
    have hgone : rtListRemove s.timers.list t = [] := by
      rw [hone]
      exact rtListRemove_cons_self not_mem_nil
    rw [SkipTimers.afterCallback_eq hempty hrow, hgone]
    by_cases hact : (s.timers.timer t).activated = true
    · -- the timer without its flag is in no row and in no list, as it should be
      have hoff : Good c { s with timers := ({ s.timers with list := [] }.setTimer t
          fun x => { x with activated := false }) } := by
        have hord := SkipTimers.Ordered.setTimer (t := t)
          (f := fun x => { x with activated := false }) (h.ordered.setList []) fun _ => rfl
        refine ⟨hord, fun p => ?_, fun p _ => ?_, fun p hp => ?_, fun hidle => ?_, h.loop⟩
        · by_cases hp : p = t
          · rw [hp, SkipTimers.setTimer_self]
            exact h.admitted t
          · rw [SkipTimers.setTimer_of_ne _ _ hp]
            exact h.admitted p
        · by_cases hp : p = t
          · rw [hp, SkipTimers.setTimer_self]
            exact iff_of_false hrow Bool.false_ne_true
          · rw [SkipTimers.setTimer_of_ne _ _ hp]
            refine h.active p fun hmem => hp ?_
            rw [hone] at hmem
            exact mem_singleton.mp hmem
        · cases hp
        · cases hcall.symm.trans hidle
      rw [if_pos ⟨hper hact, hact⟩]
      exact hoff.rtTimerStart t (.inr ⟨hcall, rfl⟩)
    · rw [if_neg fun hboth => hact hboth.2]
      refine ⟨h.ordered.setList [], h.admitted, fun p _ => ?_, fun p hp => ?_, fun hidle => ?_, ?_⟩
      · by_cases hp : p = t
        · subst hp
          exact iff_of_false hrow hact
        · refine h.active p fun hmem => hp ?_
          rw [hone] at hmem
          exact mem_singleton.mp hmem
      · cases hp
      · cases hidle
      · rintro _ ⟨⟩
        rfl

theorem Good.step {s' : SkipSys τ} {a : Act τ} (hstep : Step c s a s') : s'.Good c := by
  cases hstep with
  | tick hidle =>
    have hempty : s.timers.list = [] := by
      refine eq_nil_iff_forall_not_mem.mpr fun p hp => ?_
      cases hidle.symm.trans (h.list p hp).1
    refine ⟨h.ordered.tick (h.onTime hidle), h.admitted, h.active, fun p hp => ?_, nofun, nofun⟩
    rw [hempty] at hp
    cases hp
  | check hpending =>
    refine ⟨h.ordered, h.admitted, h.active, fun p hp => ?_, nofun, ?_⟩
    · cases hpending.symm.trans (h.list p hp).1
    · rintro _ ⟨⟩
      rfl
  | fire hloop ht => exact h.fire hloop ht
  | leave hloop ht =>
    obtain rfl := h.loop _ hloop
    refine ⟨h.ordered, h.admitted, h.active, fun p hp => ?_, fun _ p hp => ?_, nofun⟩
    · cases hloop.symm.trans (h.list p hp).1
    · exact (h.ordered.not_expired ht p hp).le
  | callbackReturn hcall => exact h.callbackReturn hcall
  | op _ hlegal => exact h.apply hlegal

end

end

theorem reachable_good (h : Reachable (Initial c) (Step c) s) : s.Good c :=
  h.induct (·.good) (·.step)

/-- In every state that a run reaches, for any number of rows: each row is sorted by what its timers
have ahead of them, and is a part of the row below; and the last row holds each activated timer
once and no other, but for the timer whose callback runs. -/
theorem reachable_rows {c : SkipConfig} {s : SkipSys τ} (h : Reachable (Initial c) (Step c) s) :
    (∀ i ≤ c.bottom, (s.timers.row i).Pairwise
      fun p q => s.timers.remaining p ≤ s.timers.remaining q) ∧
    (∀ i < c.bottom, (s.timers.row i).Sublist (s.timers.row (i + 1))) ∧
    (s.timers.row c.bottom).Nodup ∧
    ∀ t, s.check ≠ .callback t →
      (t ∈ s.timers.row c.bottom ↔ (s.timers.timer t).activated = true) := by
  have hgood := reachable_good h
  have hnested := hgood.ordered.nested
  refine ⟨fun i hi => ?_, hnested.sublist, hnested.nodup, fun t ht => ?_⟩
  · exact hgood.ordered.sorted.sublist (hnested.sublist_bottom hi)
  · exact hgood.active t fun hmem => ht (hgood.list t hmem).1

/-- Three rows; two timers, of 5 and of 2 ticks, when the tick counter is about to wrap. -/
def threeRows : SkipConfig where
  level := 3
  mask := 1
  level_pos := by decide

/-- No timer is started yet. -/
def notStarted : SkipSys Bool where
  timers :=
    { rtTick := 0xffffffff
      timer := fun t =>
        { initTick := if t then 2 else 5, timeoutTick := 0, activated := false, periodic := t }
      row := fun _ => []
      list := []
      randomNr := 0 }
  check := .idle

/-- The second timer that is started goes in front of the first, and also into the row above. -/
theorem reachable_rows_two : ∃ s : SkipSys Bool, Reachable (Initial threeRows) (Step threeRows) s ∧
    s.timers.row 2 = [true, false] ∧ s.timers.row 1 = [true] ∧ s.timers.row 0 = [] ∧
      (s.timers.row 1).Sublist (s.timers.row 2) ∧
      (s.timers.row 2).Pairwise (fun p q => s.timers.remaining p ≤ s.timers.remaining q) ∧
      (false ∈ s.timers.row 2 ↔ (s.timers.timer false).activated = true) := by
  have h₀ : notStarted.Initial threeRows :=
    ⟨fun _ _ => rfl, rfl, rfl, fun t => by cases t <;> exact ⟨by decide, rfl⟩⟩
  have h₁ := (Reachable.start h₀).next (Step.op (c := threeRows) (o := .start false) nofun trivial)
  have h₂ := h₁.next (Step.op (c := threeRows) (o := .start true) nofun trivial)
  obtain ⟨hsorted, hsub, -, hactive⟩ := reachable_rows h₂
  exact ⟨_, h₂, by decide +kernel, by decide +kernel, by decide +kernel, hsub 1 (by decide),
    hsorted 2 (by decide), hactive false nofun⟩

/-- The tick is a `rt_tick_t`, and each timer has a time of `Sys`: not zero. -/
def Fresh (s : SkipSys τ) : Prop := s.timers.rtTick < 2 ^ 32 ∧ ∀ t, ValidTime (s.timers.timer t).initTick

/-- The times that a timer is given are those of `Sys`. -/
def Timed (_ : SkipSys τ) : Act τ → Prop
  | .op (.init _ time _) | .op (.control _ (.setTime time)) => ValidTime time
  | _ => True

end SkipSys

end RtKernel.Timer

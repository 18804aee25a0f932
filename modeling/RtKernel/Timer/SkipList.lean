import RtKernel.Core.SkipRows
import RtKernel.Timer.CheckOnce

/-!
# The skip list of the timers

`RT_TIMER_SKIP_LIST_LEVEL` rows hold the timers that are started, the last one all of
them. A timer is put into the last row and, depending on a counter, into some of the
rows directly above. What the operations do to the last row is what they do to the
list of `Timers`.
-/

namespace RtKernel.Timer

open SkipRows Function List

/-- `RT_TIMER_SKIP_LIST_LEVEL` and `RT_TIMER_SKIP_LIST_MASK`. -/
structure SkipConfig where
  level : Nat
  mask : Nat
  level_pos : 1 ≤ level

/-- The last row. -/
def SkipConfig.bottom (c : SkipConfig) : Nat := c.level - 1

/-- The timers of the system, in rows. -/
structure SkipTimers (τ : Type*) where
  rtTick : Nat
  timer : τ → RtTimer
  /-- `_timer_list`. -/
  row : Nat → List τ
  /-- The local list of `rt_timer_check`, which runs through the nodes of the last row. -/
  list : List τ
  /-- `random_nr`, an unsigned int. -/
  randomNr : Nat

namespace SkipTimers

variable {τ : Type*} [DecidableEq τ] (s : SkipTimers τ)

/-- Change one timer. -/
def setTimer (s : SkipTimers τ) (t : τ) (f : RtTimer → RtTimer) : SkipTimers τ :=
  { s with timer := update s.timer t (f (s.timer t)) }

/-- `_timer_remove`, which unlinks the nodes of all rows. -/
def timerRemove (s : SkipTimers τ) (t : τ) : SkipTimers τ :=
  { s with row := fun i => rtListRemove (s.row i) t, list := rtListRemove s.list t }

/-- `_timer_init`. -/
def timerInit (s : SkipTimers τ) (t : τ) (time : Nat) (periodic : Bool) : SkipTimers τ :=
  s.setTimer t fun _ =>
    { initTick := time, timeoutTick := 0, activated := false, periodic := periodic }

/-- The search of `rt_timer_start` for the place of `t` stops in front of the timer `p`. -/
def stopsAt (s : SkipTimers τ) (t p : τ) : Prop :=
  sub32 (s.timer p).timeoutTick (s.timer t).timeoutTick ≠ 0 ∧
    sub32 (s.timer p).timeoutTick (s.timer t).timeoutTick < rtTickMax / 2

instance (s : SkipTimers τ) : DecidableRel s.stopsAt :=
  fun _ _ => inferInstanceAs (Decidable (_ ∧ _))

/-- The last loop of `rt_timer_start`, from the row `n - 1` upwards. -/
def insertRows (mask : Nat) (rowHead : Nat → Option τ) (t : τ) :
    Nat → Nat → (Nat → List τ) → Nat → List τ
  | 0, _, row => row
  | n + 1, tstNr, row =>
    if tstNr &&& mask = 0 then
      insertRows mask rowHead t n (tstNr >>> ((mask + 1) >>> 1))
        (update row n (insertAfter t (rowHead n) (row n)))
    else row

/-- `rt_timer_start`. -/
def rtTimerStart (c : SkipConfig) (s : SkipTimers τ) (t : τ) : SkipTimers τ :=
  -- stop timer firstly
  let s := s.timerRemove t
  let s := s.setTimer t fun x => { x with activated := false }
  let s := s.setTimer t fun x => { x with timeoutTick := add32 s.rtTick x.initTick }
  let heads := rowHead (s.stopsAt t) s.row
  let tstNr := add32 s.randomNr 1
  let row := update s.row c.bottom (insertAfter t (heads c.bottom) (s.row c.bottom))
  let s := { s with row := insertRows c.mask heads t c.bottom tstNr row, randomNr := tstNr }
  s.setTimer t fun x => { x with activated := true }

/-- `rt_timer_detach`, and what `rt_timer_delete` does before the memory is released. -/
def rtTimerDetach (s : SkipTimers τ) (t : τ) : SkipTimers τ :=
  (s.timerRemove t).setTimer t fun x => { x with activated := false }

/-- `rt_timer_stop`, which refuses a timer that is not activated. -/
def rtTimerStop (s : SkipTimers τ) (t : τ) : Option (SkipTimers τ) :=
  if (s.timer t).activated then some (s.rtTimerDetach t) else none

/-- `rt_timer_control`. -/
def rtTimerControl (s : SkipTimers τ) (t : τ) : Timers.Control → SkipTimers τ
  | .setTime time => s.setTimer t fun x => { x with initTick := time }
  | .setOneshot => s.setTimer t fun x => { x with periodic := false }
  | .setPeriodic => s.setTimer t fun x => { x with periodic := true }

/-- The timer at the front of the last row, when `rt_timer_check` finds it timed out. -/
def expired (c : SkipConfig) (s : SkipTimers τ) (currentTick : Nat) : Option τ :=
  match s.row c.bottom with
  | [] => none
  | t :: _ => if sub32 currentTick (s.timer t).timeoutTick < rtTickMax / 2 then some t else none

/-- What `rt_timer_check` does with an expired timer before its callback. -/
def beforeCallback (s : SkipTimers τ) (t : τ) : SkipTimers τ :=
  let s := s.timerRemove t
  let s := if (s.timer t).periodic then s else s.setTimer t fun x => { x with activated := false }
  { s with list := t :: s.list }

/-- What `rt_timer_check` does with an expired timer after its callback. It unlinks the node of the
last row only. -/
def afterCallback (c : SkipConfig) (s : SkipTimers τ) (t : τ) : SkipTimers τ :=
  -- the timer object was detached or started again
  if s.list = [] then s
  else
    let s := { s with
      row := update s.row c.bottom (rtListRemove (s.row c.bottom) t)
      list := rtListRemove s.list t }
    if (s.timer t).periodic ∧ (s.timer t).activated then
      (s.setTimer t fun x => { x with activated := false }).rtTimerStart c t
    else s

/-- The timers without the rows above the last. -/
def flat (c : SkipConfig) (s : SkipTimers τ) : Timers τ where
  rtTick := s.rtTick
  timer := s.timer
  timerList := s.row c.bottom
  list := s.list

theorem setTimer_self (t : τ) (f : RtTimer → RtTimer) :
    (s.setTimer t f).timer t = f (s.timer t) :=
  update_self ..

theorem setTimer_of_ne {t p : τ} (f : RtTimer → RtTimer) (hp : p ≠ t) :
    (s.setTimer t f).timer p = s.timer p :=
  update_of_ne hp ..

/-- The ticks until a timer times out, negative once it has. -/
def remaining (s : SkipTimers τ) (t : τ) : Int := ticksAhead (s.timer t).timeoutTick s.rtTick

/-- The rows: each is a part of the next, the last is sorted, and its timers time out less than
half a turn ahead, or have timed out at the tick before at the earliest. -/
structure Ordered (c : SkipConfig) (s : SkipTimers τ) : Prop where
  nested : Nested s.row c.bottom
  sorted : (s.row c.bottom).Pairwise fun p q => s.remaining p ≤ s.remaining q
  ahead : ∀ p ∈ s.row c.bottom, -1 ≤ s.remaining p ∧ s.remaining p < (rtTickMax / 2 : Nat)

omit [DecidableEq τ] in
theorem remaining_congr {s s' : SkipTimers τ} {p : τ} (htick : s'.rtTick = s.rtTick)
    (htimeout : (s'.timer p).timeoutTick = (s.timer p).timeoutTick) :
    s'.remaining p = s.remaining p := by
  unfold remaining
  rw [htick, htimeout]

/-- The loop puts the timer into the rows from some row on. -/
theorem insertRows_spec (mask : Nat) (heads : Nat → Option τ) (t : τ) :
    ∀ n tstNr row, ∃ k ≤ n, ∀ i, insertRows mask heads t n tstNr row i =
      if k ≤ i ∧ i < n then insertAfter t (heads i) (row i) else row i := by
  intro n
  induction n with
  | zero => exact fun tstNr row => ⟨0, Nat.le_refl 0, fun i => (if_neg (by omega)).symm⟩
  | succ n ih =>
    intro tstNr row
    rw [insertRows]
    by_cases htst : tstNr &&& mask = 0
    · rw [if_pos htst]
      obtain ⟨k, hk, hrows⟩ := ih (tstNr >>> ((mask + 1) >>> 1))
        (update row n (insertAfter t (heads n) (row n)))
      refine ⟨k, by omega, fun i => (hrows i).trans ?_⟩
      by_cases hi : i = n
      · rw [if_neg (by omega), if_pos (by omega), hi, update_self]
      · rw [update_of_ne hi]
        exact if_congr (by omega) rfl rfl
    · rw [if_neg htst]
      exact ⟨n + 1, Nat.le_refl _, fun i => (if_neg (by omega)).symm⟩

/-- The timer `p` times out later than `t` does when it is started now. -/
def Later (s : SkipTimers τ) (t p : τ) : Prop := (s.timer t).initTick < s.remaining p

section

omit [DecidableEq τ]

instance (s : SkipTimers τ) (t : τ) : DecidablePred (s.Later t) :=
  fun _ => inferInstanceAs (Decidable (_ < _))

variable {c : SkipConfig}

theorem Ordered.parted {s : SkipTimers τ} (h : s.Ordered c) (t : τ) :
    Parted (s.Later t) (s.row c.bottom) :=
  h.sorted.imp fun hle hp => Int.lt_of_lt_of_le hp hle

/-- When `t` is started the search stops at what times out later. -/
theorem Ordered.stopsAt_iff {s s' : SkipTimers τ} (h : s.Ordered c) {t p : τ}
    (ha : Admitted (s.timer t).initTick) (hp : p ∈ s.row c.bottom) (hkeep : s'.timer p = s.timer p)
    (hself : (s'.timer t).timeoutTick = add32 s.rtTick (s.timer t).initTick) :
    s'.stopsAt t p ↔ s.Later t p := by
  obtain ⟨hlow, hhigh⟩ := h.ahead p hp
  unfold stopsAt
  rw [hself, hkeep]
  exact stops_iff_ticksAhead ha hlow hhigh

end

/-- The timers when the search of `rt_timer_start` begins. -/
def searching (s : SkipTimers τ) (t : τ) : SkipTimers τ :=
  ((s.timerRemove t).setTimer t fun x => { x with activated := false }).setTimer t
    fun x => { x with timeoutTick := add32 s.rtTick x.initTick }

theorem searching_self (t : τ) :
    ((s.searching t).timer t).timeoutTick = add32 s.rtTick (s.timer t).initTick := by
  simp [searching, setTimer, timerRemove]

theorem searching_of_ne {t p : τ} (hp : p ≠ t) :
    (s.searching t).timer p = s.timer p :=
  (setTimer_of_ne _ _ hp).trans (setTimer_of_ne _ _ hp)

variable {t : τ}

section

variable {s : SkipTimers τ} (h : s.Ordered c)
include h

theorem Ordered.searching_stopsAt
    (ha : Admitted (s.timer t).initTick) {i : Nat} (hi : i ≤ c.bottom) :
    ∀ p ∈ rtListRemove (s.row i) t, (s.searching t).stopsAt t p ↔ s.Later t p := by
  intro p hp
  obtain ⟨hmem, hpt⟩ := mem_rtListRemove.mp hp
  exact h.stopsAt_iff ha ((h.nested.sublist_bottom hi).subset hmem) (s.searching_of_ne hpt)
    (s.searching_self t)

theorem Ordered.searching_parted (ha : Admitted (s.timer t).initTick) :
    Parted ((s.searching t).stopsAt t) (rtListRemove (s.row c.bottom) t) := by
  refine ((h.parted t).sublist (rtListRemove_sublist t)).imp_of_mem fun hp hq hle => ?_
  rw [h.searching_stopsAt ha (Nat.le_refl _) _ hp, h.searching_stopsAt ha (Nat.le_refl _) _ hq]
  exact hle

/-- A timer that is started goes into some rows from the last upwards, in each in front of the first
that times out later. -/
theorem Ordered.rtTimerStart_row (ha : Admitted (s.timer t).initTick) :
    ∃ k ≤ c.bottom, ∀ i ≤ c.bottom, (s.rtTimerStart c t).row i =
      if k ≤ i then place (s.Later t) t (rtListRemove (s.row i) t)
      else rtListRemove (s.row i) t := by
  let heads := rowHead ((s.searching t).stopsAt t) (s.searching t).row
  have hinsert : ∀ i ≤ c.bottom, insertAfter t (heads i) ((s.searching t).row i) =
      place (s.Later t) t (rtListRemove (s.row i) t) := fun i hi =>
    ((h.nested.remove t).insertAfter_rowHead (h.searching_parted ha) hi t).trans
      (place_congr (h.searching_stopsAt ha hi))
  obtain ⟨k, hk, hrows⟩ := insertRows_spec c.mask heads t c.bottom (add32 s.randomNr 1)
    (update (s.searching t).row c.bottom
      (insertAfter t (heads c.bottom) ((s.searching t).row c.bottom)))
  refine ⟨k, hk, fun i hi => (hrows i).trans ?_⟩
  by_cases hib : i = c.bottom
  · rw [if_neg (by omega), if_pos (by omega), hib, update_self]
    exact hinsert _ (Nat.le_refl _)
  · rw [update_of_ne hib, hinsert i hi]
    exact if_congr (by omega) rfl rfl

theorem Ordered.rtTimerStart_bottom
    (ha : Admitted (s.timer t).initTick) : (s.rtTimerStart c t).row c.bottom =
      place (s.Later t) t (rtListRemove (s.row c.bottom) t) := by
  obtain ⟨k, hk, hrows⟩ := h.rtTimerStart_row ha
  exact (hrows _ (Nat.le_refl _)).trans (if_pos hk)

theorem Ordered.mem_rtTimerStart (ha : Admitted (s.timer t).initTick) {p : τ} :
    p ∈ (s.rtTimerStart c t).row c.bottom ↔ p = t ∨ p ∈ s.row c.bottom := by
  rw [h.rtTimerStart_bottom ha, mem_place, mem_rtListRemove]
  tauto

end

/-- What is started gets the timeout that it gets in the list without rows. -/
theorem rtTimerStart_timer (c : SkipConfig) (s : SkipTimers τ) (t : τ) :
    (s.rtTimerStart c t).timer = ((s.flat c).rtTimerStart t).timer := rfl

section

variable {c : SkipConfig} {s : SkipTimers τ}

section

variable (h : s.Ordered c)
include h

/-- Changing a timer without its timeout, or one that is in no row. -/
theorem Ordered.setTimer {f : RtTimer → RtTimer}
    (hf : t ∈ s.row c.bottom → (f (s.timer t)).timeoutTick = (s.timer t).timeoutTick) :
    (s.setTimer t f).Ordered c := by
  have hkeep : ∀ p ∈ s.row c.bottom, (s.setTimer t f).remaining p = s.remaining p := by
    intro p hp
    refine remaining_congr rfl ?_
    by_cases hpt : p = t
    · subst hpt
      rw [setTimer_self]
      exact hf hp
    · rw [setTimer_of_ne _ _ hpt]
  refine ⟨h.nested, h.sorted.imp_of_mem fun hp hq hle => ?_, fun p hp => ?_⟩
  · rwa [hkeep _ hp, hkeep _ hq]
  · rw [hkeep p hp]
    exact h.ahead p hp

theorem Ordered.timerRemove (t : τ) : (s.timerRemove t).Ordered c where
  nested := h.nested.remove t
  sorted := h.sorted.sublist (rtListRemove_sublist _)
  ahead p hp := h.ahead p (mem_rtListRemove.mp hp).1

omit [DecidableEq τ] in
theorem Ordered.setList (l : List τ) : { s with list := l }.Ordered c :=
  ⟨h.nested, h.sorted, h.ahead⟩

theorem Ordered.rtTimerDetach (t : τ) : (s.rtTimerDetach t).Ordered c :=
  (h.timerRemove t).setTimer fun _ => rfl

theorem Ordered.beforeCallback (t : τ) : (s.beforeCallback t).Ordered c := by
  unfold SkipTimers.beforeCallback
  dsimp only
  split_ifs
  · exact (h.timerRemove t).setList _
  · exact ((h.timerRemove t).setTimer fun _ => rfl).setList _

omit [DecidableEq τ] in
theorem Ordered.tick (hlate : ∀ p ∈ s.row c.bottom, 0 ≤ s.remaining p) :
    { s with rtTick := add32 s.rtTick 1 }.Ordered c := by
  have hless : ∀ p ∈ s.row c.bottom,
      { s with rtTick := add32 s.rtTick 1 }.remaining p = s.remaining p - 1 := fun p hp =>
    ticksAhead_add32_one (hlate p hp)
  refine ⟨h.nested, h.sorted.imp_of_mem fun hp hq hle => ?_, fun p hp => ?_⟩
  · rw [hless _ hp, hless _ hq]
    omega
  · rw [hless p hp]
    have := h.ahead p hp
    have := hlate p hp
    omega

end

theorem rtTimerStart_remaining_self (ha : Admitted (s.timer t).initTick) :
    (s.rtTimerStart c t).remaining t = (s.timer t).initTick := by
  have htimer : ((s.rtTimerStart c t).timer t).timeoutTick =
      add32 s.rtTick (s.timer t).initTick := by
    rw [rtTimerStart_timer, Timers.rtTimerStart_self]
    rfl
  unfold remaining
  rw [htimer]
  exact ticksAhead_add32 ha

theorem rtTimerStart_remaining_of_ne {p : τ} (hp : p ≠ t) :
    (s.rtTimerStart c t).remaining p = s.remaining p := by
  refine remaining_congr rfl ?_
  rw [rtTimerStart_timer, Timers.rtTimerStart_of_ne _ _ hp]
  rfl

theorem Ordered.rtTimerStart (h : s.Ordered c) (ha : Admitted (s.timer t).initTick) :
    (s.rtTimerStart c t).Ordered c := by
  obtain ⟨k, hk, hrows⟩ := h.rtTimerStart_row ha
  have hself := rtTimerStart_remaining_self (c := c) ha
  have hne : ∀ p ∈ rtListRemove (s.row c.bottom) t, p ≠ t := fun p hp => (mem_rtListRemove.mp hp).2
  have hparted := (h.parted t).sublist (rtListRemove_sublist t)
  refine ⟨(h.nested.remove t).grow hparted (fun hp => hne t hp rfl) hk hrows, ?_, ?_⟩
  · rw [h.rtTimerStart_bottom ha]
    refine pairwise_place ?_ ?_ ?_ ?_
    · refine (h.sorted.sublist (rtListRemove_sublist t)).imp_of_mem fun hp hq hle => ?_
      rwa [rtTimerStart_remaining_of_ne (hne _ hp), rtTimerStart_remaining_of_ne (hne _ hq)]
    · intro p hp hpass
      unfold Later at hpass
      rw [hself, rtTimerStart_remaining_of_ne (hne p hp)]
      omega
    · intro p hp hstop
      unfold Later at hstop
      rw [hself, rtTimerStart_remaining_of_ne (hne p hp)]
      omega
    · intro p hp q hq hpass hstop
      unfold Later at hpass hstop
      rw [rtTimerStart_remaining_of_ne (hne p hp), rtTimerStart_remaining_of_ne (hne q hq)]
      omega
  · intro p hp
    unfold Admitted at ha
    by_cases hpt : p = t
    · rw [hpt, hself]
      omega
    · rw [rtTimerStart_remaining_of_ne hpt]
      exact h.ahead p (((h.mem_rtTimerStart ha).mp hp).resolve_left hpt)

omit [DecidableEq τ] in
/-- What is found timed out is the front of the last row, and no timer is ahead of it. -/
theorem Ordered.not_expired (h : s.Ordered c) (hexp : s.expired c s.rtTick = none) :
    ∀ p ∈ s.row c.bottom, 0 < s.remaining p := by
  have hsorted := h.sorted
  have hahead := h.ahead
  unfold expired at hexp
  cases hrow : s.row c.bottom with
  | nil => exact fun p hp => absurd hp not_mem_nil
  | cons q rest =>
    rw [hrow] at hexp hsorted hahead
    obtain ⟨hlow, hhigh⟩ := hahead q (.head _)
    have hq : 0 < s.remaining q := by
      have hnot : ¬ sub32 s.rtTick (s.timer q).timeoutTick < rtTickMax / 2 := fun hlt => by
        simp [hlt] at hexp
      rw [sub32_lt_half_iff_ticksAhead hlow hhigh] at hnot
      exact Int.not_le.mp hnot
    intro p hp
    rcases mem_cons.mp hp with rfl | hp
    · exact hq
    · exact Int.lt_of_lt_of_le hq ((pairwise_cons.mp hsorted).1 p hp)

/-- What follows a callback that left its own timer where it was. -/
theorem afterCallback_eq (hlist : s.list ≠ []) (ht : t ∉ s.row c.bottom) : s.afterCallback c t =
      if (s.timer t).periodic ∧ (s.timer t).activated then
        ({ s with list := rtListRemove s.list t }.setTimer t
          fun x => { x with activated := false }).rtTimerStart c t
      else { s with list := rtListRemove s.list t } := by
  have hrow : update s.row c.bottom (rtListRemove (s.row c.bottom) t) = s.row := by
    rw [rtListRemove_of_notMem ht, update_eq_self]
  rw [SkipTimers.afterCallback, if_neg hlist]
  simp only [hrow]

end

theorem beforeCallback_row (t : τ) :
    (s.beforeCallback t).row = fun i => rtListRemove (s.row i) t := by
  rw [beforeCallback]
  split_ifs <;> rfl

/-- The last row is the list without rows: before a callback, ... -/
theorem flat_beforeCallback (c : SkipConfig) (s : SkipTimers τ) (t : τ) :
    (s.beforeCallback t).flat c = (s.flat c).beforeCallback t := by
  have hflag : ((s.timerRemove t).timer t).periodic =
      (((s.flat c).timerRemove t).timer t).periodic := rfl
  rw [beforeCallback, Timers.beforeCallback]
  simp only [hflag]
  split_ifs <;> rfl

end SkipTimers

end RtKernel.Timer

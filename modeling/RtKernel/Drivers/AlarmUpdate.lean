import Mathlib.Data.Nat.Basic
import Mathlib.Order.Basic
import RtKernel.Drivers.Alarm

/-!
# What an update of the alarms does

It invokes the callbacks of the alarms in their time, and selects the one that comes next.
-/

open List Option

namespace RtKernel.Alarm

namespace Container

variable {ι : Type*} {s : Container ι} {alarm : ι} {now sec : Nat}
  {l l' : List ι} {c : Choice ι}

section

variable (hsec : sec < daySeconds)
include hsec

theorem till_eq_one : till now sec = 1 ↔ sec = (now + 1) % daySeconds := by
  unfold till daySeconds at *
  split_ifs <;> omega

theorem till_pos : 1 ≤ till now sec := by
  unfold till daySeconds at *
  split_ifs <;> omega

/-- A second later it is a second less, unless the time has come. -/
theorem till_succ (hne : sec ≠ (now + 1) % daySeconds) : till (now + 1) sec + 1 = till now sec := by
  unfold till daySeconds at *
  split_ifs <;> omega

end

/-- The alarm that `rt_alarm_start` sets comes before the current one. -/
theorem till_le_of_sooner {old new : Nat} (hold : old < daySeconds) (hnew : new < daySeconds)
    (h : sooner (now % daySeconds) old new) : till now new ≤ till now old := by
  unfold till sooner daySeconds at *
  split_ifs <;> omega

/-- One that it does not set comes after the current one, which is not right now. -/
theorem till_le_of_not_sooner {old new : Nat} (hold : old < daySeconds) (hnew : new < daySeconds)
    (h : ¬ sooner (now % daySeconds) old new)
    (hnow : old = now % daySeconds → new = now % daySeconds) : till now old ≤ till now new := by
  unfold till sooner daySeconds at *
  split_ifs <;> omega

/-- The alarm with the least value among those of a list that meet a condition. -/
inductive Best (p : ι → Prop) (f : ι → Nat) (l : List ι) : Option ι → Prop
  | absent (h : ∀ other ∈ l, ¬ p other) : Best p f l none
  | present {best : ι} (hmem : best ∈ l) (hp : p best)
      (hmin : ∀ other ∈ l, p other → f best ≤ f other) : Best p f l (some best)

namespace Best

variable {p : ι → Prop} {f : ι → Nat} {found : Option ι}

theorem forall_concat {q : ι → Prop} (h : ∀ other ∈ l, q other) (halarm : q alarm) :
    ∀ other ∈ l ++ [alarm], q other := by
  intro other hmem
  rw [mem_append, mem_singleton] at hmem
  rcases hmem with hmem | rfl
  · exact h other hmem
  · exact halarm

theorem skip (h : Best p f l found)
    (hskip : p alarm → ∃ best, found = some best ∧ f best ≤ f alarm) :
    Best p f (l ++ [alarm]) found := by
  cases h with
  | absent h =>
    refine .absent (forall_concat h fun hp => ?_)
    obtain ⟨best, hno, -⟩ := hskip hp
    cases hno
  | present hmem hp hmin =>
    refine .present (mem_append_left _ hmem) hp (forall_concat hmin fun halarm => ?_)
    obtain ⟨best, hbest, hle⟩ := hskip halarm
    rw [some.inj hbest]
    exact hle

theorem take (h : Best p f l found) (hp : p alarm)
    (hless : ∀ best, found = some best → f alarm ≤ f best) :
    Best p f (l ++ [alarm]) (some alarm) := by
  refine .present (mem_append_right _ (mem_singleton_self _)) hp
    (forall_concat (fun other hmem hother => ?_) fun _ => Nat.le_refl _)
  cases h with
  | absent h => exact absurd hother (h other hmem)
  | present _ _ hmin => exact (hless _ rfl).trans (hmin other hmem hother)

end Best

/-- A started alarm comes later today. -/
def After (s : Container ι) (alarm : ι) : Prop :=
  s.started alarm = true ∧ s.secNow < s.wktime alarm

/-- The time of a started alarm is over for today. -/
def Before (s : Container ι) (alarm : ι) : Prop :=
  s.started alarm = true ∧ s.wktime alarm < s.secNow

/-- What the second loop has found among the alarms it has seen. -/
structure Chosen (s : Container ι) (l : List ι) (c : Choice ι) : Prop where
  next : Best s.After s.wktime l c.almNext
  secNext : c.secNext = c.almNext.elim (daySeconds : Int) fun alarm => s.wktime alarm - s.secNow
  prev : Best s.Before s.wktime l c.almPrev
  secPrev : c.secPrev = c.almPrev.elim (0 : Int) fun alarm => s.wktime alarm - s.secNow

theorem chosen_nil (s : Container ι) : Chosen s [] ⟨daySeconds, none, 0, none⟩ :=
  ⟨.absent fun _ hno => (by cases hno), rfl, .absent fun _ hno => (by cases hno), rfl⟩

theorem Chosen.choose (h : Chosen s l c) (alarm : ι) (hsmall : s.wktime alarm < daySeconds) :
    Chosen s (l ++ [alarm]) (s.choose c alarm) := by
  obtain ⟨hnext, hsecNext, hprev, hsecPrev⟩ := h
  unfold Container.choose
  dsimp only
  split_ifs with hstarted hafter hless hless
  · refine ⟨hnext.take ⟨hstarted, by omega⟩ fun best hbest => ?_, rfl, hprev.skip ?_, hsecPrev⟩
    · rw [hsecNext, hbest, elim_some] at hless
      omega
    · rintro ⟨-, hlt⟩
      omega
  · refine ⟨hnext.skip fun _ => ?_, hsecNext, hprev.skip ?_, hsecPrev⟩
    · cases hbest : c.almNext with
      | none =>
        rw [hsecNext, hbest, elim_none] at hless
        omega
      | some best =>
        rw [hsecNext, hbest, elim_some] at hless
        exact ⟨best, rfl, by omega⟩
    · rintro ⟨-, hlt⟩
      omega
  · refine ⟨hnext.skip ?_, hsecNext, hprev.take ⟨hstarted, ?_⟩ fun best hbest => ?_, rfl⟩
    · rintro ⟨-, hlt⟩
      omega
    · have hle : c.secPrev ≤ 0 := by
        rw [hsecPrev]
        generalize c.almPrev = best at hprev
        cases hprev with
        | absent => exact Int.le_refl 0
        | present _ hp _ =>
          rw [elim_some]
          have hlt := hp.2
          omega
      omega
    · rw [hsecPrev, hbest, elim_some] at hless
      omega
  · refine ⟨hnext.skip ?_, hsecNext, hprev.skip ?_, hsecPrev⟩
    · rintro ⟨-, hlt⟩
      omega
    · rintro ⟨-, hlt⟩
      cases hbest : c.almPrev with
      | none =>
        rw [hsecPrev, hbest, elim_none] at hless
        omega
      | some best =>
        rw [hsecPrev, hbest, elim_some] at hless
        exact ⟨best, rfl, by omega⟩
  · refine ⟨hnext.skip ?_, hsecNext, hprev.skip ?_, hsecPrev⟩
    all_goals
      rintro ⟨hyes, -⟩
      exact absurd hyes hstarted

theorem chosen_foldl (h : Chosen s l c) (hsmall : ∀ alarm ∈ l', s.wktime alarm < daySeconds) :
    Chosen s (l ++ l') (l'.foldl s.choose c) := by
  induction l' generalizing l c with
  | nil => rwa [append_nil]
  | cons alarm l' ih =>
    have hfirst := h.choose alarm (hsmall alarm (.head _))
    have hrest := ih hfirst fun other hmem => hsmall other (.tail _ hmem)
    rwa [append_assoc] at hrest

/-- What `alarm_update` selects comes next, when there is an alarm that is not right now. -/
theorem selected_next (hlisted : ∀ alarm, s.started alarm = true → alarm ∈ s.list)
    (hsmall : ∀ alarm ∈ s.list, s.wktime alarm < daySeconds)
    (hother : ∃ other, s.started other = true ∧ s.wktime other ≠ s.secNow) :
    ∃ alarm, s.selected = some alarm ∧ s.started alarm = true ∧ s.Next alarm := by
  obtain ⟨other, hs, hne⟩ := hother
  have hmem := hlisted other hs
  have hchosen : Chosen s s.list (s.list.foldl s.choose ⟨daySeconds, none, 0, none⟩) :=
    chosen_foldl s.chosen_nil hsmall
  obtain ⟨hnext, hsecNext, hprev, hsecPrev⟩ := hchosen
  unfold selected
  dsimp only
  generalize s.list.foldl s.choose ⟨daySeconds, none, 0, none⟩ = c at *
  have htill : ∀ alarm, till s.now (s.wktime alarm) =
      if s.secNow < s.wktime alarm then s.wktime alarm - s.secNow
      else s.wktime alarm + daySeconds - s.secNow := fun _ => rfl
  generalize c.almNext = next at hnext hsecNext
  generalize c.almPrev = prev at hprev hsecPrev
  cases hnext with
  | @present best hbest hafter hmin =>
    have hsmallBest := hsmall best hbest
    rw [elim_some] at hsecNext
    rw [if_pos (by omega)]
    refine ⟨best, rfl, hafter.1, fun later hstarted => ?_⟩
    rw [htill, htill, if_pos hafter.2]
    split_ifs with hlater
    · exact Nat.sub_le_sub_right (hmin later (hlisted later hstarted) ⟨hstarted, hlater⟩) _
    · omega
  | absent hnone =>
    have hover : ∀ alarm, s.started alarm = true → s.wktime alarm ≤ s.secNow :=
      fun alarm hstarted => Nat.le_of_not_lt fun hlt =>
        hnone alarm (hlisted alarm hstarted) ⟨hstarted, hlt⟩
    have hle := hover other hs
    rw [elim_none] at hsecNext
    rw [if_neg (by omega)]
    cases hprev with
    | absent hno => exact absurd ⟨hs, by omega⟩ (hno other hmem)
    | @present best hbest hbefore hmin =>
      have hlt := hbefore.2
      rw [elim_some] at hsecPrev
      rw [if_pos (by omega)]
      refine ⟨best, rfl, hbefore.1, fun later hstarted => ?_⟩
      have hlater := hover later hstarted
      rw [htill, htill, if_neg (by omega), if_neg (by omega)]
      rcases Nat.lt_or_ge (s.wktime later) s.secNow with hless | hnow
      · have hfirst := hmin later (hlisted later hstarted) ⟨hstarted, hless⟩
        omega
      · omega

/-- With all started alarms right now the current one is set again. -/
theorem selected_current (hnow : ∀ alarm, s.started alarm = true → s.wktime alarm = s.secNow)
    (hsmall : ∀ alarm ∈ s.list, s.wktime alarm < daySeconds) : s.selected = s.current := by
  have hchosen : Chosen s s.list (s.list.foldl s.choose ⟨daySeconds, none, 0, none⟩) :=
    chosen_foldl s.chosen_nil hsmall
  obtain ⟨hnext, hsecNext, hprev, hsecPrev⟩ := hchosen
  unfold selected
  dsimp only
  generalize s.list.foldl s.choose ⟨daySeconds, none, 0, none⟩ = c at *
  generalize c.almNext = next at hnext hsecNext
  generalize c.almPrev = prev at hprev hsecPrev
  cases hnext with
  | present _ hafter _ =>
    have hlt := hafter.2
    have heq := hnow _ hafter.1
    omega
  | absent _ =>
    cases hprev with
    | present _ hbefore _ =>
      have hlt := hbefore.2
      have heq := hnow _ hbefore.1
      omega
    | absent _ =>
      rw [hsecNext, hsecPrev, elim_none, elim_none, if_neg (Int.lt_irrefl _),
        if_neg (Int.lt_irrefl _)]

/-- The first loop of `alarm_update` invokes the callbacks of the alarms in their time. -/
theorem foldl_alarmWakeup [DecidableEq ι] (hnodup : l.Nodup) :
    ∃ calls, l.foldl alarmWakeup s = { s with calls := calls } ∧ ∀ alarm, calls alarm =
      if alarm ∈ l ∧ s.wakesUp alarm then s.calls alarm ++ [s.now] else s.calls alarm := by
  induction l generalizing s with
  | nil => exact ⟨s.calls, rfl, fun alarm => (if_neg fun hno => by cases hno.1).symm⟩
  | cons first l ih =>
    obtain ⟨hfirst, hnodup⟩ := nodup_cons.mp hnodup
    obtain ⟨calls, hfold, hcalls⟩ := ih (s := s.alarmWakeup first) hnodup
    have hwakes : ∀ alarm, (s.alarmWakeup first).wakesUp alarm ↔ s.wakesUp alarm := by
      intro alarm
      unfold alarmWakeup
      split_ifs <;> exact Iff.rfl
    have hnow : (s.alarmWakeup first).now = s.now := by
      unfold alarmWakeup
      split_ifs <;> rfl
    have hother : ∀ alarm, alarm ≠ first → (s.alarmWakeup first).calls alarm = s.calls alarm := by
      intro alarm hne
      unfold alarmWakeup
      split_ifs
      · exact Function.update_of_ne hne ..
      · rfl
    refine ⟨calls, ?_, fun alarm => ?_⟩
    · rw [foldl_cons, hfold]
      unfold alarmWakeup
      split_ifs <;> rfl
    · rw [hcalls, hnow]
      simp only [hwakes]
      by_cases hne : alarm = first
      · subst hne
        rw [if_neg fun hno => hfirst hno.1]
        unfold alarmWakeup
        by_cases hwake : s.wakesUp alarm
        · rw [if_pos hwake, if_pos ⟨mem_cons_self, hwake⟩]
          exact Function.update_self ..
        · rw [if_neg hwake, if_neg fun hyes => hwake hyes.2]
      · rw [hother alarm hne]
        simp only [mem_cons, hne, false_or]

end Container

end RtKernel.Alarm

import RtKernel.Drivers.WorkPlaces

/-!
# Refused works

A submission takes the work out of its list before it is known whether it is refused, so a
refusal loses what had been submitted.
-/

namespace RtKernel.Workqueue.Queues

variable {κ ω : Type*}

/-- The submission of a work is as it was: its flags, its timer, and the lists of all queues. -/
structure Unchanged (s s' : Queues κ ω) (w : ω) : Prop where
  work : s'.work w = s.work w
  workList : s'.workList = s.workList
  delayedList : s'.delayedList = s.delayedList

/-- A work that is in no list and has no `RT_WORK_STATE_PENDING`. -/
structure Unlisted (s : Queues κ ω) (w : ω) : Prop where
  pending : (s.work w).pending = false
  workList : ∀ q, w ∉ s.workList q
  delayedList : ∀ q, w ∉ s.delayedList q

variable [DecidableEq κ] [DecidableEq ω] {s s' : Queues κ ω} {q : κ} {w : ω}

omit [DecidableEq κ] in
/-- Only what is in no list can be taken out without a trace. -/
theorem unchanged_withdraw_iff : Unchanged s (s.withdraw w) w ↔ Unlisted s w := by
  constructor
  · rintro ⟨hwork, hlist, hdelayed⟩
    rw [withdraw_work] at hwork
    refine ⟨(congrArg RtWork.pending hwork).symm, fun q hmem => ?_, fun q hmem => ?_⟩
    · rw [← hlist] at hmem
      exact withdraw_workList q hmem
    · rw [← hdelayed] at hmem
      exact withdraw_delayedList q hmem
  · rintro ⟨hpending, hlist, hdelayed⟩
    refine ⟨?_, ?_, ?_⟩
    · rw [withdraw_work, ← hpending]
    · ext1 q
      exact rtListRemove_of_notMem (hlist q)
    · ext1 q
      exact rtListRemove_of_notMem (hdelayed q)

/-- A submission that is refused has done nothing else. -/
theorem workqueueSubmitWork_refused {ticks : Nat} {err : WorkErr}
    (h : s.workqueueSubmitWork q w ticks = some (s', err)) (herr : err ≠ .eok) : s' = s.withdraw w ∧
      (ticks = 0 ∧ s.workCurrent q = some w ∧ err = .ebusy ∨
        rtTickMax / 2 ≤ ticks ∧ err = .error) := by
  unfold workqueueSubmitWork at h
  by_cases hzero : ticks = 0
  · rw [if_pos hzero, Option.some.injEq, submitNow] at h
    by_cases hcurrent : s.workCurrent q = some w
    · have hbusy : ¬ (s.withdraw w).workCurrent q ≠ some w := fun hno => hno hcurrent
      have hthread : (s.withdraw w).resumeThread q = s.withdraw w := by
        rw [resumeThread, if_neg]
        rintro ⟨hnone, -⟩
        cases hnone.symm.trans hcurrent
      simp only [if_neg hbusy, hthread] at h
      cases h
      exact ⟨rfl, .inl ⟨hzero, hcurrent, rfl⟩⟩
    · have hfree : (s.withdraw w).workCurrent q ≠ some w := hcurrent
      simp only [if_pos hfree] at h
      exact absurd (congrArg Prod.snd h).symm herr
  · rw [if_neg hzero] at h
    by_cases hticks : ticks < rtTickMax / 2
    · rw [if_pos hticks] at h
      obtain ⟨t, -, ht⟩ := Option.map_eq_some_iff.mp h
      exact absurd (congrArg Prod.snd ht).symm herr
    · rw [if_neg hticks] at h
      cases h
      exact ⟨rfl, .inr ⟨Nat.le_of_not_lt hticks, rfl⟩⟩

/-- A refused submission leaves the submission of the work as it was just when there was none: the
work was in no list, and not pending. -/
theorem refused_unchanged_iff {ticks : Nat} {err : WorkErr}
    (h : s.workqueueSubmitWork q w ticks = some (s', err)) (herr : err ≠ .eok) :
    Unchanged s s' w ↔ Unlisted s w := by
  obtain ⟨rfl, -⟩ := workqueueSubmitWork_refused h herr
  exact unchanged_withdraw_iff

/-- A work that is being done and has not been submitted again is refused without a trace. -/
theorem refused_unchanged_working :
    ∃ s s' : Queues Unit (Fin 2),
      runAll exec start [.dowork () 0, .thread ()] = some s ∧
        s.workqueueSubmitWork () 0 0 = some (s', .ebusy) ∧ Unchanged s s' 0 := by
  obtain ⟨s, hrun, s', hsubmit, hpending, hlist, hdelayed⟩ :
      ∃ s : Queues Unit (Fin 2), runAll exec start [.dowork () 0, .thread ()] = some s ∧
        ∃ s', s.workqueueSubmitWork () 0 0 = some (s', .ebusy) ∧
          (s.work 0).pending = false ∧ s.workList () = [] ∧ s.delayedList () = [] :=
    ⟨_, rfl, _, rfl, rfl, rfl, rfl⟩
  refine ⟨s, s', hrun, hsubmit, (refused_unchanged_iff hsubmit (by decide)).mpr ?_⟩
  exact ⟨hpending, fun _ => by simp [hlist], fun _ => by simp [hdelayed]⟩

/-- A work is submitted with a delay while it is being done; a refused submission without a delay
takes it out of the list of delayed works. -/
theorem delayed_lost :
    ∃ s s' : Queues Unit (Fin 2), Reachable Initial Step s ∧
      s.workqueueSubmitWork () 0 0 = some (s', .ebusy) ∧ ¬ Unchanged s s' 0 := by
  obtain ⟨s, hrun, s', hsubmit, hdelayed, hlost⟩ :
      ∃ s : Queues Unit (Fin 2),
        runAll exec start [.dowork () 0, .thread (), .submit () 0 10] = some s ∧
        ∃ s', s.workqueueSubmitWork () 0 0 = some (s', .ebusy) ∧
          s.delayedList () = [0] ∧ s'.delayedList () = [] :=
    ⟨_, rfl, _, rfl, rfl, rfl⟩
  refine ⟨s, s', (Reachable.start start_initial).runAll hrun, hsubmit, fun hsame => ?_⟩
  have heq := congrFun hsame.delayedList ()
  rw [hdelayed, hlost] at heq
  cases heq

end RtKernel.Workqueue.Queues

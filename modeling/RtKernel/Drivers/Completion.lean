import RtKernel.Core.Run
import RtKernel.Kernel.Thread

/-!
# Completions

One thread waits for a completion, with a timeout or without, and interrupts or other
threads report that it is done. The waiter clears the flag when it runs again, whatever
has woken it.
-/

open Option

namespace RtKernel.Completion

/-- Where the waiting thread is. -/
inductive Waiter
  /-- Not in `rt_completion_wait`. -/
  | outside
  /-- In the suspended list, with its timer started or not. -/
  | suspended (timer : Bool)
  /-- Ready to run again, with the error number it was given. -/
  | woken (err : RtErr)
  deriving DecidableEq

/-- `struct rt_completion`; the flag is `RT_COMPLETED` or not. -/
structure RtCompletion where
  flag : Bool
  waiter : Waiter

/-- `rt_completion_init`. -/
def rtCompletionInit : RtCompletion := { flag := false, waiter := .outside }

/-- `rt_completion_wait` to where it returns or the thread is suspended. -/
def rtCompletionWait (completion : RtCompletion) (timeout : Int) : RtCompletion × Option RtErr :=
  if completion.flag = false then
    if timeout = 0 then (completion, some .etimeout)
    else ({ completion with waiter := .suspended (decide (0 < timeout)) }, none)
  else ({ completion with flag := false }, some .eok)

/-- `rt_completion_wait` from where the thread is waked up. -/
def rtCompletionWake (err : RtErr) : RtCompletion × RtErr :=
  -- clean completed flag
  ({ flag := false, waiter := .outside }, err)

/-- `_thread_timeout` of the waiting thread. -/
def threadTimeout (completion : RtCompletion) : RtCompletion :=
  { completion with waiter := .woken .etimeout }

/-- `rt_completion_done` where interrupts are disabled. -/
def rtCompletionDone (completion : RtCompletion) : RtCompletion :=
  { flag := true
    waiter :=
      match completion.waiter with
      | .suspended _ => .woken .eok
      | waiter => waiter }

/-- A completion with the callers of `rt_completion_done`. -/
structure Sys (δ : Type*) where
  completion : RtCompletion
  /-- Who has found the flag not completed and has not disabled interrupts yet. -/
  entering : δ → Bool
  /-- The results of the waits. -/
  results : List RtErr
  /-- It has been done after the last wait that was successful. -/
  done : Bool

/-- What happens to a completion. -/
inductive Act (δ : Type*)
  | wait (timeout : Int)
  | timeout
  | wake
  | doneTest (d : δ)
  | doneSet (d : δ)

namespace Sys

variable {δ : Type*} [DecidableEq δ]

/-- A wait returns. -/
def returns (s : Sys δ) (completion : RtCompletion) (result : RtErr) : Sys δ :=
  { s with
    completion := completion
    results := s.results ++ [result]
    done := if result = .eok then false else s.done }

def exec (s : Sys δ) : Act δ → Option (Sys δ)
  | .wait timeout =>
    if s.completion.waiter = .outside then
      match rtCompletionWait s.completion timeout with
      | (completion, some result) => some (s.returns completion result)
      | (completion, none) => some { s with completion := completion }
    else none
  | .timeout =>
    if s.completion.waiter = .suspended true then
      some { s with completion := threadTimeout s.completion }
    else none
  | .wake =>
    match s.completion.waiter with
    | .woken err =>
      let (completion, result) := rtCompletionWake err
      some (s.returns completion result)
    | _ => none
  | .doneTest d =>
    if s.entering d = false then
      -- a call that finds the flag completed returns at once
      some
        (if s.completion.flag = true then { s with done := true }
        else { s with entering := Function.update s.entering d true })
    else none
  | .doneSet d =>
    if s.entering d = true then
      some { s with
        completion := rtCompletionDone s.completion
        entering := Function.update s.entering d false
        done := true }
    else none

/-- A completion that has just been initialized. -/
def Initial (s : Sys δ) : Prop :=
  s = { completion := rtCompletionInit, entering := fun _ => false, results := [], done := false }

/-- Nothing that was done after the last successful wait is lost. -/
def Kept (s : Sys δ) : Prop := s.done = true → s.completion.flag = true

/-- Nobody sets the flag while the waiter has timed out and has not run. -/
def Careful (s : Sys δ) : Act δ → Prop
  | .doneSet _ => s.completion.waiter ≠ .woken .etimeout
  | .wait _ | .timeout | .wake | .doneTest _ => True

instance (s : Sys δ) (a : Act δ) : Decidable (Careful s a) :=
  match a with
  | .doneSet _ => inferInstanceAs (Decidable (s.completion.waiter ≠ .woken .etimeout))
  | .wait _ | .timeout | .wake | .doneTest _ => .isTrue trivial

/-- The flag says what has been done, and a waiter that it has woken finds it set. -/
structure Good (s : Sys δ) : Prop where
  done : s.done = s.completion.flag
  suspended : ∀ timer, s.completion.waiter = .suspended timer → s.completion.flag = false
  woken : ∀ err, s.completion.waiter = .woken err →
    err = .eok ∧ s.completion.flag = true ∨ err = .etimeout ∧ s.completion.flag = false

variable {s t : Sys δ}

omit [DecidableEq δ] in
theorem Initial.good (h : Initial s) : Good s := by
  subst h
  exact ⟨rfl, fun _ hw => Waiter.noConfusion hw, fun _ hw => Waiter.noConfusion hw⟩

section

variable (h : Good s)
include h

theorem Good.wait {timeout : Int} (hexec : exec s (.wait timeout) = some t) : Good t := by
  have hdone := h.done
  obtain ⟨houtside, hexec⟩ := ite_none_right_eq_some.mp hexec
  unfold rtCompletionWait at hexec
  by_cases hflag : s.completion.flag = false
  · rw [if_pos hflag] at hexec
    by_cases hzero : timeout = 0
    · rw [if_pos hzero] at hexec
      cases hexec
      exact ⟨hdone, h.suspended, h.woken⟩
    · rw [if_neg hzero] at hexec
      cases hexec
      exact ⟨hdone, fun _ _ => hflag, fun _ hw => Waiter.noConfusion hw⟩
  · rw [if_neg hflag] at hexec
    cases hexec
    refine ⟨rfl, fun _ _ => rfl, fun _ hw => ?_⟩
    rw [houtside] at hw
    cases hw

theorem Good.timeout (hexec : exec s .timeout = some t) : Good t := by
  obtain ⟨hsuspended, hexec⟩ := ite_none_right_eq_some.mp hexec
  cases hexec
  refine ⟨h.done, fun _ hw => Waiter.noConfusion hw, fun err hw => ?_⟩
  have herr : .etimeout = err := Waiter.woken.inj hw
  exact .inr ⟨herr.symm, h.suspended true hsuspended⟩

theorem Good.wake (hexec : exec s .wake = some t) : Good t := by
  have hdone := h.done
  simp only [Sys.exec] at hexec
  cases hwaiter : s.completion.waiter with
  | outside | suspended timer => simp only [hwaiter] at hexec; cases hexec
  | woken err =>
    simp only [hwaiter] at hexec
    cases hexec
    refine ⟨?_, fun _ _ => rfl, fun _ hw => Waiter.noConfusion hw⟩
    rcases h.woken err hwaiter with ⟨rfl, -⟩ | ⟨rfl, hflag⟩
    · rfl
    · exact hdone.trans hflag

theorem Good.doneTest {d : δ} (hexec : exec s (.doneTest d) = some t) : Good t := by
  obtain ⟨-, hexec⟩ := ite_none_right_eq_some.mp hexec
  cases hexec
  split
  · rename_i hflag
    exact ⟨hflag.symm, h.suspended, h.woken⟩
  · exact ⟨h.done, h.suspended, h.woken⟩

theorem Good.doneSet {d : δ} (hcareful : Careful s (.doneSet d))
    (hexec : exec s (.doneSet d) = some t) : Good t := by
  obtain ⟨-, hexec⟩ := ite_none_right_eq_some.mp hexec
  cases hexec
  refine ⟨rfl, fun timer hw => ?_, fun err hw => ?_⟩
  · cases hwaiter : s.completion.waiter with
    | outside | suspended timer | woken err => simp only [rtCompletionDone, hwaiter] at hw; cases hw
  · cases hwaiter : s.completion.waiter with
    | outside => simp only [rtCompletionDone, hwaiter] at hw; cases hw
    | suspended timer =>
      simp only [rtCompletionDone, hwaiter] at hw
      exact .inl ⟨(Waiter.woken.inj hw).symm, rfl⟩
    | woken err' =>
      simp only [rtCompletionDone, hwaiter] at hw
      obtain rfl := Waiter.woken.inj hw
      rcases h.woken _ hwaiter with ⟨rfl, -⟩ | ⟨rfl, -⟩
      · exact .inl ⟨rfl, rfl⟩
      · exact absurd hwaiter hcareful

theorem Good.exec {a : Act δ} (hcareful : Careful s a) (hexec : exec s a = some t) : Good t := by
  cases a with
  | wait timeout => exact h.wait hexec
  | timeout => exact h.timeout hexec
  | wake => exact h.wake hexec
  | doneTest d => exact h.doneTest hexec
  | doneSet d => exact h.doneSet hcareful hexec

end

/-- As long as nobody sets the flag between a timeout and the waiter, what is done stays until a
wait is successful; it is lost when the waiter runs after such a step. -/
theorem reachable_kept
    (h : Reachable Initial (Within (fun (s : Sys δ) a t => exec s a = some t) Careful) s) :
    Kept s ∧ ∀ d t u, exec s (.doneSet d) = some t → exec t .wake = some u →
      (Kept u ↔ Careful s (.doneSet d)) := by
  have hgood : Good s :=
    h.inductWithin (·.good) (·.exec)
  refine ⟨fun hdone => hgood.done.symm.trans hdone, fun d t u hset hwake => ⟨?_, fun hcareful => ?_⟩⟩
  · rintro hkept hwaiter
    obtain ⟨-, hset⟩ := Option.ite_none_right_eq_some.mp hset
    cases hset
    simp only [Sys.exec, rtCompletionDone, hwaiter] at hwake
    cases hwake
    exact Bool.false_ne_true (hkept rfl)
  · have ht := (hgood.doneSet hcareful hset).wake hwake
    exact fun hdone => ht.done.symm.trans hdone

/-- A completion that two callers report. -/
def ready : Sys (Fin 2) where
  completion := rtCompletionInit
  entering := fun _ => false
  results := []
  done := false

theorem ready_initial : Initial ready := rfl

/-- A wait times out, and the next one is successful. -/
theorem reachable_kept_second : ∃ s : Sys (Fin 2), s.results = [.etimeout, .eok] ∧
    Kept s ∧ ∀ d t u, exec s (.doneSet d) = some t → exec t .wake = some u →
      (Kept u ↔ Careful s (.doneSet d)) := by
  have hrun : ∃ s ∈ runWithin exec Careful ready [.wait 10, .doneTest 0, .timeout, .wake,
      .wait (-1), .doneTest 1, .doneSet 0, .wake, .doneSet 1],
      s.results = [.etimeout, .eok] := by decide +kernel
  obtain ⟨s, hs, hresults⟩ := Reachable.of_runWithin ready_initial hrun
  exact ⟨s, hresults, reachable_kept hs⟩

/-- It is done after the timeout, and the waiter that returns without success clears the flag. -/
theorem erased_not_kept :
    ¬ ∀ s : Sys (Fin 2), Reachable Initial (fun s a t => exec s a = some t) s → Kept s := by
  intro hall
  have hrun : ∃ s ∈ runAll exec ready [.wait 10, .timeout, .doneTest 0, .doneSet 0, .wake],
      s.done = true ∧ s.completion.flag = false := by decide +kernel
  obtain ⟨s, hs, hdone, hflag⟩ := Reachable.of_runAll ready_initial hrun
  have hkept := hall s hs hdone
  rw [hflag] at hkept
  exact Bool.false_ne_true hkept

end Sys

end RtKernel.Completion

import RtKernel.Drivers.CanHdr
import RtKernel.Drivers.CanReceive
import RtKernel.Drivers.CanSendResult
import RtKernel.Drivers.Completion
import RtKernel.Drivers.WorkCancel
import RtKernel.Ipc.Semaphore

/-!
# The semaphores and completions of the drivers

The models of the CAN driver and of the work queues have no kernel threads, so that their
semaphores are counters and their completions are flags. They do what the calls of the kernel
do. The two builds of the CAN driver store a message in the same node.
-/

open List

namespace RtKernel

section

variable {τ β : Type*} [DecidableEq τ] {s s' : CanSend.Can τ β} {t : τ}

namespace CanSend.Can

/-- What a thread has to do with the completion of a box. -/
def waiter (s : Can τ β) (no : Nat) (t : τ) : Completion.Waiter :=
  match s.phase t with
  | .suspended _ c => if c.no = no then .suspended false else .outside
  | .woken _ c => if c.no = no then .woken .eok else .outside
  | _ => .outside

/-- The completion of a box, for one thread. -/
def completion (s : Can τ β) (no : Nat) (t : τ) : Completion.RtCompletion :=
  ⟨(s.buffer no).flag, s.waiter no t⟩

/-- A write waits for its completion as long as it takes. -/
theorem next_wait {after : After} {c : Call β} (hphase : s.phase t = .wait after c)
    (hnext : s.next t = some s') :
    s'.completion c.no t = (Completion.rtCompletionWait (s.completion c.no t) (-1)).1 := by
  simp only [next, hphase, rtCompletionWait] at hnext
  cases hflag : (s.buffer c.no).flag with
  | true =>
    rw [if_pos hflag] at hnext
    cases hnext
    cases after <;> simp [completion, waiter, setPhase, setBox, returned, hphase, hflag, Completion.rtCompletionWait]
  | false =>
    rw [if_neg (by simp [hflag])] at hnext
    split_ifs at hnext
    cases hnext
    simp [completion, waiter, setPhase, setBox, hflag, Completion.rtCompletionWait]

/-- A write goes on when it is woken. -/
theorem next_woken {after : After} {c : Call β} (hphase : s.phase t = .woken after c)
    (hnext : s.next t = some s') :
    s'.completion c.no t = (Completion.rtCompletionWake .eok).1 := by
  simp only [next, hphase, Option.some.injEq] at hnext
  subst hnext
  cases after <;> simp [completion, waiter, setPhase, setBox, returned, Completion.rtCompletionWake]

omit [DecidableEq τ] in
/-- In the list of a completion is the thread that is suspended on it. -/
theorem Owned.listed (h : Owned s) (no : Nat) (u : τ) : (s.buffer no).suspended = some u ↔
    ∃ after c, s.phase u = .suspended after c ∧ c.no = no := by
  refine ⟨fun hu => ?_, ?_⟩
  · have hbusy : ∀ box : Box τ, box.suspended = none → s.buffer no ≠ box := by
      rintro _ hnone rfl
      rw [hnone] at hu
      cases hu
    obtain ⟨v, hv⟩ : ∃ v, (s.phase v).uses = some no := by
      by_contra hunused
      exact hbusy _ (h.quiet no fun v hv => hunused ⟨v, hv⟩).suspended rfl
    have hknows := h.knows v
    cases hphase : s.phase v with
    | suspended after c =>
      rw [hphase] at hv hknows
      have hc : c.no = no := by cases after <;> cases hv <;> rfl
      have hself := hknows.2.2.1
      rw [hc, hu] at hself
      exact ⟨after, c, Option.some.inj hself ▸ hphase, hc⟩
    | mark c | send priv c | undo c =>
      rw [hphase] at hv hknows
      cases hv
      exact absurd rfl (hbusy _ hknows.suspended)
    | collect c | read c =>
      rw [hphase] at hv hknows
      cases hv
      exact absurd rfl (hbusy _ hknows.1.suspended)
    | wait after c =>
      rw [hphase] at hv hknows
      have hc : c.no = no := by cases after <;> cases hv <;> rfl
      exact absurd rfl (hbusy _ (hc ▸ hknows.2.2.1))
    | woken after c =>
      rw [hphase] at hv hknows
      have hc : c.no = no := by cases after <;> cases hv <;> rfl
      exact absurd rfl (hbusy _ (hc ▸ hknows.2.1))
    | _ =>
      rw [hphase] at hv
      cases hv
  · rintro ⟨after, c, hphase, rfl⟩
    have hknows := h.knows u
    rw [hphase] at hknows
    exact hknows.2.2.1

/-- A report sets the flag and wakes the one who waits. -/
theorem rtCompletionDone_completion (h : Owned s) {no : Nat} (hflag : (s.buffer no).flag = false) :
    (s.rtCompletionDone no).completion no t = Completion.rtCompletionDone (s.completion no t) := by
  rw [rtCompletionDone, if_neg (by simp [hflag])]
  by_cases ht : (s.buffer no).suspended = some t
  · obtain ⟨after, c, hphase, hc⟩ := (h.listed no t).mp ht
    simp [completion, waiter, Completion.rtCompletionDone, setPhase, setBox, ht, hphase, hc]
  · -- the thread is not in the list, and stays where it is
    have hnot : ∀ after c, s.phase t = .suspended after c → c.no ≠ no :=
      fun after c hphase hc => ht ((h.listed no t).mpr ⟨after, c, hphase, hc⟩)
    have hsame : Completion.rtCompletionDone (s.completion no t) = ⟨true, s.waiter no t⟩ := by
      unfold completion waiter Completion.rtCompletionDone
      cases hphase : s.phase t with
      | suspended after c => simp [hnot after c hphase]
      | woken after c => by_cases hc : c.no = no <;> simp [hc]
      | _ => rfl
    rw [hsame]
    cases hsuspended : (s.buffer no).suspended with
    | none => simp [completion, waiter, setBox]
    | some u =>
      have hu : t ≠ u := fun heq => ht (heq ▸ hsuspended)
      simp [completion, waiter, setPhase, setBox, Function.update_of_ne hu]

end CanSend.Can

end

section

variable {τ β ω : Type*} [DecidableEq τ] {k : Kernel τ ω} {on : τ → Option ω} (h : k.Waits on)
  {sem : Sem.RtSemaphore} {x : ω}

namespace CanSend.Can

variable {s : Can τ β} {t : τ} (hvalue : sem.value = s.sem)
include hvalue

/-- A release that nobody waits for is `rt_sem_release`. -/
theorem rtSemRelease_value (hwait : k.wait x = []) :
    s.rtSemRelease = { s with sem := (Sem.rtSemRelease k sem x).2.1.value } := by
  have hlimit : Sem.rtSemValueMax = rtSemValueMax := rfl
  simp only [rtSemRelease, Sem.rtSemRelease, Kernel.ipcListResume, hwait, hvalue, hlimit]
  split_ifs
  · rfl
  · rw [hvalue]

variable {c : Call β} (hphase : s.phase t = .take c)
include hphase

/-- A write takes a token where `rt_sem_take` does, and goes no further where it waits. -/
theorem next_take [DecidableEq ω] (hlock : k.schedulerLockNest = 0) : s.next t =
      match Sem.rtSemTake k sem x (-1) with
      | some (_, sem', .returns _) => some (setPhase { s with sem := sem'.value } t (.pop c))
      | _ => none := by
  by_cases hpos : 0 < s.sem
  · simp [next, hphase, Sem.rtSemTake, hvalue, hpos]
  · simp [next, hphase, Sem.rtSemTake, hvalue, hpos, hlock]

include h in
/-- The kernel hands the token to the first that waits; here it takes it from the value. -/
theorem rtSemRelease_next {rest : List τ} (hlt : s.sem < rtSemValueMax) (hwait : k.wait x = t :: rest) :
    (Sem.rtSemRelease k sem x).2.1.value = s.sem ∧
      s.rtSemRelease.next t = some (s.setPhase t (.pop c)) := by
  constructor
  · rcases Sem.rtSemRelease_cases h sem x with ⟨_, _, -, heq⟩ | ⟨hnone, -⟩ | ⟨hnone, -⟩
    · rw [heq, hvalue]
    all_goals rw [hwait] at hnone; cases hnone
  · simp [next, rtSemRelease, hlt, hphase, setPhase]

end CanSend.Can

namespace Workqueue

variable [DecidableEq ω]

/-- The loop of `_workqueue_work_completion` over the calls of the kernel, for a number of turns. -/
def completionLoop (k : Kernel τ ω) (sem : Sem.RtSemaphore) (x : ω) :
    Nat → Option (Kernel τ ω × Sem.RtSemaphore)
  | 0 => none
  | turns + 1 =>
    match Sem.rtSemTake k sem x 0 with
    | some (k, sem, .returns .eok) => some (k, sem)
    | some (k, sem, _) => completionLoop (Sem.rtSemRelease k sem x).1 (Sem.rtSemRelease k sem x).2.1 x turns
    | none => none

theorem completionLoop_pos (k : Kernel τ ω) (hpos : 0 < sem.value) (x : ω) (turns : Nat) :
    completionLoop k sem x (turns + 1) = some (k, { sem with value := sem.value - 1 }) := by
  simp [completionLoop, Sem.rtSemTake, hpos]

include h in
/-- The loop leaves the value and the list of `workqueueWorkCompletion`, and has resumed its threads. -/
theorem completionLoop_eq {turns : Nat} (hturns : (k.wait x).length + 2 ≤ turns) : ∃ k' sem' resumed,
    completionLoop k sem x turns = some (k', sem') ∧ k' = resumed.foldl Kernel.resume k ∧
      workqueueWorkCompletion sem.value (k.wait x) = (sem'.value, k'.wait x, resumed) := by
  obtain ⟨turns, rfl⟩ : ∃ n, turns = n + 1 := ⟨turns - 1, by omega⟩
  by_cases hpos : 0 < sem.value
  · refine ⟨k, _, [], completionLoop_pos k hpos x turns, rfl, ?_⟩
    obtain ⟨value, hvalue⟩ := Nat.exists_eq_succ_of_ne_zero hpos.ne'
    rw [hvalue, workqueueWorkCompletion]
    rfl
  · have hzero : sem.value = 0 := Nat.eq_zero_of_not_pos hpos
    have hturn : ∀ (k : Kernel τ ω) turns, completionLoop k sem x (turns + 1) =
        completionLoop (Sem.rtSemRelease k sem x).1 (Sem.rtSemRelease k sem x).2.1 x turns := by
      intro k turns
      simp [completionLoop, Sem.rtSemTake, hzero]
    -- each turn resumes the first of the list, and the last one takes what it has released
    generalize hlist : k.wait x = list at hturns
    rw [hturn, hzero]
    induction list generalizing k turns with
    | nil =>
      obtain ⟨turns, rfl⟩ : ∃ n, turns = n + 1 := ⟨turns - 1, by rw [length_nil] at hturns; omega⟩
      have hrelease : Sem.rtSemRelease k sem x = (k, { sem with value := 1 }, .eok) := by
        simp [Sem.rtSemRelease, Kernel.ipcListResume, hlist, hzero, Sem.rtSemValueMax]
      rw [hrelease, completionLoop_pos k Nat.one_pos, ← hlist]
      exact ⟨k, _, [], rfl, rfl, by rw [hlist]; rfl⟩
    | cons t rest ih =>
      obtain ⟨turns, rfl⟩ : ∃ n, turns = n + 1 := ⟨turns - 1, by rw [length_cons] at hturns; omega⟩
      have hnodup := h.nodup x
      rw [hlist, nodup_cons] at hnodup
      have hrelease : Sem.rtSemRelease k sem x = (k.resume t, sem, .eok) := by
        rcases Sem.rtSemRelease_cases h sem x with ⟨u, _, hwait, heq⟩ | ⟨hnone, -⟩ | ⟨hnone, -⟩
        · rw [hlist] at hwait
          cases hwait
          exact heq
        all_goals rw [hlist] at hnone; cases hnone
      obtain ⟨k', sem', resumed, hloop, hk, heq⟩ := ih (h.resume t) turns
        (by simp only [Kernel.resume_wait, hlist, rtListRemove_cons_self hnodup.1])
        (by rw [length_cons] at hturns; omega)
      rw [hrelease, hturn]
      exact ⟨k', sem', t :: resumed, hloop, hk, by rw [workqueueWorkCompletion, heq]⟩

/-- A call of `rt_workqueue_cancel_work_sync` waits where `rt_sem_take` does, last in the list. -/
theorem rtSemTake_eq {κ υ : Type*} [DecidableEq κ] [DecidableEq υ] {s : Sync κ υ τ} {q : κ} {w : υ}
    (hvalue : sem.value = s.value q) (hwait : k.wait x = s.suspended q) (hflag : sem.flag = .fifo)
    (hrun : (k.thread k.current).stat = .running) (hnot : k.current ∉ k.wait x)
    (hlock : k.schedulerLockNest = 0) :
    ∃ k' sem' outcome, Sem.rtSemTake k sem x (-1) = some (k', sem', outcome) ∧
      sem'.value = (s.rtSemTake k.current q w).value q ∧
      k'.wait x = (s.rtSemTake k.current q w).suspended q ∧
      (s.rtSemTake k.current q w).caller k.current =
        if outcome = .waits then .waits q w else .returns q w := by
  by_cases hpos : 0 < s.value q
  · simp [Sem.rtSemTake, Sync.rtSemTake, hvalue, hpos, hwait]
  · have hblock : (k.block x .fifo false).wait x = k.wait x ++ [k.current] := by
      simp [Kernel.block, Kernel.ipcListSuspend, Kernel.ipcListInsert, Kernel.rtThreadSuspend, hrun,
        Kernel.suspend, rtListRemove_of_notMem hnot]
    simp [Sem.rtSemTake, Sync.rtSemTake, hvalue, hpos, hlock, hflag, hblock, hwait]

end Workqueue

end

/-- With `RT_CAN_USING_HDR` and without it, `rt_hw_can_isr` moves the same node. -/
theorem CanHdr.Can.rtHwCanIsr_lists {τ σ β : Type*} {c c' : CanHdr.Can σ} {s s' : CanReceive.RtCanRxFifo τ β}
    (hfree : c.freelist = s.freelist) (huse : c.uselist = s.uselist) {hdr : Int} {tmpmsg : β}
    (hc : c.rtHwCanIsr hdr = some c') (hs : s.rtHwCanIsr tmpmsg = some s') :
    c'.freelist = s'.freelist ∧ c'.uselist = s'.uselist := by
  have hinsert : ∀ (c : CanHdr.Can σ) listmsg h, (c.insert listmsg h).freelist = c.freelist ∧
      (c.insert listmsg h).uselist = c.uselist ++ [listmsg] := by
    intro c listmsg h
    unfold CanHdr.Can.insert
    dsimp only
    split_ifs <;> exact ⟨rfl, rfl⟩
  unfold CanHdr.Can.rtHwCanIsr at hc
  unfold CanReceive.RtCanRxFifo.rtHwCanIsr at hs
  rw [hfree, huse] at hc
  dsimp only at hs
  cases hlist : s.freelist with
  | cons listmsg rest =>
    rw [hlist] at hc hs
    obtain ⟨h, -, rfl⟩ := Option.map_eq_some_iff.mp hc
    dsimp only at hs
    split_ifs at hs
    cases hs
    rw [(hinsert _ _ _).1, (hinsert _ _ _).2]
    exact ⟨rfl, rfl⟩
  | nil =>
    rw [hlist] at hc hs
    cases hused : s.uselist with
    | cons listmsg rest =>
      rw [hused] at hc hs
      obtain ⟨h, -, rfl⟩ := Option.map_eq_some_iff.mp hc
      cases hs
      rw [(hinsert _ _ _).1, (hinsert _ _ _).2]
      exact ⟨rfl, rfl⟩
    | nil =>
      rw [hused] at hc hs
      cases hc
      cases hs
      exact ⟨hfree.trans hlist, huse.trans hused⟩

end RtKernel

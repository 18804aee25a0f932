import RtKernel.Core.Count
import RtKernel.Core.Run
import RtKernel.Ipc.Calls

/-!
# Semaphores

Threads and interrupts take and release semaphores in any order, and a thread may
be interrupted between the locked part of its call and its return. A release
hands its token to the first waiter without touching the counter, so the tokens
are partly in the counters and partly with the threads.
-/

open Option (map_eq_some_iff)

open List

namespace RtKernel.Sem

open Kernel

/-- `RT_SEM_VALUE_MAX`, the largest `rt_uint16_t`. -/
def rtSemValueMax : Nat := 65535

/-- `struct rt_semaphore`; its suspend list is kept with the threads. -/
structure RtSemaphore where
  value : Nat
  flag : IpcFlag

variable {τ ω : Type*} [DecidableEq τ] [DecidableEq ω]

/-- The locked part of `rt_sem_take`. -/
def rtSemTake (k : Kernel τ ω) (sem : RtSemaphore) (x : ω) (timeout : Int) :
    Option (Kernel τ ω × RtSemaphore × Outcome) :=
  if 0 < sem.value then some (k, { sem with value := sem.value - 1 }, .returns .eok)
  else if timeout = 0 then some (k, sem, .returns .etimeout)
  else if k.schedulerLockNest ≠ 0 then none -- RT_DEBUG_SCHEDULER_AVAILABLE
  else some (k.block x sem.flag (0 < timeout), sem, .waits)

/-- The locked part of `rt_sem_release`. -/
def rtSemRelease (k : Kernel τ ω) (sem : RtSemaphore) (x : ω) : Kernel τ ω × RtSemaphore × RtErr :=
  match k.ipcListResume x with
  | some k => (k, sem, .eok)
  | none =>
      if sem.value < rtSemValueMax then (k, { sem with value := sem.value + 1 }, .eok)
      else (k, sem, .efull)

variable {x : ω}

theorem rtSemTake_cases {k k' : Kernel τ ω} {sem sem' : RtSemaphore} {timeout : Int}
    {outcome : Outcome} (h : rtSemTake k sem x timeout = some (k', sem', outcome)) :
    (0 < sem.value ∧ k' = k ∧ sem' = { sem with value := sem.value - 1 } ∧
      outcome = .returns .eok) ∨
    (sem.value = 0 ∧ timeout = 0 ∧ k' = k ∧ sem' = sem ∧ outcome = .returns .etimeout) ∨
    (sem.value = 0 ∧ timeout ≠ 0 ∧ k' = k.block x sem.flag (0 < timeout) ∧ sem' = sem ∧
      outcome = .waits) := by
  unfold rtSemTake at h
  split_ifs at h with hv ht hl
  · cases h
    exact .inl ⟨hv, rfl, rfl, rfl⟩
  · cases h
    exact .inr (.inl ⟨by omega, ht, rfl, rfl, rfl⟩)
  · cases h
    exact .inr (.inr ⟨by omega, ht, rfl, rfl, rfl⟩)

variable {k : Kernel τ ω}

omit [DecidableEq ω] in
theorem rtSemRelease_cases {on : τ → Option ω} (h : k.Waits on) (sem : RtSemaphore) (x : ω) :
    (∃ t rest, k.wait x = t :: rest ∧ rtSemRelease k sem x = (k.resume t, sem, .eok)) ∨
    (k.wait x = [] ∧ sem.value < rtSemValueMax ∧
      rtSemRelease k sem x = (k, { sem with value := sem.value + 1 }, .eok)) ∨
    (k.wait x = [] ∧ rtSemRelease k sem x = (k, sem, .efull)) := by
  unfold rtSemRelease
  cases hk : k.ipcListResume x with
  | some k' =>
    obtain ⟨t, rest, hw, rfl⟩ := h.ipcListResume hk
    exact .inl ⟨t, rest, hw, rfl⟩
  | none =>
    have hw : k.wait x = [] := by
      unfold ipcListResume at hk
      cases hw : k.wait x with
      | nil => rfl
      | cons t rest =>
        rw [hw] at hk
        cases hk
    by_cases hv : sem.value < rtSemValueMax
    · exact .inr (.inl ⟨hw, hv, if_pos hv⟩)
    · exact .inr (.inr ⟨hw, if_neg hv⟩)

/-- A call past its locked part. -/
inductive Call (ω : Type*)
  /-- `rt_sem_take`, about to return `RT_EOK`. -/
  | taken (x : ω)
  /-- `rt_sem_take`, suspended or about to return the error of its thread. -/
  | waiting (x : ω)
  /-- `rt_sem_release`, about to return `RT_EOK`. -/
  | released (x : ω)
  deriving DecidableEq

/-- What the current thread, an interrupt or the timer does. -/
inductive Act (τ ω : Type*)
  | take (x : ω) (timeout : Int)
  | release (x : ω)
  /-- The current thread returns from its call. -/
  | ret
  | isrTake (x : ω)
  | isrRelease (x : ω)
  /-- The innermost interrupt returns from its call. -/
  | isrRet
  | timeout (t : τ)
  | background (b : Background τ)

/-- The semaphore that a call has been suspended on. -/
def waitsOn : Call ω → Option ω
  | .waiting x => some x
  | _ => none

/-- The threads and the semaphores, with the calls under way. -/
structure Sys (τ ω : Type*) extends Callers τ ω (Call ω) where
  sem : ω → RtSemaphore
  /-- The calls the interrupts are in. -/
  isr : List (Call ω)
  /-- How often `rt_sem_take` has returned `RT_EOK`. -/
  takes : ω → Nat
  /-- How often `rt_sem_release` has returned `RT_EOK`. -/
  releases : ω → Nat

variable {c : Call ω}

omit [DecidableEq ω] in
theorem waitsOn_eq_some (h : waitsOn c = some x) : c = .waiting x := by
  cases c with
  | waiting y =>
    cases h
    rfl
  | _ => cases h

namespace Sys

/-- What the locked part of a call on `x` leaves. -/
def store (s : Sys τ ω) (x : ω) (k : Kernel τ ω) (sem : RtSemaphore) : Sys τ ω :=
  { s with kernel := k, sem := Function.update s.sem x sem }

/-- The current thread enters or leaves a call. -/
def enter (s : Sys τ ω) (c : Option (Call ω)) : Sys τ ω :=
  { s with toCallers := s.toCallers.enter c }

omit [DecidableEq ω] in
@[simp] theorem enter_call_self (s : Sys τ ω) (c) : (s.enter c).call s.kernel.current = c :=
  s.toCallers.enter_call_self c
omit [DecidableEq τ] in
@[simp] theorem store_sem_self (s : Sys τ ω) (x : ω) (k) (sem) : (s.store x k sem).sem x = sem :=
  Function.update_self ..
omit [DecidableEq τ] in
theorem store_sem_of_ne {s : Sys τ ω} {x y : ω} {k} {sem} (h : y ≠ x) :
    (s.store x k sem).sem y = s.sem y := Function.update_of_ne h ..
omit [DecidableEq τ] in
/-- A locked part that leaves the semaphore as it is. -/
theorem store_sem (s : Sys τ ω) (x : ω) (k) : s.store x k (s.sem x) = { s with kernel := k } := by
  unfold store
  rw [Function.update_eq_self]

/-- A call returns the error code. -/
def leave (s : Sys τ ω) (c : Call ω) (err : RtErr) : Sys τ ω :=
  { s with
    takes := fun x => s.takes x + if err = .eok ∧ (c = .taken x ∨ c = .waiting x) then 1 else 0
    releases := fun x => s.releases x + if err = .eok ∧ c = .released x then 1 else 0 }

/-- What the current thread returns from its call. -/
def result (s : Sys τ ω) : Call ω → RtErr
  | .waiting _ => (s.kernel.thread s.kernel.current).error
  | _ => .eok

/-- A step; there is none where it cannot happen or an assertion fails. -/
def exec (s : Sys τ ω) : Act τ ω → Option (Sys τ ω)
  | .take x timeout =>
      if s.Free then
        (rtSemTake s.kernel (s.sem x) x timeout).map fun (k, sem, outcome) =>
          let s := s.store x k sem
          match outcome with
          | .returns .eok => s.enter (some (.taken x))
          | .returns _ => s
          | .waits => s.enter (some (.waiting x))
      else none
  | .release x =>
      if s.Free then
        let (k, sem, err) := rtSemRelease s.kernel (s.sem x) x
        let s := s.store x k sem
        some (if err = .eok then s.enter (some (.released x)) else s)
      else none
  | .ret =>
      -- the idle thread never waits, so `rt_schedule` comes back only to a thread that runs
      if s.Running then
        (s.call s.kernel.current).map fun c => (s.enter none).leave c (s.result c)
      else none
  | .isrTake x =>
      (rtSemTake s.kernel (s.sem x) x 0).map fun (k, sem, outcome) =>
        let s := s.store x k sem
        if outcome = .returns .eok then { s with isr := .taken x :: s.isr } else s
  | .isrRelease x =>
      let (k, sem, err) := rtSemRelease s.kernel (s.sem x) x
      let s := s.store x k sem
      some (if err = .eok then { s with isr := .released x :: s.isr } else s)
  | .isrRet =>
      match s.isr with
      | [] => none
      | c :: rest => some ({ s with isr := rest }.leave c .eok)
  | .timeout t => (s.toCallers.timeout t).map fun c => { s with toCallers := c }
  | .background b => (s.toCallers.background b).map fun c => { s with toCallers := c }

def Step (s : Sys τ ω) (a : Act τ ω) (s' : Sys τ ω) : Prop := s.exec a = some s'

/-- No call has been made, and the semaphores have the values `v`. -/
structure Initial (v : ω → Nat) (s : Sys τ ω) : Prop where
  inv : ∃ started, s.kernel.Inv started
  wait : ∀ x, s.kernel.wait x = []
  value : ∀ x, (s.sem x).value = v x
  bound : ∀ x, v x ≤ rtSemValueMax
  call : ∀ t, s.call t = none
  isr : s.isr = []
  takes : ∀ x, s.takes x = 0
  releases : ∀ x, s.releases x = 0

/-- The thread has been given a token and is about to return `RT_EOK`: it has found one, or has been
resumed by a release. -/
def Granted (s : Sys τ ω) (x : ω) (t : τ) : Prop :=
  s.call t = some (.taken x) ∨
    s.call t = some (.waiting x) ∧ (s.kernel.thread t).stat ≠ .suspend ∧
      (s.kernel.thread t).error = .eok

/-- The thread is about to return `RT_EOK` from a release. -/
def Releasing (s : Sys τ ω) (x : ω) (t : τ) : Prop := s.call t = some (.released x)

instance (s : Sys τ ω) (x : ω) : DecidablePred (s.Granted x) := fun _ =>
  inferInstanceAs (Decidable (_ ∨ _))

instance (s : Sys τ ω) (x : ω) : DecidablePred (s.Releasing x) := fun _ =>
  inferInstanceAs (Decidable (_ = _))

variable [Fintype τ]

/-- The takes that returned `RT_EOK` or are about to. -/
def granted (s : Sys τ ω) (x : ω) : Nat :=
  s.takes x + count (s.Granted x) + s.isr.count (.taken x)

/-- The releases that returned `RT_EOK` or are about to. -/
def given (s : Sys τ ω) (x : ω) : Nat :=
  s.releases x + count (s.Releasing x) + s.isr.count (.released x)

/-- The invariant of a run, where `g` releases and `t` takes have not been counted yet. -/
structure Owing (v g t : ω → Nat) (s : Sys τ ω) : Prop where
  ok : s.Ok waitsOn
  isr : ∀ x, .waiting x ∉ s.isr
  bound : ∀ x, (s.sem x).value ≤ rtSemValueMax
  empty : ∀ x, 0 < (s.sem x).value → s.kernel.wait x = []
  balance : ∀ x, v x + s.given x + g x = (s.sem x).value + s.granted x + t x

/-- The invariant of a run between two steps. -/
abbrev Good (v : ω → Nat) (s : Sys τ ω) : Prop := Owing v 0 0 s

section

variable {s : Sys τ ω} {sem : ω → RtSemaphore} {t : τ}

omit [DecidableEq τ] [DecidableEq ω] [Fintype τ] in
/-- Whether a thread has a token depends on the call, the state and the error of the thread. -/
theorem granted_iff
    (hs : (k.thread t).stat = .suspend ↔ (s.kernel.thread t).stat = .suspend)
    (he : (k.thread t).error = (s.kernel.thread t).error) :
    Granted { s with kernel := k, sem := sem } x t ↔ s.Granted x t := by
  unfold Granted
  rw [ne_eq, hs, he]

omit [DecidableEq τ] in
theorem granted_kernel (sem : ω → RtSemaphore)
    (h : ∀ t, Granted { s with kernel := k, sem := sem } x t ↔ s.Granted x t) :
    granted { s with kernel := k, sem := sem } x = s.granted x := by
  unfold granted
  rw [count_congr h]

omit [DecidableEq τ] in
theorem granted_calm (sem : ω → RtSemaphore) (h : s.kernel.Calm k) (x : ω) :
    granted { s with kernel := k, sem := sem } x = s.granted x :=
  granted_kernel sem fun t => granted_iff (h.suspended t) (h.error t)

theorem granted_resume (sem : ω → RtSemaphore) (hc : s.call t = some (.waiting x))
    (hs : (s.kernel.thread t).stat = .suspend) (he : (s.kernel.thread t).error = .eok) (y : ω) :
    granted { s with kernel := s.kernel.resume t, sem := sem } y =
      s.granted y + if y = x then 1 else 0 := by
  have hchange := count_change (p := s.Granted y)
    (q := Granted { s with kernel := s.kernel.resume t, sem := sem } y) t fun z hz =>
      granted_iff (by rw [resume_of_ne hz]) (by rw [resume_of_ne hz])
  have hbefore : ¬ s.Granted y t := by
    rintro (hg | hg)
    · cases hc.symm.trans hg
    · exact hg.2.1 hs
  have hafter : Granted { s with kernel := s.kernel.resume t, sem := sem } y t ↔ y = x := by
    unfold Granted
    rw [hc, resume_self, he]
    by_cases ht : t = s.kernel.current
    · simp [ht, eq_comm]
    · simp [ht, eq_comm]
  rw [if_neg hbefore] at hchange
  simp only [hafter] at hchange
  unfold granted
  simp only at hchange ⊢
  omega

theorem granted_timeout (hk : s.kernel.threadTimeout t = some k) (x : ω) :
    granted { s with kernel := k } x = s.granted x := by
  obtain ⟨hs, -, -, hself, hother⟩ := threadTimeout_spec hk
  apply granted_kernel s.sem
  intro y
  by_cases hy : y = t
  · subst hy
    unfold Granted
    rw [hself, hs]
    simp
  · exact granted_iff (by rw [hother y hy]) (by rw [hother y hy])

/-- A thread that is free and suspended next is counted neither before nor after. -/
theorem block_counts (x : ω) (flag : IpcFlag) (timed : Bool) (h : s.Free) (y : ω) :
    (enter { s with kernel := s.kernel.block x flag timed } (some (.waiting x))).granted y =
        s.granted y ∧
      (enter { s with kernel := s.kernel.block x flag timed } (some (.waiting x))).given y =
        s.given y := by
  obtain ⟨hcur, hself, hother, -, -⟩ := block_spec x flag timed h.1
  refine ⟨?_, ?_⟩
  · unfold granted
    congr 2
    apply count_congr
    intro t
    unfold Granted enter Callers.enter
    simp only [hcur]
    by_cases ht : t = s.kernel.current
    · subst ht
      rw [hself, h.call_eq]
      simp
    · rw [Function.update_of_ne ht, hother t ht]
  · unfold given
    congr 2
    apply count_congr
    intro t
    unfold Releasing enter Callers.enter
    simp only [hcur]
    by_cases ht : t = s.kernel.current
    · subst ht
      rw [h.call_eq]
      simp
    · rw [Function.update_of_ne ht]

theorem granted_enter (s : Sys τ ω) (c : Option (Call ω)) (x : ω) :
    (s.enter c).granted x + (if s.Granted x s.kernel.current then 1 else 0) =
      s.granted x + if (s.enter c).Granted x s.kernel.current then 1 else 0 := by
  have hchange := count_change (p := s.Granted x) (q := (s.enter c).Granted x) s.kernel.current
    fun z hz => by
      unfold Granted enter
      rw [Callers.enter_call_of_ne _ _ hz, Callers.enter_kernel]
  unfold granted
  simp only [enter] at hchange ⊢
  omega

theorem given_enter (s : Sys τ ω) (c : Option (Call ω)) (x : ω) :
    (s.enter c).given x + (if s.Releasing x s.kernel.current then 1 else 0) =
      s.given x + if (s.enter c).Releasing x s.kernel.current then 1 else 0 := by
  have hchange := count_change (p := s.Releasing x) (q := (s.enter c).Releasing x) s.kernel.current
    fun z hz => by
      unfold Releasing enter
      rw [Callers.enter_call_of_ne _ _ hz]
  unfold given
  simp only [enter] at hchange ⊢
  omega

omit [DecidableEq τ] in
theorem leave_counts (s : Sys τ ω) (c : Call ω) (err : RtErr) (x : ω) :
    (s.leave c err).granted x = s.granted x +
      (if err = .eok ∧ (c = .taken x ∨ c = .waiting x) then 1 else 0) ∧
    (s.leave c err).given x = s.given x + if err = .eok ∧ c = .released x then 1 else 0 := by
  have hgranted : count ((s.leave c err).Granted x) = count (s.Granted x) := rfl
  have hreleasing : count ((s.leave c err).Releasing x) = count (s.Releasing x) := rfl
  unfold granted given
  rw [hgranted, hreleasing]
  simp only [leave]
  omega

theorem free_enter_counts (h : s.Free) (c : Call ω) (y : ω) (hc : ∀ x, c ≠ .waiting x) :
    (s.enter (some c)).granted y = s.granted y + (if c = .taken y then 1 else 0) ∧
      (s.enter (some c)).given y = s.given y + if c = .released y then 1 else 0 := by
  have hgranted := granted_enter s (some c) y
  have hgiven := given_enter s (some c) y
  simp only [Granted, Releasing, enter_call_self, h.call_eq, Option.some.injEq,
    reduceCtorEq, false_and, or_self, if_false, hc, or_false, Nat.add_zero] at hgranted hgiven
  exact ⟨hgranted, hgiven⟩

theorem ret_counts (hrun : s.Running) (hc : s.call s.kernel.current = some c) (y : ω) :
    ((s.enter none).leave c (s.result c)).granted y = s.granted y ∧
      ((s.enter none).leave c (s.result c)).given y = s.given y := by
  obtain ⟨hgranted', hgiven'⟩ := leave_counts (s.enter none) c (s.result c) y
  have hgranted := granted_enter s none y
  have hgiven := given_enter s none y
  rw [Callers.Running] at hrun
  simp only [Granted, Releasing, enter_call_self, hc, hrun, Option.some.injEq,
    reduceCtorEq, false_and, or_self, if_false, Nat.add_zero] at hgranted hgiven
  rw [hgranted', hgiven', ← hgranted, ← hgiven]
  cases c with
  | taken x => simp [result]
  | released x => simp [result]
  | waiting x => simp [result, and_comm]

end

section

variable {s : Sys τ ω} {v g t : ω → Nat}

theorem Owing.enter_taken (h : Owing v 0 (Pi.single x 1) s) (hfree : s.Free) :
    (s.enter (some (.taken x))).Good v := by
  refine ⟨h.ok.enter hfree.1 _, h.isr, h.bound, h.empty, ?_⟩
  intro y
  obtain ⟨hgranted, hgiven⟩ := free_enter_counts hfree (.taken x) y nofun
  have hbalance := h.balance y
  rw [hgranted, hgiven]
  simp only [Pi.single_apply, eq_comm, Call.taken.injEq, reduceCtorEq, if_false, Pi.zero_apply,
    enter] at hbalance ⊢
  omega

theorem Owing.enter_released (h : Owing v (Pi.single x 1) 0 s) (hfree : s.Free) :
    (s.enter (some (.released x))).Good v := by
  refine ⟨h.ok.enter hfree.1 _, h.isr, h.bound, h.empty, ?_⟩
  intro y
  obtain ⟨hgranted, hgiven⟩ := free_enter_counts hfree (.released x) y nofun
  have hbalance := h.balance y
  rw [hgranted, hgiven]
  simp only [Pi.single_apply, eq_comm, Call.released.injEq, reduceCtorEq, if_false, Pi.zero_apply,
    enter] at hbalance ⊢
  omega

variable {sem : RtSemaphore}

section

variable (h : s.Good v)
include h

omit [DecidableEq τ] in
/-- A locked part that changes the counter of `x` and gives tokens. -/
theorem Owing.store (hok : (s.store x k sem).Ok waitsOn) (hbound : sem.value ≤ rtSemValueMax)
    (hempty : 0 < sem.value → k.wait x = [])
    (hothers : ∀ y ≠ x, s.kernel.wait y = [] → k.wait y = [])
    (hgranted : ∀ y ≠ x, (s.store x k sem).granted y = s.granted y) (hg : ∀ y ≠ x, g y = 0)
    (ht : ∀ y ≠ x, t y = 0)
    (hbalance : (s.sem x).value + s.granted x + g x = sem.value + (s.store x k sem).granted x + t x) :
    Owing v g t (s.store x k sem) := by
  refine ⟨hok, h.isr, ?_, ?_, ?_⟩
  · intro y
    by_cases hy : y = x
    · rw [hy, store_sem_self]
      exact hbound
    · rw [store_sem_of_ne hy]
      exact h.bound y
  · intro y
    by_cases hy : y = x
    · rw [hy, store_sem_self]
      exact hempty
    · rw [store_sem_of_ne hy]
      exact fun hv => hothers y hy (h.empty y hv)
  · intro y
    have hold := h.balance y
    have hgiven : (s.store x k sem).given y = s.given y := rfl
    by_cases hy : y = x
    · subst hy
      rw [store_sem_self]
      omega
    · rw [store_sem_of_ne hy, hgranted y hy, hg y hy, ht y hy]
      omega

/-- `rt_sem_release` hands its token to a waiter or to the counter, or changes nothing. -/
theorem Owing.release {err : RtErr} (hk : rtSemRelease s.kernel (s.sem x) x = (k, sem, err)) :
    err = .eok ∧ Owing v (Pi.single x 1) 0 (s.store x k sem) ∧ (s.Free → (s.store x k sem).Free) ∨
      err ≠ .eok ∧ s.store x k sem = s := by
  rcases rtSemRelease_cases h.ok.waits (s.sem x) x with
    ⟨t, rest, hw, heq⟩ | ⟨hw, hv, heq⟩ | ⟨hw, heq⟩
  · -- the token goes to the first waiter
    cases heq.symm.trans hk
    obtain ⟨hs, he, c, hcall, hc⟩ := h.ok.head hw
    cases waitsOn_eq_some hc
    have hgranted := granted_resume (Function.update s.sem x (s.sem x)) hcall hs he
    have hempty : ∀ y, s.kernel.wait y = [] → (s.kernel.resume t).wait y = [] := by
      intro y hy
      rw [resume_wait]
      exact congrArg (rtListRemove · t) hy
    refine .inl ⟨rfl, ?_, ?_⟩
    · apply h.store
      · exact h.ok.resume hs
      · exact h.bound x
      · exact fun hv => hempty x (h.empty x hv)
      · exact fun y _ => hempty y
      · intro y hy
        rw [Sys.store, hgranted, if_neg hy, Nat.add_zero]
      · intro y hy
        exact Pi.single_eq_of_ne hy 1
      · exact fun _ _ => rfl
      · rw [Sys.store, hgranted, if_pos rfl, Pi.single_eq_same]
        rfl
    · exact fun hfree => hfree.resume hs
  · -- it goes to the counter
    cases heq.symm.trans hk
    refine .inl ⟨rfl, ?_, id⟩
    apply h.store h.ok
    · exact hv
    · exact fun _ => hw
    · exact fun _ _ => id
    · exact fun _ _ => rfl
    · intro y hy
      exact Pi.single_eq_of_ne hy 1
    · exact fun _ _ => rfl
    · have hgranted : (s.store x s.kernel
          { s.sem x with value := (s.sem x).value + 1 }).granted x = s.granted x := rfl
      rw [hgranted, Pi.single_eq_same]
      simp only [Pi.zero_apply]
      omega
  · cases heq.symm.trans hk
    exact .inr ⟨nofun, s.store_sem x s.kernel⟩

omit [DecidableEq τ] in
theorem Owing.found (hv : 0 < (s.sem x).value) : Owing v 0 (Pi.single x 1)
      (s.store x s.kernel { s.sem x with value := (s.sem x).value - 1 }) := by
  apply h.store h.ok
  · have := h.bound x
    simp only
    omega
  · exact fun _ => h.empty x hv
  · exact fun _ _ => id
  · exact fun _ _ => rfl
  · exact fun _ _ => rfl
  · intro y hy
    exact Pi.single_eq_of_ne hy 1
  · have hgranted : (s.store x s.kernel
        { s.sem x with value := (s.sem x).value - 1 }).granted x = s.granted x := rfl
    rw [hgranted, Pi.single_eq_same]
    simp only [Pi.zero_apply]
    omega

/-- The current thread is suspended on an empty semaphore. -/
theorem Owing.suspended {flag : IpcFlag} {timed : Bool} (hfree : s.Free)
    (hv : (s.sem x).value = 0) :
    (enter { s with kernel := s.kernel.block x flag timed } (some (.waiting x))).Good v := by
  obtain ⟨hcur, hself, hother, hwait, -⟩ := block_spec x flag timed hfree.1
  refine ⟨h.ok.block hfree.1 rfl flag timed, h.isr, h.bound, ?_, ?_⟩
  · intro y hy
    have hyx : y ≠ x := by
      rintro rfl
      exact absurd hv (Nat.pos_iff_ne_zero.mp hy)
    change (s.kernel.block x flag timed).wait y = []
    rw [hwait y hyx, h.empty y hy]
    rfl
  · intro y
    obtain ⟨hgranted, hgiven⟩ := block_counts x flag timed hfree y
    rw [hgiven, hgranted]
    exact h.balance y

theorem Owing.take {timeout : Int} (hfree : s.Free) {outcome : Outcome}
    (hk : rtSemTake s.kernel (s.sem x) x timeout = some (k, sem, outcome)) :
    (match outcome with
      | .returns .eok => (s.store x k sem).enter (some (.taken x))
      | .returns _ => s.store x k sem
      | .waits => (s.store x k sem).enter (some (.waiting x))).Good v := by
  rcases rtSemTake_cases hk with
    ⟨hv, rfl, rfl, rfl⟩ | ⟨-, -, rfl, rfl, rfl⟩ | ⟨hv, -, rfl, rfl, rfl⟩
  · exact (h.found hv).enter_taken hfree
  · rw [store_sem]
    exact h
  · rw [store_sem]
    exact h.suspended hfree hv

theorem Owing.ret (hrun : s.Running) (hc : s.call s.kernel.current = some c) :
    ((s.enter none).leave c (s.result c)).Good v := by
  refine ⟨h.ok.enter hrun none, h.isr, h.bound, h.empty, ?_⟩
  intro y
  obtain ⟨hgranted, hgiven⟩ := ret_counts hrun hc y
  rw [hgranted, hgiven]
  exact h.balance y

end

section

omit [DecidableEq τ]

theorem isr_counts (s : Sys τ ω) (c : Call ω) (y : ω) :
    granted { s with isr := c :: s.isr } y = s.granted y + (if c = .taken y then 1 else 0) ∧
      given { s with isr := c :: s.isr } y = s.given y + if c = .released y then 1 else 0 := by
  have hgranted : count (Granted { s with isr := c :: s.isr } y) = count (s.Granted y) := rfl
  have hreleasing : count (Releasing { s with isr := c :: s.isr } y) = count (s.Releasing y) := rfl
  unfold granted given
  simp only [count_cons, beq_iff_eq]
  omega

theorem Owing.isr_taken (h : Owing v 0 (Pi.single x 1) s) :
    Good v { s with isr := .taken x :: s.isr } := by
  refine ⟨h.ok, ?_, h.bound, h.empty, ?_⟩
  · intro y hy
    exact h.isr y ((mem_cons.mp hy).resolve_left nofun)
  · intro y
    obtain ⟨hgranted, hgiven⟩ := isr_counts s (.taken x) y
    have hbalance := h.balance y
    rw [hgranted, hgiven]
    simp only [Pi.single_apply, eq_comm, Call.taken.injEq, reduceCtorEq, if_false,
      Pi.zero_apply] at hbalance ⊢
    omega

theorem Owing.isr_released (h : Owing v (Pi.single x 1) 0 s) :
    Good v { s with isr := .released x :: s.isr } := by
  refine ⟨h.ok, ?_, h.bound, h.empty, ?_⟩
  · intro y hy
    exact h.isr y ((mem_cons.mp hy).resolve_left nofun)
  · intro y
    obtain ⟨hgranted, hgiven⟩ := isr_counts s (.released x) y
    have hbalance := h.balance y
    rw [hgranted, hgiven]
    simp only [Pi.single_apply, eq_comm, Call.released.injEq, reduceCtorEq, if_false,
      Pi.zero_apply] at hbalance ⊢
    omega

/-- The innermost interrupt returns from its call. -/
theorem Owing.isrRet (h : s.Good v) {rest : List (Call ω)} (hisr : s.isr = c :: rest) :
    (leave { s with isr := rest } c .eok).Good v := by
  refine ⟨h.ok, ?_, h.bound, h.empty, ?_⟩
  · intro x hx
    exact h.isr x (hisr ▸ mem_cons_of_mem c hx)
  · intro y
    obtain ⟨hgranted, hgiven⟩ := isr_counts { s with isr := rest } c y
    obtain ⟨hgranted', hgiven'⟩ := leave_counts { s with isr := rest } c .eok y
    have hbalance := h.balance y
    have hnot : c ≠ .waiting y := by
      rintro rfl
      exact h.isr y (hisr ▸ mem_cons_self)
    simp only [← hisr] at hgranted hgiven
    rw [hgranted', hgiven']
    simp only [hnot, or_false, true_and]
    rw [hgranted, hgiven] at hbalance
    exact hbalance

end

theorem Owing.step (h : s.Good v) {s' : Sys τ ω} {a : Act τ ω} (hstep : Step s a s') : s'.Good v := by
  cases a with
  | take x timeout =>
    rw [Step, exec] at hstep
    split_ifs at hstep with hfree
    obtain ⟨⟨k, sem, outcome⟩, hk, rfl⟩ := map_eq_some_iff.mp hstep
    exact h.take hfree hk
  | release x =>
    rw [Step, exec] at hstep
    split_ifs at hstep with hfree
    obtain ⟨⟨k, sem, err⟩, hk⟩ : ∃ r, rtSemRelease s.kernel (s.sem x) x = r := ⟨_, rfl⟩
    simp only [hk] at hstep
    cases hstep
    rcases h.release hk with ⟨rfl, hgood, hfree'⟩ | ⟨he, hsame⟩
    · exact hgood.enter_released (hfree' hfree)
    · rw [if_neg he, hsame]
      exact h
  | ret =>
    simp only [Step, exec] at hstep
    split_ifs at hstep with hrun
    obtain ⟨c, hc, rfl⟩ := map_eq_some_iff.mp hstep
    exact h.ret hrun hc
  | isrTake x =>
    obtain ⟨⟨k, sem, outcome⟩, hk, rfl⟩ := map_eq_some_iff.mp hstep
    rcases rtSemTake_cases hk with
      ⟨hv, rfl, rfl, rfl⟩ | ⟨-, -, rfl, rfl, rfl⟩ | ⟨-, ht, -⟩
    · exact (h.found hv).isr_taken
    · simp only [store_sem]
      exact h
    · exact absurd rfl ht
  | isrRelease x =>
    simp only [Step, exec] at hstep
    obtain ⟨⟨k, sem, err⟩, hk⟩ : ∃ r, rtSemRelease s.kernel (s.sem x) x = r := ⟨_, rfl⟩
    simp only [hk] at hstep
    cases hstep
    rcases h.release hk with ⟨rfl, hgood, -⟩ | ⟨he, hsame⟩
    · exact hgood.isr_released
    · rw [if_neg he, hsame]
      exact h
  | isrRet =>
    rw [Step, exec] at hstep
    cases hisr : s.isr with
    | nil =>
      rw [hisr] at hstep
      cases hstep
    | cons c rest =>
      rw [hisr] at hstep
      cases hstep
      exact h.isrRet hisr
  | timeout t =>
    obtain ⟨c, hc, rfl⟩ := map_eq_some_iff.mp hstep
    obtain ⟨k, hk, rfl⟩ := Callers.timeout_cases hc
    refine ⟨h.ok.timeout hk, h.isr, h.bound, ?_, ?_⟩
    · intro y hy
      obtain ⟨-, -, hwait, -⟩ := threadTimeout_spec hk
      simp only [hwait, h.empty y hy]
      rfl
    · intro y
      rw [granted_timeout hk]
      exact h.balance y
  | background b =>
    obtain ⟨c, hc, rfl⟩ := map_eq_some_iff.mp hstep
    obtain ⟨k, hk, rfl⟩ := Callers.background_cases hc
    obtain ⟨hcalm, hok⟩ := h.ok.background hk
    refine ⟨hok, h.isr, h.bound, ?_, ?_⟩
    · intro y hy
      exact (congrFun hcalm.wait y).trans (h.empty y hy)
    · intro y
      rw [granted_calm s.sem hcalm]
      exact h.balance y

omit [DecidableEq τ] in
theorem Initial.good (h : s.Initial v) : s.Good v := by
  refine ⟨.start h.inv h.wait h.call, ?_, ?_, fun x _ => h.wait x, ?_⟩
  · intro x
    rw [h.isr]
    exact not_mem_nil
  · intro x
    rw [h.value]
    exact h.bound x
  · intro x
    have hgranted : count (s.Granted x) = 0 := count_eq_zero fun t => by simp [Granted, h.call]
    have hreleasing : count (s.Releasing x) = 0 := count_eq_zero fun t => by simp [Releasing, h.call]
    simp [given, granted, hgranted, hreleasing, h.isr, h.takes, h.releases, h.value]

theorem reachable_good (h : Reachable (Initial v) Step s) : s.Good v :=
  h.induct (·.good) (·.step)

/-- In every run nobody waits on a semaphore that has tokens, and the tokens given are those left and
those taken. -/
theorem reachable_balance (v : ω → Nat) (s : Sys τ ω) (h : Reachable (Initial v) Step s) (x : ω) :
    (0 < (s.sem x).value → s.kernel.wait x = []) ∧
      v x + s.given x = (s.sem x).value + s.granted x := by
  have hgood := reachable_good h
  exact ⟨hgood.empty x, by simpa using hgood.balance x⟩

end

/-- Thread `0` is the most urgent of three, and the semaphore is empty. -/
def start : Sys (Fin 3) Unit :=
  { kernel := boot (fun t => 10 * t + 10) 0 [1, 2]
    sem := fun _ => { value := 0, flag := .prio }
    call := fun _ => none, isr := [], takes := fun _ => 0, releases := fun _ => 0 }

theorem start_initial : start.Initial fun _ => 0 where
  inv := ⟨_, boot_inv (by decide) 0 [1, 2]⟩
  wait _ := congrFun (boot_wait) _
  value _ := rfl
  bound _ := Nat.zero_le _
  call _ := rfl
  isr := rfl
  takes _ := rfl
  releases _ := rfl

/-- A thread waits, another one gives it a token and is overtaken before its call returns. -/
def overtaken : List (Act (Fin 3) Unit) :=
  [.take () (-1), .background .schedule, .release (), .background .schedule, .ret]

/-- The token of a release that has not returned is in the balance. -/
theorem reachable_balance_overtaken : ∃ s : Sys (Fin 3) Unit,
    s.call 1 = some (.released ()) ∧ 0 + s.given () = (s.sem ()).value + s.granted () := by
  have hrun : ∃ s ∈ runAll exec start overtaken,
      s.call 1 = (some (.released ())) := by decide +kernel
  obtain ⟨s, h, hcall⟩ := Reachable.of_runAll start_initial hrun
  exact ⟨s, hcall, (reachable_balance (fun _ => 0) s h ()).2⟩

/-- A waiter can return with its token before the release that gave it. -/
theorem overtaken_unbalanced : ∃ s : Sys (Fin 3) Unit,
    Reachable (Initial fun _ => 0) Step s ∧
      0 + s.releases () ≠ (s.sem ()).value + s.granted () := by
  have hrun : ∃ s ∈ runAll exec start overtaken, s.releases () = 0 ∧ (s.sem ()).value = 0 ∧
      s.granted () = 1 := by decide +kernel
  obtain ⟨s, hs, hreleases, hvalue, hgranted⟩ := Reachable.of_runAll start_initial hrun
  refine ⟨s, hs, ?_⟩
  rw [hreleases, hvalue, hgranted]
  decide

end Sys

end RtKernel.Sem

import Mathlib.Data.Fin.VecNotation
import RtKernel.Core.Run
import RtKernel.Ipc.Calls

/-!
# Mutexes

A mutex belongs to the thread that took it, which may take it again. The last
release gives it to the first waiter at once. Whoever owns a mutex lends it the
priority of a more urgent thread that waits, and gets its own back with the
release.
-/

open Option

namespace RtKernel.Mutex

open Kernel Function

/-- `RT_MUTEX_VALUE_MAX`, the largest `rt_uint16_t`. -/
def rtMutexValueMax : Nat := 65535

/-- `RT_MUTEX_HOLD_MAX`, the largest `rt_uint8_t`. -/
def rtMutexHoldMax : Nat := 255

/-- `struct rt_mutex`; its suspend list, ordered by priority, is kept with the threads. -/
structure RtMutex (τ : Type*) where
  value : Nat
  originalPriority : Nat
  hold : Nat
  owner : Option τ

variable {τ ω : Type*} [DecidableEq τ] [DecidableEq ω]

/-- `rt_mutex_init`. -/
def rtMutexInit : RtMutex τ := { value := 1, originalPriority := 0xff, hold := 0, owner := none }

/-- The part of `rt_mutex_take` that changes the priority of the owner to that of the current
thread. -/
def lend (k : Kernel τ ω) (owner : τ) : Kernel τ ω :=
  let priority := (k.thread k.current).currentPriority
  if priority < (k.thread owner).currentPriority then k.changePriority owner priority else k

/-- The part of `rt_mutex_release` that changes the owner, the current thread, to its original
priority. -/
def restore (k : Kernel τ ω) (originalPriority : Nat) : Kernel τ ω :=
  if originalPriority ≠ (k.thread k.current).currentPriority then
    k.changePriority k.current originalPriority
  else k

/-- The first part of `rt_mutex_take`; there is no result where an assertion fails or no owner is
found. -/
def rtMutexTake (k : Kernel τ ω) (mutex : RtMutex τ) (x : ω) (timeout : Int) :
    Option (Kernel τ ω × RtMutex τ × Outcome) :=
  if k.schedulerLockNest ≠ 0 then none -- RT_DEBUG_SCHEDULER_AVAILABLE
  else
    let thread := k.current
    let k := setError k .eok
    if mutex.owner = some thread then
      if mutex.hold < rtMutexHoldMax then
        some (k, { mutex with hold := mutex.hold + 1 }, .returns .eok)
      else some (k, mutex, .returns .efull)
    else if 0 < mutex.value then
      let mutex := { mutex with
        value := mutex.value - 1
        owner := some thread
        originalPriority := (k.thread thread).currentPriority }
      if mutex.hold < rtMutexHoldMax then
        some (k, { mutex with hold := mutex.hold + 1 }, .returns .eok)
      else some (k, mutex, .returns .efull)
    else if timeout = 0 then some (setError k .etimeout, mutex, .returns .etimeout)
    else mutex.owner.map fun owner => ((lend k owner).block x .prio (0 < timeout), mutex, .waits)

/-- The locked part of `rt_mutex_release`. -/
def rtMutexRelease (k : Kernel τ ω) (mutex : RtMutex τ) (x : ω) : Kernel τ ω × RtMutex τ × RtErr :=
  let thread := k.current
  if mutex.owner ≠ some thread then (setError k .error, mutex, .error)
  else
    let mutex := { mutex with hold := (mutex.hold + 255) % 256 }
    if mutex.hold = 0 then
      let k := restore k mutex.originalPriority
      match k.wait x with
      | head :: _ =>
          let mutex := { mutex with
            owner := some head, originalPriority := (k.thread head).currentPriority }
          if mutex.hold < rtMutexHoldMax then
            (k.rtThreadResume head, { mutex with hold := mutex.hold + 1 }, .eok)
          else (k, mutex, .efull)
      | [] =>
          if mutex.value < rtMutexValueMax then
            (k, { mutex with
              value := mutex.value + 1, owner := none, originalPriority := 0xff }, .eok)
          else (k, mutex, .efull)
    else (k, mutex, .eok)

/-- A call past its first locked part. -/
inductive Call (ω : Type*)
  /-- `rt_mutex_take`, about to return `RT_EOK`. -/
  | taken (x : ω)
  /-- `rt_mutex_take`, suspended or about to return the error of its thread. -/
  | waiting (x : ω)
  /-- `rt_mutex_release`, about to return `RT_EOK`. -/
  | released (x : ω)
  deriving DecidableEq

/-- The mutex that a call has been suspended on. -/
def waitsOn : Call ω → Option ω
  | .waiting x => some x
  | _ => none

/-- What the current thread or the timer does. -/
inductive Act (τ ω : Type*)
  | take (x : ω) (timeout : Int)
  | release (x : ω)
  /-- The current thread returns from its call. -/
  | ret
  | timeout (t : τ)
  | background (b : Background τ)

/-- The threads and the mutexes, with the calls under way. -/
structure Sys (τ ω : Type*) extends Callers τ ω (Call ω) where
  mutex : ω → RtMutex τ
  /-- How often `rt_mutex_take` has returned `RT_EOK` to each thread. -/
  takes : ω → τ → Nat
  /-- How often `rt_mutex_release` has returned `RT_EOK` to each thread. -/
  releases : ω → τ → Nat
  /-- The priority each thread was created with or was last given on request. -/
  base : τ → Nat

namespace Sys

/-- What the locked part of a call on `x` leaves. -/
def store (s : Sys τ ω) (x : ω) (k : Kernel τ ω) (mutex : RtMutex τ) : Sys τ ω :=
  { s with kernel := k, mutex := update s.mutex x mutex }

/-- The current thread enters or leaves a call. -/
def enter (s : Sys τ ω) (c : Option (Call ω)) : Sys τ ω :=
  { s with toCallers := s.toCallers.enter c }

/-- The current thread returns the error code from a call. -/
def leave (s : Sys τ ω) (c : Call ω) (err : RtErr) : Sys τ ω :=
  { s.enter none with
    takes := fun x t => s.takes x t +
      if err = .eok ∧ t = s.kernel.current ∧ (c = .taken x ∨ c = .waiting x) then 1 else 0
    releases := fun x t => s.releases x t +
      if err = .eok ∧ t = s.kernel.current ∧ c = .released x then 1 else 0 }

/-- What the current thread returns from its call. -/
def result (s : Sys τ ω) : Call ω → RtErr
  | .waiting _ => (s.kernel.thread s.kernel.current).error
  | _ => .eok

/-- A step; there is none where it cannot happen or an assertion fails. -/
def exec (s : Sys τ ω) : Act τ ω → Option (Sys τ ω)
  | .take x timeout =>
      if s.Free then
        (rtMutexTake s.kernel (s.mutex x) x timeout).map fun (k, mutex, outcome) =>
          let s := s.store x k mutex
          match outcome with
          | .returns .eok => s.enter (some (.taken x))
          | .returns _ => s
          | .waits => s.enter (some (.waiting x))
      else none
  | .release x =>
      if s.Free then
        let (k, mutex, err) := rtMutexRelease s.kernel (s.mutex x) x
        let s := s.store x k mutex
        some (if err = .eok then s.enter (some (.released x)) else s)
      else none
  | .ret =>
      -- the idle thread never waits, so `rt_schedule` comes back only to a thread that runs
      if s.Running then (s.call s.kernel.current).map fun c => s.leave c (s.result c) else none
  | .timeout t => (s.toCallers.timeout t).map fun c => { s with toCallers := c }
  | .background b =>
      (s.toCallers.background b).map fun c =>
        let base := match b with
          | .changePriority t priority => update s.base t priority
          | _ => s.base
        { s with toCallers := c, base := base }

def Step (s : Sys τ ω) (a : Act τ ω) (s' : Sys τ ω) : Prop := s.exec a = some s'

/-- Nothing has been taken, and every thread has its own priority. -/
structure Initial (s : Sys τ ω) : Prop where
  inv : ∃ started, s.kernel.Inv started
  wait : ∀ x, s.kernel.wait x = []
  mutex : ∀ x, s.mutex x = rtMutexInit
  call : ∀ t, s.call t = none
  takes : ∀ x t, s.takes x t = 0
  releases : ∀ x t, s.releases x t = 0
  base : ∀ t, s.base t = (s.kernel.thread t).currentPriority

/-- The thread has been given the mutex and is about to return `RT_EOK`: it has found it free or its
own, or has been resumed by a release. -/
def Granted (s : Sys τ ω) (x : ω) (t : τ) : Prop :=
  s.call t = some (.taken x) ∨
    s.call t = some (.waiting x) ∧ (s.kernel.thread t).stat ≠ .suspend ∧
      (s.kernel.thread t).error = .eok

/-- The thread is about to return `RT_EOK` from a release. -/
def Releasing (s : Sys τ ω) (x : ω) (t : τ) : Prop := s.call t = some (.released x)

instance (s : Sys τ ω) (x : ω) : DecidablePred (s.Granted x) := fun _ =>
  inferInstanceAs (Decidable (_ ∨ _))

instance (s : Sys τ ω) (x : ω) : DecidablePred (s.Releasing x) := fun _ =>
  inferInstanceAs (Decidable (_ = _))

/-- The successful takes of a thread. -/
def granted (s : Sys τ ω) (x : ω) (t : τ) : Nat :=
  s.takes x t + if s.Granted x t then 1 else 0

/-- The successful releases of a thread. -/
def given (s : Sys τ ω) (x : ω) (t : τ) : Nat :=
  s.releases x t + if s.Releasing x t then 1 else 0

end Sys

/-- The mutex is free, or it has an owner. -/
def RtMutex.Ok (m : RtMutex τ) : Prop :=
  m.value = 1 ∧ m.owner = none ∧ m.hold = 0 ∨
    m.value = 0 ∧ m.owner ≠ none ∧ 0 < m.hold ∧ m.hold ≤ rtMutexHoldMax ∧ m.originalPriority < 32

/-- How often the mutex is held by a thread. -/
def RtMutex.holdOf (m : RtMutex τ) (t : τ) : Nat := if m.owner = some t then m.hold else 0

/-- The invariant of a run. -/
structure Sys.Good (s : Sys τ ω) : Prop where
  ok : s.Ok waitsOn
  mutex : ∀ x, (s.mutex x).Ok
  /-- Nobody waits for a free mutex. -/
  wait : ∀ x, (s.mutex x).owner = none → s.kernel.wait x = []
  /-- Who is about to return `RT_EOK` is the owner. -/
  owner : ∀ x t, s.Granted x t → (s.mutex x).owner = some t
  balance : ∀ x t, s.granted x t = s.given x t + (s.mutex x).holdOf t

variable {x : ω}

/-- A take is one more of the owner, finds the mutex free, is refused, or waits for the owner. -/
theorem rtMutexTake_cases {k k' : Kernel τ ω} {m m' : RtMutex τ} (hm : m.Ok) {timeout : Int}
    {outcome : Outcome} (h : rtMutexTake k m x timeout = some (k', m', outcome)) :
    (m.owner = some k.current ∧ k' = setError k .eok ∧ m.hold < rtMutexHoldMax ∧
      m' = { m with hold := m.hold + 1 } ∧ outcome = .returns .eok) ∨
    (m.owner = none ∧ k' = setError k .eok ∧
      m' = { value := 0, originalPriority := (k.thread k.current).currentPriority, hold := 1
             owner := some k.current } ∧ outcome = .returns .eok) ∨
    (∃ err, (m.owner = some k.current ∨ timeout = 0) ∧ m' = m ∧ outcome = .returns err ∧
      err ≠ .eok ∧ (k' = setError k .eok ∨ k' = setError (setError k .eok) .etimeout)) ∨
    ∃ owner, m.owner = some owner ∧ owner ≠ k.current ∧ timeout ≠ 0 ∧ m' = m ∧
      k' = (lend (setError k .eok) owner).block x .prio (0 < timeout) ∧ outcome = .waits := by
  unfold rtMutexTake at h
  simp only [] at h
  split_ifs at h with hlock hown hhold hvalue hhold' ht
  · cases h
    exact .inl ⟨hown, rfl, hhold, rfl, rfl⟩
  · cases h
    exact .inr (.inr (.inl ⟨.efull, .inl hown, rfl, rfl, nofun, .inl rfl⟩))
  · cases h
    rcases hm with ⟨hv, ho, hh⟩ | ⟨hv, -⟩
    · refine .inr (.inl ⟨ho, rfl, ?_, rfl⟩)
      simp [hv, hh, setError]
    · omega
  · rcases hm with ⟨hv, ho, hh⟩ | ⟨hv, -⟩
    · rw [hh] at hhold'
      exact absurd (by decide) hhold'
    · omega
  · cases h
    exact .inr (.inr (.inl ⟨.etimeout, .inr ht, rfl, rfl, nofun, .inr rfl⟩))
  · obtain ⟨owner, ho, heq⟩ := map_eq_some_iff.mp h
    cases heq
    refine .inr (.inr (.inr ⟨owner, ho, ?_, ht, rfl, rfl, rfl⟩))
    rintro rfl
    exact hown ho

variable {k : Kernel τ ω} {m : RtMutex τ}

omit [DecidableEq ω] in
/-- A release is refused, is one of several, gives the mutex to the first waiter, or frees it. -/
theorem rtMutexRelease_cases (hm : m.Ok) (x : ω) :
    (m.owner ≠ some k.current ∧ rtMutexRelease k m x = (setError k .error, m, .error)) ∨
    (m.owner = some k.current ∧ 1 < m.hold ∧
      rtMutexRelease k m x = (k, { m with hold := m.hold - 1 }, .eok)) ∨
    (∃ t rest, m.owner = some k.current ∧ m.hold = 1 ∧
      (restore k m.originalPriority).wait x = t :: rest ∧
      rtMutexRelease k m x = ((restore k m.originalPriority).rtThreadResume t,
        { value := 0
          originalPriority := ((restore k m.originalPriority).thread t).currentPriority
          hold := 1, owner := some t }, .eok)) ∨
    (m.owner = some k.current ∧ m.hold = 1 ∧ (restore k m.originalPriority).wait x = [] ∧
      rtMutexRelease k m x = (restore k m.originalPriority, rtMutexInit, .eok)) := by
  by_cases hown : m.owner = some k.current
  · right
    rcases hm with ⟨-, ho, -⟩ | ⟨hv, -, hpos, hmax, -⟩
    · rw [ho] at hown
      cases hown
    · have hdec : (m.hold + 255) % 256 = m.hold - 1 := by
        unfold rtMutexHoldMax at hmax
        omega
      by_cases hone : m.hold = 1
      · right
        unfold rtMutexRelease
        simp only [hown, ne_eq, not_true_eq_false, if_false, hone, Nat.reduceAdd, Nat.reduceMod,
          if_true]
        generalize restore k m.originalPriority = k₁
        cases hw : k₁.wait x with
        | nil => exact .inr ⟨trivial, trivial, rfl, by simp [hv, rtMutexInit, rtMutexValueMax]⟩
        | cons t rest => exact .inl ⟨t, rest, trivial, trivial, rfl, by simp [hv, rtMutexHoldMax]⟩
      · left
        refine ⟨hown, by omega, ?_⟩
        have hnz : m.hold - 1 ≠ 0 := by omega
        unfold rtMutexRelease
        simp only [hown, ne_eq, not_true_eq_false, if_false, hdec, hnz]
  · left
    refine ⟨hown, ?_⟩
    unfold rtMutexRelease
    rw [if_pos hown]

variable {c : Call ω}

omit [DecidableEq ω] in
theorem waitsOn_eq_some (h : waitsOn c = some x) : c = .waiting x := by
  cases c with
  | waiting y =>
    cases h
    rfl
  | _ => cases h

namespace Sys

omit [DecidableEq ω] in
@[simp] theorem enter_call_self (s : Sys τ ω) (c) : (s.enter c).call s.kernel.current = c :=
  s.toCallers.enter_call_self c
omit [DecidableEq ω] in
theorem enter_call_of_ne (s : Sys τ ω) (c) {t : τ} (h : t ≠ s.kernel.current) :
    (s.enter c).call t = s.call t := s.toCallers.enter_call_of_ne c h
omit [DecidableEq τ] in
@[simp] theorem store_mutex_self (s : Sys τ ω) (x : ω) (k) (m) : (s.store x k m).mutex x = m :=
  update_self ..
omit [DecidableEq τ] in
theorem store_mutex_of_ne (s : Sys τ ω) {x y : ω} (k) (m) (h : y ≠ x) :
    (s.store x k m).mutex y = s.mutex y := update_of_ne h ..
omit [DecidableEq τ] in
theorem store_mutex (s : Sys τ ω) (x : ω) (k) : s.store x k (s.mutex x) = { s with kernel := k } := by
  unfold store
  rw [update_eq_self]

variable {s s' : Sys τ ω} {a : Act τ ω}

section

omit [DecidableEq τ] [DecidableEq ω]

/-- Whether a thread has been given a mutex depends on the call, the state and the error. -/
theorem granted_iff {t : τ} (hc : s'.call t = s.call t)
    (hs : (s'.kernel.thread t).stat = .suspend ↔ (s.kernel.thread t).stat = .suspend)
    (he : (s'.kernel.thread t).error = (s.kernel.thread t).error) (x : ω) :
    s'.Granted x t ↔ s.Granted x t := by
  unfold Granted
  rw [hc, ne_eq, hs, he]

theorem free_not (h : s.Free) (x : ω) :
    ¬ s.Granted x s.kernel.current ∧ ¬ s.Releasing x s.kernel.current := by
  unfold Granted Releasing
  rw [Callers.Free.call_eq h]
  simp

end

section

variable (hfree : s.Free) (hcur : k.current = s.kernel.current)
  (hc : ∀ y, c ≠ .waiting y) (x : ω) (m : RtMutex τ) {t : τ} (hother : t ≠ s.kernel.current →
    ((k.thread t).stat = .suspend ↔ (s.kernel.thread t).stat = .suspend) ∧
      (k.thread t).error = (s.kernel.thread t).error) (y : ω)
include hfree hcur hc hother

/-- A free thread enters a call that does not wait. -/
theorem enter_iff :
    (((s.store x k m).enter (some c)).Granted y t ↔
        s.Granted y t ∨ t = s.kernel.current ∧ c = .taken y) ∧
      (((s.store x k m).enter (some c)).Releasing y t ↔
        s.Releasing y t ∨ t = s.kernel.current ∧ c = .released y) := by
  by_cases ht : t = s.kernel.current
  · obtain ⟨hgranted, hreleasing⟩ := free_not hfree y
    have hcall : ((s.store x k m).enter (some c)).call t = some c := by
      rw [ht, ← hcur]
      exact (s.store x k m).enter_call_self (some c)
    rw [← ht] at hgranted hreleasing
    rw [or_iff_right hgranted, or_iff_right hreleasing]
    unfold Granted Releasing
    rw [hcall]
    simp [hc, ht]
  · have hcall : ((s.store x k m).enter (some c)).call t = s.call t :=
      (s.store x k m).enter_call_of_ne (some c) fun he => ht (he.trans hcur)
    refine ⟨?_, ?_⟩
    · rw [granted_iff hcall (hother ht).1 (hother ht).2]
      simp [ht]
    · unfold Releasing
      rw [hcall]
      simp [ht]

/-- What a free thread counts when it enters a call that does not wait. -/
theorem enter_counts :
    ((s.store x k m).enter (some c)).granted y t =
        s.granted y t + (if t = s.kernel.current ∧ c = .taken y then 1 else 0) ∧
      ((s.store x k m).enter (some c)).given y t =
        s.given y t + if t = s.kernel.current ∧ c = .released y then 1 else 0 := by
  obtain ⟨hgranted, hreleasing⟩ := enter_iff hfree hcur hc x m hother y
  have htakes : ((s.store x k m).enter (some c)).takes = s.takes := rfl
  have hreleases : ((s.store x k m).enter (some c)).releases = s.releases := rfl
  simp only [granted, given, hgranted, hreleasing, htakes, hreleases]
  by_cases ht : t = s.kernel.current
  · subst ht
    obtain ⟨hg, hr⟩ := free_not hfree y
    simp only [hg, hr, true_and, false_or, if_false, Nat.add_zero, and_self]
  · simp only [ht, false_and, or_false, if_false, Nat.add_zero, and_self]

end

namespace Good

/-- The locked part of a call on `x` keeps the invariant if it does so at `x`. -/
theorem locked (h : s.Good) (hok : (s.store x k m |>.enter (some c)).Ok waitsOn) (hm : m.Ok)
    (hwait : m.owner = none → k.wait x = [])
    (hempty : ∀ y ≠ x, s.kernel.wait y = [] → k.wait y = [])
    (hothers : ∀ y ≠ x, ∀ t, ((s.store x k m |>.enter (some c)).Granted y t ↔ s.Granted y t) ∧
      ((s.store x k m |>.enter (some c)).Releasing y t ↔ s.Releasing y t))
    (howner : ∀ t, (s.store x k m |>.enter (some c)).Granted x t → m.owner = some t)
    (hbalance : ∀ t, (s.store x k m |>.enter (some c)).granted x t =
      (s.store x k m |>.enter (some c)).given x t + m.holdOf t) :
    (s.store x k m |>.enter (some c)).Good := by
  have hself : (s.store x k m |>.enter (some c)).mutex x = m := s.store_mutex_self x k m
  have hne : ∀ y ≠ x, (s.store x k m |>.enter (some c)).mutex y = s.mutex y := fun y hy =>
    s.store_mutex_of_ne k m hy
  refine ⟨hok, ?_, ?_, ?_, ?_⟩
  · intro y
    by_cases hy : y = x
    · rw [hy, hself]
      exact hm
    · rw [hne y hy]
      exact h.mutex y
  · intro y
    by_cases hy : y = x
    · rw [hy, hself]
      exact hwait
    · rw [hne y hy]
      exact fun ho => hempty y hy (h.wait y ho)
  · intro y t
    by_cases hy : y = x
    · rw [hy, hself]
      exact howner t
    · rw [hne y hy, (hothers y hy t).1]
      exact h.owner y t
  · intro y t
    by_cases hy : y = x
    · rw [hy, hself]
      exact hbalance t
    · have hold := h.balance y t
      rw [hne y hy]
      simp only [granted, given, (hothers y hy t).1, (hothers y hy t).2] at hold ⊢
      exact hold

section

omit [DecidableEq ω]

variable {c : Callers τ ω (Call ω)} {priority : Nat}

theorem change_facts (h : c.Ok waitsOn) (hfree : c.Free) (t : τ)
    (hp : priority < 32) (q : Prop) [Decidable q]
    (hk : k = if q then c.kernel.changePriority t priority else c.kernel) :
    k.current = c.kernel.current ∧ Callers.Ok waitsOn { c with kernel := k } ∧
      Callers.Free { c with kernel := k } ∧ c.kernel.Calm k := by
  subst hk
  split_ifs
  · exact ⟨changePriority_current .., h.changePriority t hp, h.free_changePriority hfree t priority,
      calm_changePriority h.waits.onlySuspended t priority⟩
  · exact ⟨rfl, h, hfree, .refl _⟩

theorem lend_facts (h : c.Ok waitsOn) (hfree : c.Free) (owner : τ) :
    (lend c.kernel owner).current = c.kernel.current ∧
      Callers.Ok waitsOn { c with kernel := lend c.kernel owner } ∧
      Callers.Free { c with kernel := lend c.kernel owner } ∧ c.kernel.Calm (lend c.kernel owner) := by
  obtain ⟨started, hinv⟩ := h.inv
  exact change_facts h hfree owner (hinv.queues.priority _) _ rfl

theorem restore_facts (h : c.Ok waitsOn) (hfree : c.Free) (hp : priority < 32) :
    (restore c.kernel priority).current = c.kernel.current ∧
      Callers.Ok waitsOn { c with kernel := restore c.kernel priority } ∧
      Callers.Free { c with kernel := restore c.kernel priority } ∧
      c.kernel.Calm (restore c.kernel priority) :=
  change_facts h hfree c.kernel.current hp _ rfl

end

section

variable (h : s.Good)
include h

/-- Setting the error of the current thread, which runs. -/
theorem setError_facts (hfree : s.Free) (err : RtErr) :
    (setError s.kernel err).current = s.kernel.current ∧
      (setError s.kernel err).wait = s.kernel.wait ∧
      Callers.Ok waitsOn { s.toCallers with kernel := setError s.kernel err } ∧
      Callers.Free { s.toCallers with kernel := setError s.kernel err } ∧
      ∀ t ≠ s.kernel.current,
        (setError s.kernel err).thread t = s.kernel.thread t := by
  refine ⟨rfl, rfl, ?_, ⟨?_, hfree.2⟩, ?_⟩
  · exact h.ok.touch hfree.1 (fun _ => rfl) (fun _ => rfl) fun _ => rfl
  · unfold Callers.Running setError
    rw [setThread_current, setThread_self]
    exact hfree.1
  · intro t ht
    exact setThread_of_ne ht

/-- The current thread takes a mutex that is free or its own. -/
theorem taken (hfree : s.Free) (hm : m.Ok) (howner : m.owner = some s.kernel.current)
    (hothers : ∀ t ≠ s.kernel.current, (s.mutex x).owner ≠ some t)
    (hhold : m.hold = (s.mutex x).holdOf s.kernel.current + 1) :
    ((s.store x (setError s.kernel .eok) m).enter (some (.taken x))).Good := by
  obtain ⟨hcur, hwait, hok, hfree', hthread⟩ := h.setError_facts hfree .eok
  have hother : ∀ t ≠ s.kernel.current,
      (((setError s.kernel .eok).thread t).stat = .suspend ↔ (s.kernel.thread t).stat = .suspend) ∧
        ((setError s.kernel .eok).thread t).error = (s.kernel.thread t).error := by
    intro t ht
    rw [hthread t ht]
    exact ⟨Iff.rfl, rfl⟩
  apply h.locked (hok.enter hfree'.1 _) hm
  · intro ho
    rw [howner] at ho
    cases ho
  · exact fun _ _ => id
  · intro y hy t
    obtain ⟨hgranted, hreleasing⟩ := enter_iff hfree hcur (c := .taken x) nofun x m (hother t) y
    rw [hgranted, hreleasing]
    simp [hy.symm]
  · intro t hg
    rcases (enter_iff hfree hcur (c := .taken x) nofun x m (hother t) x).1.mp hg with hg | ⟨rfl, -⟩
    · by_cases ht : t = s.kernel.current
      · exact ht ▸ howner
      · exact absurd (h.owner x t hg) (hothers t ht)
    · exact howner
  · intro t
    obtain ⟨hgranted, hgiven⟩ := enter_counts hfree hcur (c := .taken x) nofun x m (hother t) x
    have hold := h.balance x t
    rw [hgranted, hgiven]
    by_cases ht : t = s.kernel.current
    · subst ht
      have hhold' : m.holdOf s.kernel.current = m.hold := if_pos howner
      simp only [and_self, if_true, reduceCtorEq, and_false, if_false]
      omega
    · have hbefore : (s.mutex x).holdOf t = 0 := if_neg (hothers t ht)
      have hafter : m.holdOf t = 0 := by
        apply if_neg
        rw [howner]
        exact fun he => ht (some.inj he).symm
      simp only [ht, false_and, if_false]
      omega

/-- A kernel in which nobody is given a mutex and nobody leaves the list of a free one. -/
theorem kernel {base : τ → Nat} (hok : Callers.Ok waitsOn { s.toCallers with kernel := k })
    (hempty : ∀ x, s.kernel.wait x = [] → k.wait x = [])
    (hgranted : ∀ x t, Granted { s with kernel := k, base := base } x t ↔ s.Granted x t) :
    Good { s with kernel := k, base := base } := by
  refine ⟨hok, h.mutex, fun x ho => hempty x (h.wait x ho), ?_, ?_⟩
  · intro x t
    rw [hgranted]
    exact h.owner x t
  · intro x t
    have hold := h.balance x t
    simp only [granted, hgranted] at hold ⊢
    exact hold

section

variable (hfree : s.Free)
include hfree

/-- A call that is refused changes the error of the current thread at most. -/
theorem refused (err : RtErr) : Good { s with kernel := setError s.kernel err } ∧
      Callers.Free { s.toCallers with kernel := setError s.kernel err } := by
  obtain ⟨hcur, hwait, hok, hfree', hthread⟩ := h.setError_facts hfree err
  have hgranted : ∀ x t, Granted { s with kernel := setError s.kernel err } x t ↔ s.Granted x t := by
    intro x t
    by_cases ht : t = s.kernel.current
    · subst ht
      exact iff_of_false (free_not (s := { s with kernel := setError s.kernel err }) hfree' x).1
        (free_not hfree x).1
    · apply granted_iff
      · rfl
      · simp only [hthread t ht]
      · simp only [hthread t ht]
  exact ⟨h.kernel hok (fun _ => id) hgranted, hfree'⟩

/-- The current thread is suspended on a mutex that has another owner. -/
theorem blocked {owner : τ} (howner : (s.mutex x).owner = some owner) {timed : Bool} :
    (s.store x ((lend (setError s.kernel .eok) owner).block x .prio timed) (s.mutex x) |>.enter
      (some (.waiting x))).Good := by
  obtain ⟨hcur₁, hwait₁, hok₁, hfree₁, hthread₁⟩ := h.setError_facts hfree .eok
  obtain ⟨hcur₂, hok₂, hfree₂, hcalm⟩ := lend_facts hok₁ hfree₁ owner
  generalize hk₂ : lend (setError s.kernel .eok) owner = k₂ at hcur₂ hok₂ hfree₂ hcalm ⊢
  obtain ⟨hcur, hself, hother, hwait, -⟩ :=
    block_spec x .prio timed hfree₂.1
  rw [store_mutex]
  have hsuspend := hcalm.suspended
  have herror := hcalm.error
  rw [hcur₁] at hcur₂
  rw [hcur₂] at hself hother hwait
  have hothers : ∀ t ≠ s.kernel.current,
      (((k₂.block x .prio timed).thread t).stat = .suspend ↔ (s.kernel.thread t).stat = .suspend) ∧
        ((k₂.block x .prio timed).thread t).error = (s.kernel.thread t).error := by
    intro t ht
    rw [hother t ht, hsuspend, herror, hthread₁ t ht]
    exact ⟨Iff.rfl, rfl⟩
  obtain ⟨s', hs'⟩ : ∃ s', s' = enter { s with kernel := k₂.block x .prio timed }
    (some (.waiting x)) := ⟨_, rfl⟩
  have hcall : s'.call s.kernel.current = some (.waiting x) := by
    rw [hs', ← hcur₂, ← hcur]
    exact enter_call_self _ _
  have hcall' : ∀ t ≠ s.kernel.current, s'.call t = s.call t := by
    intro t ht
    rw [hs', enter_call_of_ne _ _ fun he => ht (he.trans (hcur.trans hcur₂))]
  have hkernel : s'.kernel = k₂.block x .prio timed := by rw [hs']; rfl
  have hgranted : ∀ y t, s'.Granted y t ↔ s.Granted y t := by
    intro y t
    by_cases ht : t = s.kernel.current
    · subst ht
      apply iff_of_false _ (free_not hfree y).1
      unfold Granted
      rw [hcall, hkernel, hself]
      simp
    · apply granted_iff (hcall' t ht)
      · rw [hkernel]
        exact (hothers t ht).1
      · rw [hkernel]
        exact (hothers t ht).2
  have hreleasing : ∀ y t, s'.Releasing y t ↔ s.Releasing y t := by
    intro y t
    by_cases ht : t = s.kernel.current
    · subst ht
      apply iff_of_false _ (free_not hfree y).2
      unfold Releasing
      rw [hcall]
      nofun
    · unfold Releasing
      rw [hcall' t ht]
  have hok : s'.Ok waitsOn := hs' ▸ hok₂.block hfree₂.1 rfl .prio timed
  have hmutex : s'.mutex = s.mutex := hs' ▸ rfl
  rw [← hs']
  refine ⟨hok, fun y => hmutex ▸ h.mutex y, ?_, ?_, ?_⟩
  · intro y ho
    rw [hmutex] at ho
    have hy : y ≠ x := by
      rintro rfl
      cases howner.symm.trans ho
    rw [hkernel, hwait y hy, hcalm.wait]
    exact congrArg (rtListRemove · _) (h.wait y ho)
  · intro y t hg
    rw [hmutex]
    exact h.owner y t ((hgranted y t).mp hg)
  · intro y t
    have hold := h.balance y t
    have htakes : s'.takes = s.takes := hs' ▸ rfl
    have hreleases : s'.releases = s.releases := hs' ▸ rfl
    simp only [granted, given, hgranted, hreleasing, hmutex, htakes, hreleases] at hold ⊢
    exact hold

/-- The current thread gives back one take of its own. -/
theorem returned (howner : (s.mutex x).owner = some s.kernel.current)
    (hcur : k.current = s.kernel.current)
    (hok : Callers.Ok waitsOn { s.toCallers with kernel := k })
    (hfree' : Callers.Free { s.toCallers with kernel := k }) (hcalm : s.kernel.Calm k)
    {m : RtMutex τ} (hm : m.Ok) (hwait : m.owner = none → k.wait x = [])
    (hself : m.holdOf s.kernel.current + 1 = (s.mutex x).hold)
    (hothers : ∀ t ≠ s.kernel.current, m.holdOf t = 0) :
    (s.store x k m |>.enter (some (.released x))).Good := by
  have hother : ∀ t, t ≠ s.kernel.current →
      ((k.thread t).stat = .suspend ↔ (s.kernel.thread t).stat = .suspend) ∧
        (k.thread t).error = (s.kernel.thread t).error := fun t _ =>
    ⟨hcalm.suspended t, hcalm.error t⟩
  apply h.locked (hok.enter hfree'.1 _) hm hwait
  · intro y _ hy
    rw [hcalm.wait]
    exact hy
  · intro y hy t
    obtain ⟨hgranted, hreleasing⟩ := enter_iff hfree hcur (c := .released x) nofun x m (hother t) y
    rw [hgranted, hreleasing]
    simp [hy.symm]
  · intro t hg
    rcases (enter_iff hfree hcur (c := .released x) nofun x m (hother t) x).1.mp hg with hg | ⟨-, hc⟩
    · have ht := some.inj ((h.owner x t hg).symm.trans howner)
      exact absurd hg (ht ▸ (free_not hfree x).1)
    · cases hc
  · intro t
    obtain ⟨hgranted, hgiven⟩ := enter_counts hfree hcur (c := .released x) nofun x m (hother t) x
    have hold := h.balance x t
    rw [hgranted, hgiven]
    by_cases ht : t = s.kernel.current
    · subst ht
      have hbefore : (s.mutex x).holdOf s.kernel.current = (s.mutex x).hold := if_pos howner
      simp only [reduceCtorEq, and_false, if_false, and_self, if_true]
      omega
    · have hbefore : (s.mutex x).holdOf t = 0 := by
        apply if_neg
        rw [howner]
        exact fun he => ht (some.inj he).symm
      have hafter := hothers t ht
      simp only [ht, false_and, if_false]
      omega

/-- The last release hands the mutex to the first waiter. -/
theorem handed (howner : (s.mutex x).owner = some s.kernel.current) (hhold : (s.mutex x).hold = 1)
    (hcur : k.current = s.kernel.current)
    (hok : Callers.Ok waitsOn { s.toCallers with kernel := k })
    (hfree' : Callers.Free { s.toCallers with kernel := k }) (hcalm : s.kernel.Calm k) {t : τ}
    {rest : List τ} (hwait : k.wait x = t :: rest) {priority : Nat} (hp : priority < 32) :
    (s.store x (k.rtThreadResume t)
      { value := 0, originalPriority := priority, hold := 1, owner := some t } |>.enter
        (some (.released x))).Good := by
  obtain ⟨hs, he, c, hcall, hc⟩ := hok.head hwait
  cases waitsOn_eq_some hc
  have hne : t ≠ s.kernel.current := by
    rintro rfl
    rw [Callers.Free.call_eq hfree] at hcall
    cases hcall
  have hresume : k.rtThreadResume t = k.resume t := if_pos hs
  rw [hresume]
  have hcur' : (k.resume t).current = s.kernel.current := by rw [resume_current, hcur]
  have hother : ∀ z ≠ t, z ≠ s.kernel.current →
      (((k.resume t).thread z).stat = .suspend ↔ (s.kernel.thread z).stat = .suspend) ∧
        ((k.resume t).thread z).error = (s.kernel.thread z).error := by
    intro z hz _
    rw [resume_of_ne hz]
    exact ⟨hcalm.suspended z, hcalm.error z⟩
  obtain ⟨m, hm⟩ : ∃ m : RtMutex τ,
    m = { value := 0, originalPriority := priority, hold := 1, owner := some t } := ⟨_, rfl⟩
  rw [← hm]
  have hcallt : (s.store x (k.resume t) m |>.enter (some (.released x))).call t =
      some (.waiting x) := by
    rw [enter_call_of_ne _ _ fun he => hne (he.trans hcur')]
    exact hcall
  have hbefore : ∀ y, ¬ s.Granted y t := by
    rintro y (hg | hg)
    · cases hcall.symm.trans hg
    · exact hg.2.1 ((hcalm.suspended t).mp hs)
  have hafter : ∀ y, (s.store x (k.resume t) m |>.enter (some (.released x))).Granted y t ↔
      y = x := by
    intro y
    unfold Granted
    rw [hcallt]
    change _ ∨ _ ∧ ((k.resume t).thread t).stat ≠ _ ∧ ((k.resume t).thread t).error = _ ↔ _
    rw [resume_self, he]
    split_ifs <;> simp [eq_comm]
  have hrelease : ∀ y, ¬ (s.store x (k.resume t) m |>.enter (some (.released x))).Releasing y t ∧
      ¬ s.Releasing y t := by
    intro y
    unfold Releasing
    rw [hcallt, hcall]
    simp
  apply h.locked ((hok.resume hs).enter (hfree'.resume hs).1 _)
  · rw [hm]
    exact .inr ⟨rfl, nofun, Nat.one_pos, by simp [rtMutexHoldMax], hp⟩
  · rw [hm]
    nofun
  · intro y _ hy
    rw [resume_wait, hcalm.wait]
    exact congrArg (rtListRemove · t) hy
  · intro y hy z
    by_cases hz : z = t
    · subst hz
      exact ⟨iff_of_false (mt (hafter y).mp hy) (hbefore y),
        iff_of_false (hrelease y).1 (hrelease y).2⟩
    · obtain ⟨hgranted, hreleasing⟩ :=
        enter_iff hfree hcur' (c := .released x) nofun x m (hother z hz) y
      rw [hgranted, hreleasing]
      simp [hy.symm]
  · intro z hg
    by_cases hz : z = t
    · rw [hm, hz]
    · rcases (enter_iff hfree hcur' (c := .released x) nofun x m (hother z hz) x).1.mp hg with
        hg | ⟨-, hc⟩
      · have hzc := some.inj ((h.owner x z hg).symm.trans howner)
        exact absurd hg (hzc ▸ (free_not hfree x).1)
      · cases hc
  · intro z
    have hold := h.balance x z
    by_cases hz : z = t
    · subst hz
      have hholdt : (s.mutex x).holdOf z = 0 := by
        apply if_neg
        rw [howner]
        exact fun he => hne (some.inj he).symm
      have hholdt' : m.holdOf z = 1 := by rw [hm]; exact if_pos rfl
      simp only [granted, given, hbefore x, hrelease x, hafter x, hholdt, hholdt', if_true,
        if_false] at hold ⊢
      change s.takes x z + 1 = s.releases x z + 0 + 1
      omega
    · obtain ⟨hgranted, hgiven⟩ :=
        enter_counts hfree hcur' (c := .released x) nofun x m (hother z hz) x
      have hholdz : m.holdOf z = 0 := by
        rw [hm]
        exact if_neg fun he => hz (some.inj he).symm
      rw [hgranted, hgiven, hholdz]
      by_cases hzc : z = s.kernel.current
      · subst hzc
        have hholdc : (s.mutex x).holdOf s.kernel.current = 1 := (if_pos howner).trans hhold
        simp only [reduceCtorEq, and_false, if_false, and_self, if_true]
        omega
      · have hholdc : (s.mutex x).holdOf z = 0 := by
          apply if_neg
          rw [howner]
          exact fun he => hzc (some.inj he).symm
        simp only [hzc, false_and, if_false]
        omega

theorem take {timeout : Int}
    {outcome : Outcome} (hk : rtMutexTake s.kernel (s.mutex x) x timeout = some (k, m, outcome)) :
    (match outcome with
      | .returns .eok => (s.store x k m).enter (some (.taken x))
      | .returns _ => s.store x k m
      | .waits => (s.store x k m).enter (some (.waiting x))).Good := by
  have hm := h.mutex x
  rcases rtMutexTake_cases hm hk with ⟨howner, rfl, hhold, rfl, rfl⟩ | ⟨howner, rfl, rfl, rfl⟩ |
    ⟨err, -, rfl, rfl, herr, hk'⟩ | ⟨owner, howner, -, -, rfl, rfl, rfl⟩
  · refine h.taken hfree (m := { s.mutex x with hold := (s.mutex x).hold + 1 }) ?_ howner ?_ ?_
    · rcases hm with ⟨-, ho, -⟩ | ⟨hv, ho, -, -, hp⟩
      · cases howner.symm.trans ho
      · exact .inr ⟨hv, ho, Nat.succ_pos _, hhold, hp⟩
    · intro t ht he
      exact ht (some.inj (howner.symm.trans he)).symm
    · rw [RtMutex.holdOf, if_pos howner]
  · obtain ⟨started, hinv⟩ := h.ok.inv
    apply h.taken hfree _ rfl
    · intro t _ he
      cases howner.symm.trans he
    · simp [RtMutex.holdOf, howner]
    · exact .inr ⟨rfl, nofun, Nat.one_pos, by simp [rtMutexHoldMax], hinv.queues.priority _⟩
  · have hgood : (s.store x k (s.mutex x)).Good := by
      rw [store_mutex]
      obtain ⟨hgood, hfree'⟩ := h.refused hfree .eok
      rcases hk' with rfl | rfl
      · exact hgood
      · exact (hgood.refused hfree' .etimeout).1
    cases err with
    | eok => exact absurd rfl herr
    | _ => exact hgood
  · exact h.blocked hfree howner

theorem release {err : RtErr} (hk : rtMutexRelease s.kernel (s.mutex x) x = (k, m, err)) :
    (if err = .eok then (s.store x k m).enter (some (.released x)) else s.store x k m).Good := by
  have hm := h.mutex x
  have hp : (s.mutex x).owner ≠ none → (s.mutex x).originalPriority < 32 := by
    intro ho
    rcases hm with ⟨-, ho', -⟩ | ⟨-, -, -, -, hp⟩
    · exact absurd ho' ho
    · exact hp
  rcases rtMutexRelease_cases hm x with ⟨-, heq⟩ | ⟨howner, hhold, heq⟩ |
    ⟨t, rest, howner, hhold, hwait, heq⟩ | ⟨howner, hhold, hwait, heq⟩
  · cases heq.symm.trans hk
    rw [if_neg nofun, store_mutex]
    exact (h.refused hfree .error).1
  · cases heq.symm.trans hk
    apply h.returned hfree howner rfl h.ok hfree (.refl _)
    · rcases hm with ⟨-, ho, -⟩ | ⟨hv, ho, -, hmax, hp⟩
      · cases howner.symm.trans ho
      · exact .inr ⟨hv, ho, by simp only; omega, by simp only; omega, hp⟩
    · intro ho
      cases howner.symm.trans ho
    · rw [RtMutex.holdOf, if_pos howner]
      simp only
      omega
    · intro t ht
      apply if_neg
      rw [howner]
      exact fun he => ht (some.inj he).symm
  · cases heq.symm.trans hk
    obtain ⟨hcur, hok, hfree', hcalm⟩ :=
      restore_facts h.ok hfree (hp (by rw [howner]; nofun))
    obtain ⟨started, hinv⟩ := hok.inv
    exact h.handed hfree howner hhold hcur hok hfree' hcalm hwait (hinv.queues.priority t)
  · cases heq.symm.trans hk
    obtain ⟨hcur, hok, hfree', hcalm⟩ :=
      restore_facts h.ok hfree (hp (by rw [howner]; nofun))
    apply h.returned hfree howner hcur hok hfree' hcalm
    · exact .inl ⟨rfl, rfl, rfl⟩
    · exact fun _ => hwait
    · rw [hhold]
      rfl
    · exact fun _ _ => if_neg nofun

end

theorem ret (hrun : s.Running) (hc : s.call s.kernel.current = some c) :
    (s.leave c (s.result c)).Good := by
  have hothers : ∀ t ≠ s.kernel.current, (s.leave c (s.result c)).call t = s.call t := fun t ht =>
    s.enter_call_of_ne none ht
  have hself : (s.leave c (s.result c)).call s.kernel.current = none := s.enter_call_self none
  have hgranted : ∀ x, ∀ t ≠ s.kernel.current,
      ((s.leave c (s.result c)).Granted x t ↔ s.Granted x t) := by
    intro x t ht
    exact granted_iff (hothers t ht) Iff.rfl rfl x
  have hnot : ∀ x, ¬ (s.leave c (s.result c)).Granted x s.kernel.current := by
    intro x
    unfold Granted
    rw [hself]
    simp
  refine ⟨h.ok.enter hrun none, h.mutex, h.wait, ?_, ?_⟩
  · intro x t hg
    by_cases ht : t = s.kernel.current
    · exact absurd hg (ht ▸ hnot x)
    · exact h.owner x t ((hgranted x t ht).mp hg)
  · intro x t
    have hold := h.balance x t
    have hmutex : (s.leave c (s.result c)).mutex = s.mutex := rfl
    rw [hmutex]
    by_cases ht : t = s.kernel.current
    · subst ht
      have hreleasing : ¬ (s.leave c (s.result c)).Releasing x s.kernel.current := by
        unfold Releasing
        rw [hself]
        nofun
      have hstat : (s.kernel.thread s.kernel.current).stat ≠ .suspend := by
        rw [hrun]
        nofun
      simp only [granted, given, hnot x, hreleasing, if_false, Nat.add_zero]
      simp only [granted, given, Granted, Releasing, hc, some.injEq, hstat, not_false_eq_true,
        true_and, ne_eq] at hold
      cases c with
      | taken y | released y => simpa [leave, result] using hold
      | waiting y => simpa [leave, result, and_comm] using hold
    · have hreleasing : (s.leave c (s.result c)).Releasing x t ↔ s.Releasing x t := by
        unfold Releasing
        rw [hothers t ht]
      have hcounts : (s.leave c (s.result c)).takes x t = s.takes x t ∧
          (s.leave c (s.result c)).releases x t = s.releases x t := by
        simp [leave, ht]
      simp only [granted, given, hgranted x t ht, hreleasing, hcounts.1, hcounts.2] at hold ⊢
      exact hold

end

end Good

theorem Good.step (h : s.Good) (hstep : Step s a s') : s'.Good := by
  cases a with
  | take x timeout =>
    rw [Step, exec] at hstep
    split_ifs at hstep with hfree
    obtain ⟨⟨k, m, outcome⟩, hk, rfl⟩ := map_eq_some_iff.mp hstep
    exact h.take hfree hk
  | release x =>
    rw [Step, exec] at hstep
    split_ifs at hstep with hfree
    obtain ⟨⟨k, m, err⟩, hk⟩ : ∃ r, rtMutexRelease s.kernel (s.mutex x) x = r := ⟨_, rfl⟩
    simp only [hk] at hstep
    cases hstep
    exact h.release hfree hk
  | ret =>
    rw [Step, exec] at hstep
    split_ifs at hstep with hrun
    obtain ⟨c, hc, rfl⟩ := map_eq_some_iff.mp hstep
    exact h.ret hrun hc
  | timeout t =>
    obtain ⟨c, hc, rfl⟩ := map_eq_some_iff.mp hstep
    obtain ⟨k, hk, rfl⟩ := Callers.timeout_cases hc
    obtain ⟨hs, -, hwait, hself, hother⟩ := threadTimeout_spec hk
    apply h.kernel (h.ok.timeout hk)
    · intro x hx
      rw [hwait]
      exact congrArg (rtListRemove · t) hx
    · intro x z
      by_cases hz : z = t
      · subst hz
        unfold Granted
        rw [hself, hs]
        simp
      · apply granted_iff
        · rfl
        all_goals simp only [hother z hz]
  | background b =>
    obtain ⟨c, hc, rfl⟩ := map_eq_some_iff.mp hstep
    obtain ⟨k, hk, rfl⟩ := Callers.background_cases hc
    obtain ⟨hcalm, hok⟩ := h.ok.background hk
    apply h.kernel hok
    · intro x hx
      rw [hcalm.wait]
      exact hx
    · intro x z
      apply granted_iff
      · rfl
      · exact hcalm.suspended z
      · exact hcalm.error z

theorem Initial.good (h : s.Initial) : s.Good := by
  refine ⟨.start h.inv h.wait h.call, ?_, fun x _ => h.wait x, ?_, ?_⟩
  · intro x
    rw [h.mutex]
    exact .inl ⟨rfl, rfl, rfl⟩
  · intro x t hg
    unfold Granted at hg
    simp [h.call] at hg
  · intro x t
    simp [granted, given, Granted, Releasing, h.call, h.takes, h.releases, h.mutex, rtMutexInit,
      RtMutex.holdOf]

theorem reachable_good (h : Reachable Initial Step s) : s.Good :=
  h.induct (·.good) (·.step)

/-- The call is refused: it returns an error, or its thread times out. -/
def Refused (s : Sys τ ω) : Act τ ω → Prop
  | .take x timeout => ∃ k m err,
      rtMutexTake s.kernel (s.mutex x) x timeout = some (k, m, .returns err) ∧ err ≠ .eok
  | .release x => (rtMutexRelease s.kernel (s.mutex x) x).2.2 ≠ .eok
  | .ret => ∃ c, s.call s.kernel.current = some c ∧ s.result c ≠ .eok
  | .timeout _ => True
  | .background _ => False

/-- A call that is refused leaves the mutexes as they are. -/
theorem Good.refused_mutex (h : s.Good) (hr : s.Refused a) (hstep : Step s a s') :
    s'.mutex = s.mutex := by
  cases a with
  | take x timeout =>
    rw [Step, exec] at hstep
    split_ifs at hstep with hfree
    obtain ⟨k, m, err, hk, herr⟩ := hr
    rw [hk] at hstep
    have hm : m = s.mutex x := by
      rcases rtMutexTake_cases (h.mutex x) hk with ⟨-, -, -, -, ho⟩ | ⟨-, -, -, ho⟩ |
        ⟨_, -, hm, -⟩ | ⟨_, -, -, -, -, -, ho⟩
      · exact absurd (Outcome.returns.inj ho) herr
      · exact absurd (Outcome.returns.inj ho) herr
      · exact hm
      · cases ho
    subst hm
    cases err with
    | eok => exact absurd rfl herr
    | _ =>
      cases hstep
      exact update_eq_self x s.mutex
  | release x =>
    rw [Step, exec] at hstep
    split_ifs at hstep with hfree
    have herr : (rtMutexRelease s.kernel (s.mutex x) x).2.2 ≠ .eok := hr
    obtain ⟨k, heq⟩ : ∃ k, rtMutexRelease s.kernel (s.mutex x) x = (k, s.mutex x, .error) := by
      rcases rtMutexRelease_cases (h.mutex x) x with ⟨-, heq⟩ | ⟨-, -, heq⟩ | ⟨_, _, -, -, -, heq⟩ |
        ⟨-, -, -, heq⟩
      · exact ⟨_, heq⟩
      all_goals
        rw [heq] at herr
        exact absurd rfl herr
    rw [heq] at hstep
    simp only [store_mutex, reduceCtorEq, if_false] at hstep
    cases hstep
    rfl
  | ret =>
    rw [Step, exec] at hstep
    split_ifs at hstep
    obtain ⟨c, -, rfl⟩ := map_eq_some_iff.mp hstep
    rfl
  | timeout t | background b =>
    obtain ⟨c, -, rfl⟩ := map_eq_some_iff.mp hstep
    rfl

/-- In every run a mutex is free or has one owner, who has taken it `hold` times more often than given
it back; only an owned mutex is waited for; who returns `RT_EOK` from a take is the owner; and a call
that is refused changes nothing. -/
theorem reachable_exclusive (s : Sys τ ω) (h : Reachable Initial Step s) (x : ω) :
    ((s.mutex x).value = 1 ∧ (s.mutex x).owner = none ∧ (s.mutex x).hold = 0 ∨
      (s.mutex x).value = 0 ∧ 0 < (s.mutex x).hold ∧ ∃ owner, (s.mutex x).owner = some owner ∧
        s.granted x owner = s.given x owner + (s.mutex x).hold) ∧
    (s.kernel.wait x ≠ [] → (s.mutex x).owner ≠ none) ∧
    (∀ c, c = .taken x ∨ c = .waiting x → s.call s.kernel.current = some c → s.Running →
      s.result c = .eok → (s.mutex x).owner = some s.kernel.current) ∧
    ∀ a s', Step s a s' → s.Refused a → (s'.mutex x).value = (s.mutex x).value ∧
      (s'.mutex x).owner = (s.mutex x).owner ∧ (s'.mutex x).hold = (s.mutex x).hold := by
  have hgood := reachable_good h
  refine ⟨?_, ?_, ?_, ?_⟩
  · rcases hgood.mutex x with hfree | ⟨hv, ho, hpos, -⟩
    · exact .inl hfree
    · obtain ⟨owner, howner⟩ := Option.ne_none_iff_exists'.mp ho
      refine .inr ⟨hv, hpos, owner, howner, ?_⟩
      rw [hgood.balance, RtMutex.holdOf, if_pos howner]
  · exact fun hw ho => hw (hgood.wait x ho)
  · intro c hc hcall hrun hresult
    apply hgood.owner
    rcases hc with rfl | rfl
    · exact .inl hcall
    · refine .inr ⟨hcall, ?_, hresult⟩
      rw [hrun]
      nofun
  · intro a s' hstep hr
    rw [hgood.refused_mutex hr hstep]
    exact ⟨rfl, rfl, rfl⟩

/-- Thread `2` runs at priority 30 beside the idle thread `3`; the threads `0` and `1`, of the
priorities 10 and 20, sleep. -/
def start : Sys (Fin 4) (Fin 2) :=
  { kernel := boot ![10, 20, 30, 31] 2 [3]
    mutex := fun _ => rtMutexInit
    call := fun _ => none, takes := fun _ _ => 0, releases := fun _ _ => 0
    base := ![10, 20, 30, 31] }

theorem start_initial : start.Initial where
  inv := ⟨_, boot_inv (by decide) 2 [3]⟩
  wait _ := congrFun (boot_wait) _
  mutex _ := rfl
  call _ := rfl
  takes _ _ := rfl
  releases _ _ := rfl
  base := by decide +kernel

/-- Thread `0` waits for the mutex of thread `2` and is given it. -/
def handover : List (Act (Fin 4) (Fin 2)) :=
  [.take 0 (-1), .ret, .timeout 0, .background .schedule, .take 0 5, .background .schedule,
    .release 0]

/-- The new owner has not run yet. -/
theorem reachable_exclusive_handover : ∃ s : Sys (Fin 4) (Fin 2), s.kernel.current = 2 ∧
    (s.mutex 0).owner = some 0 ∧ ∃ owner, (s.mutex 0).owner = some owner ∧
      s.granted 0 owner = s.given 0 owner + (s.mutex 0).hold := by
  have hrun : ∃ s ∈ runAll exec start handover, s.kernel.current = 2 ∧
      (s.mutex 0).owner = some 0 := by decide +kernel
  obtain ⟨s, hs, hcurrent, howner⟩ := Reachable.of_runAll start_initial hrun
  have h := reachable_exclusive s hs 0
  rcases h.1 with ⟨-, hnone, -⟩ | ⟨-, -, hbalance⟩
  · cases howner.symm.trans hnone
  · exact ⟨s, hcurrent, howner, hbalance⟩

end Sys

end RtKernel.Mutex

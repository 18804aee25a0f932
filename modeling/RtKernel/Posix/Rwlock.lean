import RtKernel.Posix.Cond

/-!
# Read-write locks

Readers and writers that have to wait count themselves, and wait on a condition variable for
each of both sides. Who unlocks signals one side, which the counts choose. What runs with
`rw_mutex` locked is one step, but for the waits, the signals and the broadcasts, between
whose steps a wait may time out.
-/

namespace RtKernel.Pthread

/-- For what a thread wants the lock. -/
inductive Side
  | reader
  | writer
  deriving DecidableEq

namespace Rwlock

/-- Where a thread is. A call of a timed form may time out. -/
inductive Pc
  /-- In none of the calls. -/
  | idle
  /-- At the head of the loop, with `rw_mutex` locked. -/
  | looks (side : Side) (timed : Bool)
  | suspended (side : Side) (timed timer : Bool)
  /-- Ready to run, with its error number; it has to lock `rw_mutex` again. -/
  | resumed (side : Side) (timed : Bool) (err : RtErr)
  /-- `pthread_rwlock_unlock` signals `rw_condwriters`. -/
  | signals
  /-- It broadcasts `rw_condreaders`, and is to try and take the semaphore. -/
  | broadcasts
  /-- It is to release the semaphore, which it has taken or not. -/
  | releases (taken : Bool)
  deriving DecidableEq

/-- A thread is inside a wait. -/
def Pc.waits (side : Side) : Pc → Bool
  | .suspended side' _ _ | .resumed side' _ _ => side' = side
  | .idle | .looks .. | .signals | .broadcasts | .releases _ => false

end Rwlock

open Rwlock Function List Option

/-- `pthread_rwlock_t`, with its threads and those that hold it. -/
structure Rwlock (τ : Type*) where
  rwRefcount : Int
  /-- `rw_nwaitreaders` and `rw_nwaitwriters`. -/
  rwNwait : Side → Nat
  /-- `rw_condreaders` and `rw_condwriters`. -/
  rwCond : Side → CondSem τ
  /-- Who has locked `rw_mutex`. -/
  owner : Option τ
  pc : τ → Pc
  readers : List τ
  writer : Option τ

namespace Rwlock

variable {τ : Type*}

/-- What may happen. -/
inductive Act (τ : Type*)
  /-- `pthread_rwlock_rdlock`, `pthread_rwlock_wrlock` or a timed form of them begins. -/
  | lock (t : τ) (side : Side) (timed : Bool)
  | trylock (t : τ) (side : Side)
  /-- A thread looks whether it has to wait, with the time that is left to a timed form. -/
  | look (t : τ) (timeout : Int)
  /-- The timer of a thread that waits. -/
  | timeout (t : τ)
  /-- A thread that has been resumed locks `rw_mutex`. -/
  | relock (t : τ)
  | unlock (t : τ)
  /-- A signal or a broadcast goes on. -/
  | step (t : τ)

variable [DecidableEq τ]

def setPc (s : Rwlock τ) (t : τ) (pc : Pc) : Rwlock τ := { s with pc := update s.pc t pc }

/-- `rw_mutex` is locked. -/
def mutexLock (s : Rwlock τ) (t : τ) : Rwlock τ := { s with owner := some t }

/-- `rw_mutex` is unlocked, and the call returns. -/
def ret (s : Rwlock τ) (t : τ) : Rwlock τ := setPc { s with owner := none } t .idle

/-- A call has to wait: writers that wait go first. -/
def Blocked (s : Rwlock τ) : Side → Prop
  | .reader => s.rwRefcount < 0 ∨ 0 < s.rwNwait .writer
  | .writer => s.rwRefcount ≠ 0

instance (s : Rwlock τ) (side : Side) : Decidable (s.Blocked side) :=
  match side with
  | .reader => inferInstanceAs (Decidable (_ ∨ _))
  | .writer => inferInstanceAs (Decidable (_ ≠ _))

/-- The lock is taken. -/
def acquire (s : Rwlock τ) (t : τ) : Side → Rwlock τ
  | .reader => { s with rwRefcount := s.rwRefcount + 1, readers := s.readers ++ [t] }
  | .writer => { s with rwRefcount := -1, writer := some t }

def setCond (s : Rwlock τ) (side : Side) (cond : CondSem τ) : Rwlock τ :=
  { s with rwCond := update s.rwCond side cond }

def setNwait (s : Rwlock τ) (side : Side) (nwait : Nat) : Rwlock τ :=
  { s with rwNwait := update s.rwNwait side nwait }

/-- `pthread_rwlock_rdlock`, `pthread_rwlock_timedrdlock`, `pthread_rwlock_wrlock` and
`pthread_rwlock_timedwrlock` up to their loop. -/
def lock (s : Rwlock τ) (t : τ) (side : Side) (timed : Bool) : Option (Rwlock τ) :=
  if s.owner = none ∧ s.pc t = .idle then some ((s.mutexLock t).setPc t (.looks side timed)) else none

/-- `pthread_rwlock_tryrdlock` and `pthread_rwlock_trywrlock`. -/
def trylock (s : Rwlock τ) (t : τ) (side : Side) : Option (Rwlock τ) :=
  if s.owner = none ∧ s.pc t = .idle then
    some (if s.Blocked side then s else s.acquire t side)
  else none

/-- A pass of the loop. The count goes up before the wait and down after it, also where there is
something to take or no time is left, and then the count is not seen by anybody else. -/
def look (s : Rwlock τ) (t : τ) (timeout : Int) : Option (Rwlock τ) :=
  match s.pc t with
  | .looks side timed =>
    let time := if timed then timeout else -1
    let cond := s.rwCond side
    if s.Blocked side then
      if 0 < cond.value then some (s.setCond side { cond with value := cond.value - 1 })
      else if time = 0 then some (s.ret t)
      else
        let s := s.setNwait side (s.rwNwait side + 1)
        some (setPc { (s.setCond side (cond.suspend t)) with owner := none } t
          (.suspended side timed (0 < time)))
    else some ((s.acquire t side).ret t)
  | _ => none

/-- `_thread_timeout`. -/
def timeout (s : Rwlock τ) (t : τ) : Option (Rwlock τ) :=
  match s.pc t with
  | .suspended side timed true =>
    some ((s.setCond side ((s.rwCond side).timeout t)).setPc t (.resumed side timed .etimeout))
  | _ => none

/-- A wait returns, and the loop goes on or is left. -/
def relock (s : Rwlock τ) (t : τ) : Option (Rwlock τ) :=
  match s.pc t with
  | .resumed side timed err =>
    if s.owner = none then
      let s := s.setNwait side (s.rwNwait side - 1)
      some (if err = .eok then (s.mutexLock t).setPc t (.looks side timed) else s.ret t)
    else none
  | _ => none

/-- The holder gives the lock back. -/
def giveBack (s : Rwlock τ) (t : τ) : Rwlock τ :=
  if 0 < s.rwRefcount then { s with rwRefcount := s.rwRefcount - 1, readers := s.readers.erase t }
  else if s.rwRefcount = -1 then { s with rwRefcount := 0, writer := none }
  else s

/-- `pthread_rwlock_unlock` of a holder, up to a signal or a broadcast. -/
def unlock (s : Rwlock τ) (t : τ) : Option (Rwlock τ) :=
  if s.owner = none ∧ s.pc t = .idle ∧ (t ∈ s.readers ∨ s.writer = some t) then
    let s := s.giveBack t
    if 0 < s.rwNwait .writer then
      if s.rwRefcount = 0 then
        if (s.rwCond .writer).suspendThread = [] then some s
        else some ((s.mutexLock t).setPc t .signals)
      else some s
    else if 0 < s.rwNwait .reader then some ((s.mutexLock t).setPc t .broadcasts)
    else some s
  else none

/-- A thread is resumed, if there is one. -/
def resume (s : Rwlock τ) : Option τ → Rwlock τ
  | some t =>
    match s.pc t with
    | .suspended side timed _ => s.setPc t (.resumed side timed .eok)
    | _ => s
  | none => s

/-- `rt_sem_release` of a condition variable. -/
def release (s : Rwlock τ) (side : Side) : Rwlock τ :=
  (s.setCond side (s.rwCond side).release.1).resume (s.rwCond side).release.2

def step (s : Rwlock τ) (t : τ) : Option (Rwlock τ) :=
  match s.pc t with
  | .signals => some ((s.release .writer).ret t)
  | .broadcasts =>
    some ((s.setCond .reader (s.rwCond .reader).trytake.1).setPc t
      (.releases (s.rwCond .reader).trytake.2))
  | .releases taken =>
    some (if taken then (s.release .reader).ret t else (s.release .reader).setPc t .broadcasts)
  | .idle | .looks .. | .suspended .. | .resumed .. => none

def exec (s : Rwlock τ) : Act τ → Option (Rwlock τ)
  | .lock t side timed => s.lock t side timed
  | .trylock t side => s.trylock t side
  | .look t timeout => s.look t timeout
  | .timeout t => s.timeout t
  | .relock t => s.relock t
  | .unlock t => s.unlock t
  | .step t => s.step t

/-- `pthread_rwlock_init`. -/
def Initial (s : Rwlock τ) : Prop :=
  s.rwRefcount = 0 ∧ (∀ side, s.rwNwait side = 0 ∧ (s.rwCond side).value = 0 ∧
    (s.rwCond side).suspendThread = []) ∧ s.owner = none ∧ (∀ t, s.pc t = .idle) ∧
    s.readers = [] ∧ s.writer = none

/-- A thread has been woken up or has timed out, and has still to run. -/
def Runs (s : Rwlock τ) (t : τ) : Prop := ∃ side timed err, s.pc t = .resumed side timed err

variable [Fintype τ]

/-- The counts are what they say, and nobody is left waiting for a lock that is free. -/
structure Kept (s : Rwlock τ) : Prop where
  readers : s.writer = none → s.rwRefcount = s.readers.length
  writer : s.rwRefcount = -1 ↔ s.writer ≠ none
  nwait : ∀ side, s.rwNwait side = count fun t => (s.pc t).waits side
  settled : s.owner = none → (∀ t, ¬ s.Runs t) → s.rwRefcount = 0 → ∀ t side timed timer,
    s.pc t ≠ .suspended side timed timer

omit [Fintype τ] in
/-- Where a step may be trusted: a call that has timed out does not return while the lock is free and
somebody waits for it, unless another thread has still to run. -/
def Careful (s : Rwlock τ) : Act τ → Prop
  | .relock t =>
    match s.pc t with
    | .resumed _ _ err => err ≠ .eok → s.rwRefcount = 0 →
      (∀ side, (s.rwCond side).suspendThread = []) ∨ ∃ u, u ≠ t ∧ s.Runs u
    | .idle | .looks .. | .suspended .. | .signals | .broadcasts | .releases _ => True
  | .lock .. | .trylock .. | .look .. | .timeout _ | .unlock _ | .step _ => True

/-- A thread has locked `rw_mutex`. -/
def Pc.InMutex : Pc → Prop
  | .looks .. | .signals | .broadcasts | .releases _ => True
  | .idle | .suspended .. | .resumed .. => False

/-- A writer will take a free lock, or be signalled. -/
def Pc.Promises : Pc → Prop
  | .looks side _ => side = .writer
  | .resumed side _ err => side = .writer ∧ err = .eok
  | .signals => True
  | .idle | .suspended .. | .broadcasts | .releases _ => False

/-- A thread goes on by itself. -/
def Pc.Goes : Pc → Prop
  | .looks .. | .resumed .. | .signals | .broadcasts | .releases _ => True
  | .idle | .suspended .. => False

/-- What holds where a thread is. -/
def At (s : Rwlock τ) (t : τ) : Pc → Prop
  | .idle | .resumed .. => True
  | .looks _ _ => s.owner = some t
  | .suspended side _ _ => t ∈ (s.rwCond side).suspendThread
  | .signals => s.owner = some t ∧ 0 < s.rwNwait .writer
  | .broadcasts => s.owner = some t ∧ s.rwNwait .writer = 0
  | .releases taken =>
    s.owner = some t ∧ s.rwNwait .writer = 0 ∧ (taken = true → (s.rwCond .reader).suspendThread = [])

/-- The holders are as many as the lock counts. -/
def Counted (s : Rwlock τ) : Prop :=
  (s.writer = none ∧ s.rwRefcount = s.readers.length) ∨
    (s.writer ≠ none ∧ s.readers = [] ∧ s.rwRefcount = -1)

/-- What holds while every step meets the condition. -/
structure Sound (s : Rwlock τ) : Prop where
  place : ∀ t, s.At t (s.pc t)
  listed : ∀ side, ∀ t ∈ (s.rwCond side).suspendThread, ∃ timed timer, s.pc t = .suspended side timed timer
  nodup : ∀ side, (s.rwCond side).suspendThread.Nodup
  empty : ∀ side, 0 < (s.rwCond side).value → (s.rwCond side).suspendThread = []
  counted : s.Counted
  nwait : ∀ side, s.rwNwait side = count fun t => (s.pc t).waits side
  /-- A writer that waits for a free lock will be signalled, or another one has been. -/
  promised : s.rwRefcount = 0 → (s.rwCond .writer).suspendThread ≠ [] → ∃ t, (s.pc t).Promises
  goes : s.rwRefcount = 0 → (∃ side, (s.rwCond side).suspendThread ≠ []) → ∃ t, (s.pc t).Goes

variable {s s' : Rwlock τ} {t u : τ} {side : Side} {pc : Pc} {cond : CondSem τ}

omit [Fintype τ] in
theorem setPc_self (s : Rwlock τ) (t : τ) (pc : Pc) : (s.setPc t pc).pc t = pc := update_self ..

omit [Fintype τ] in
theorem setPc_of_ne {s : Rwlock τ} (hu : u ≠ t) : (s.setPc t pc).pc u = s.pc u :=
  update_of_ne hu ..

omit [DecidableEq τ] [Fintype τ] in
theorem At.owner (h : s.At t pc) (hpc : pc.InMutex) : s.owner = some t := by
  cases pc with
  | idle | suspended side timed timer | resumed side timed err => exact hpc.elim
  | looks side timed => exact h
  | signals => exact h.1
  | broadcasts => exact h.1
  | releases taken => exact h.1

omit [DecidableEq τ] [Fintype τ] in
/-- Who is outside of `rw_mutex` needs its place in a list only. -/
theorem At.of_outside (h : s.At u pc) (hpc : ¬ pc.InMutex)
    (hlist : ∀ side, u ∈ (s.rwCond side).suspendThread → u ∈ (s'.rwCond side).suspendThread) :
    s'.At u pc := by
  cases pc with
  | idle | resumed side timed err => trivial
  | suspended side timed timer => exact hlist side h
  | looks side timed | signals | broadcasts | releases taken => exact absurd trivial hpc

section

omit [DecidableEq τ]

theorem Sound.outside (h : Sound s) (hu : s.owner ≠ some u) : ¬ (s.pc u).InMutex :=
  fun hpc => hu ((h.place u).owner hpc)

/-- Whoever goes on outside of `rw_mutex` has been resumed. -/
theorem Sound.runs (h : Sound s) (hu : s.owner ≠ some u) (hgoes : (s.pc u).Goes) : s.Runs u := by
  have hout := h.outside hu
  cases hpc : s.pc u with
  | idle | suspended side timed timer => rw [hpc] at hgoes; exact hgoes.elim
  | resumed side timed err => exact ⟨side, timed, err, hpc⟩
  | looks side timed | signals | broadcasts | releases taken =>
    rw [hpc] at hout
    exact absurd trivial hout

theorem Sound.list_nil (h : Sound s) (hzero : s.rwNwait side = 0) : (s.rwCond side).suspendThread = [] := by
  by_contra hne
  obtain ⟨t, ht⟩ := exists_mem_of_ne_nil _ hne
  obtain ⟨timed, timer, hpc⟩ := h.listed side t ht
  have hpos : 0 < count fun t => (s.pc t).waits side := count_pos (t := t) (by simp [hpc, Pc.waits])
  rw [← h.nwait] at hpos
  omega

/-- Who is counted and not in the list has been resumed. -/
theorem Sound.exists_runs (h : Sound s) (hpos : 0 < s.rwNwait side)
    (hlist : (s.rwCond side).suspendThread = []) : ∃ t, s.Runs t := by
  by_contra hnone
  have hzero : (count fun t => (s.pc t).waits side) = 0 := by
    refine count_eq_zero fun t hwaits => ?_
    have hplace := h.place t
    cases hpc : s.pc t with
    | idle | looks side' timed | signals | broadcasts | releases taken => simp [hpc, Pc.waits] at hwaits
    | suspended side' timed timer =>
      obtain rfl : side' = side := by simpa [hpc, Pc.waits] using hwaits
      rw [hpc, At, hlist] at hplace
      cases hplace
    | resumed side' timed err => exact hnone ⟨t, side', timed, err, hpc⟩
  rw [← h.nwait] at hzero
  omega

end

theorem Sound.change (h : Sound s) (hpc : s'.pc = update s.pc t pc) (hat : s'.At t pc)
    (hothers : ∀ u ≠ t, s'.At u (s.pc u)) (hlist : ∀ side, ∀ u ∈ (s'.rwCond side).suspendThread,
      (u ≠ t ∧ u ∈ (s.rwCond side).suspendThread) ∨ (u = t ∧ ∃ timed timer, pc = .suspended side timed timer))
    (hnodup : ∀ side, (s'.rwCond side).suspendThread.Nodup)
    (hempty : ∀ side, 0 < (s'.rwCond side).value → (s'.rwCond side).suspendThread = [])
    (hcounted : s'.Counted)
    (hnwait : ∀ side, s'.rwNwait side + (if (s.pc t).waits side then 1 else 0) =
      s.rwNwait side + if pc.waits side then 1 else 0)
    (hpromised : s'.rwRefcount = 0 → (s'.rwCond .writer).suspendThread ≠ [] →
      pc.Promises ∨ ∃ u ≠ t, (s.pc u).Promises)
    (hgoes : s'.rwRefcount = 0 → (∃ side, (s'.rwCond side).suspendThread ≠ []) →
      pc.Goes ∨ ∃ u ≠ t, (s.pc u).Goes) : Sound s' := by
  have hself : s'.pc t = pc := by rw [hpc, update_self]
  have hother : ∀ u ≠ t, s'.pc u = s.pc u := fun u hu => by rw [hpc, update_of_ne hu]
  refine ⟨fun u => ?_, fun side u hu => ?_, hnodup, hempty, hcounted, fun side => ?_, fun hzero hne => ?_,
    fun hzero hne => ?_⟩
  · by_cases hu : u = t
    · rw [hu, hself]
      exact hat
    · rw [hother u hu]
      exact hothers u hu
  · rcases hlist side u hu with ⟨hne, hin⟩ | ⟨rfl, timed, timer, heq⟩
    · rw [hother u hne]
      exact h.listed side u hin
    · exact ⟨timed, timer, hself.trans heq⟩
  · have hcount := count_change (p := fun t => (s.pc t).waits side) (q := fun t => (s'.pc t).waits side) t
      fun u hu => by simp only [hother u hu]
    have hnwait := hnwait side
    simp only [hself] at hcount
    rw [h.nwait] at hnwait
    omega
  · rcases hpromised hzero hne with hpc | ⟨u, hu, hpc⟩
    · exact ⟨t, hself ▸ hpc⟩
    · exact ⟨u, hother u hu ▸ hpc⟩
  · rcases hgoes hzero hne with hpc | ⟨u, hu, hpc⟩
    · exact ⟨t, hself ▸ hpc⟩
    · exact ⟨u, hother u hu ▸ hpc⟩

omit [DecidableEq τ] in
theorem Sound.not_mem (h : Sound s) (hpc : ∀ side timed timer, s.pc t ≠ .suspended side timed timer)
    (hu : u ∈ (s.rwCond side).suspendThread) : u ≠ t := by
  rintro rfl
  obtain ⟨timed, timer, heq⟩ := h.listed side u hu
  exact hpc side timed timer heq

omit [DecidableEq τ] in
theorem Sound.mem_iff (h : Sound s) : t ∈ (s.rwCond side).suspendThread ↔
    ∃ timed timer, s.pc t = .suspended side timed timer := by
  refine ⟨h.listed side t, fun ⟨timed, timer, hpc⟩ => ?_⟩
  have hplace := h.place t
  rwa [hpc] at hplace

theorem Sound.lock {timed : Bool} (h : Sound s) (hlock : s.lock t side timed = some s') : Sound s' := by
  obtain ⟨⟨howner, hpc⟩, heq⟩ := ite_none_right_eq_some.mp hlock
  cases heq
  have hout : ∀ u, ¬ (s.pc u).InMutex := fun u => h.outside (by simp [howner])
  refine h.change rfl rfl (fun u _ => (h.place u).of_outside (hout u) fun _ => id)
    (fun side u hu => .inl ⟨h.not_mem (by simp [hpc]) hu, hu⟩) h.nodup h.empty h.counted
    (fun side => by simp [hpc, Pc.waits]; rfl) (fun hzero hne => ?_) fun _ _ => .inl trivial
  obtain ⟨u, hu⟩ := h.promised hzero hne
  refine .inr ⟨u, ?_, hu⟩
  rintro rfl
  rw [hpc] at hu
  exact hu

section

omit [DecidableEq τ] [Fintype τ]

@[simp] theorem acquire_pc (s : Rwlock τ) (t : τ) (side : Side) : (s.acquire t side).pc = s.pc := by
  cases side <;> rfl

@[simp] theorem acquire_rwCond (s : Rwlock τ) (t : τ) (side : Side) :
    (s.acquire t side).rwCond = s.rwCond := by
  cases side <;> rfl

@[simp] theorem acquire_rwNwait (s : Rwlock τ) (t : τ) (side : Side) :
    (s.acquire t side).rwNwait = s.rwNwait := by
  cases side <;> rfl

end

section

omit [DecidableEq τ]

/-- The lock is taken where nobody has to wait, and then it is not free. -/
theorem Sound.acquire (h : Sound s) (hfree : ¬ s.Blocked side) :
    (s.acquire t side).Counted ∧ (s.acquire t side).rwRefcount ≠ 0 := by
  cases side with
  | reader =>
    obtain ⟨hcount, -⟩ := not_or.mp hfree
    rcases h.counted with ⟨hwriter, hreaders⟩ | ⟨-, -, hone⟩
    · refine ⟨.inl ⟨hwriter, ?_⟩, ?_⟩
      · have hlen : (s.readers ++ [t]).length = s.readers.length + 1 := length_append
        have hsum : s.rwRefcount + 1 = ((s.readers ++ [t]).length : Int) := by omega
        exact hsum
      · have hsum : s.rwRefcount + 1 ≠ 0 := by omega
        exact hsum
    · omega
  | writer =>
    have hzero : s.rwRefcount = 0 := not_not.mp hfree
    rcases h.counted with ⟨-, hreaders⟩ | ⟨-, -, hone⟩
    · have hnil : s.readers = [] := length_eq_zero_iff.mp (by omega)
      refine ⟨.inr ⟨some_ne_none t, hnil, rfl⟩, ?_⟩
      exact (by decide : (-1 : Int) ≠ 0)
    · omega

theorem Sound.recount (h : Sound s) (howner : s.owner = none) (hpc : s'.pc = s.pc)
    (hcond : s'.rwCond = s.rwCond) (hnwait : s'.rwNwait = s.rwNwait) (hcounted : s'.Counted)
    (hpromised : s'.rwRefcount = 0 → (s.rwCond .writer).suspendThread ≠ [] → ∃ t, (s.pc t).Promises)
    (hgoes : s'.rwRefcount = 0 → (∃ side, (s.rwCond side).suspendThread ≠ []) → ∃ t, (s.pc t).Goes) :
    Sound s' := by
  refine ⟨fun u => ?_, ?_, ?_, ?_, hcounted, ?_, ?_, ?_⟩
  · rw [hpc]
    refine (h.place u).of_outside (h.outside (by simp [howner])) fun side' hu => ?_
    rwa [hcond]
  · rw [hpc, hcond]
    exact h.listed
  · rw [hcond]
    exact h.nodup
  · rw [hcond]
    exact h.empty
  · rw [hpc, hnwait]
    exact h.nwait
  · rw [hpc, hcond]
    exact hpromised
  · rw [hpc, hcond]
    exact hgoes

theorem Sound.trylock (h : Sound s) (htrylock : s.trylock t side = some s') : Sound s' := by
  obtain ⟨⟨howner, hpc⟩, heq⟩ := ite_none_right_eq_some.mp htrylock
  split_ifs at heq with hblocked
  · exact some.inj heq ▸ h
  · cases heq
    obtain ⟨hcounted, hne⟩ := h.acquire (t := t) hblocked
    exact h.recount howner (acquire_pc ..) (acquire_rwCond ..) (acquire_rwNwait ..) hcounted
      (fun hzero => absurd hzero hne) fun hzero => absurd hzero hne

/-- A thread that waits for a free lock is not alone. -/
theorem Sound.accompanied (h : Sound s) {timed : Bool} (hpc : s.pc t = .looks side timed)
    (hblocked : s.Blocked side) (hzero : s.rwRefcount = 0) : (∃ u ≠ t, (s.pc u).Goes) ∧
      ((s.rwCond .writer).suspendThread ≠ [] → ∃ u ≠ t, (s.pc u).Promises) := by
  have howner : s.owner = some t := by
    have hplace := h.place t
    rwa [hpc] at hplace
  cases side with
  | writer => exact absurd hzero hblocked
  | reader =>
    have hpos : 0 < s.rwNwait .writer := hblocked.resolve_left (by omega)
    have hpromised : (s.rwCond .writer).suspendThread ≠ [] → ∃ u ≠ t, (s.pc u).Promises := by
      intro hne
      obtain ⟨u, hu⟩ := h.promised hzero hne
      refine ⟨u, ?_, hu⟩
      rintro rfl
      rw [hpc] at hu
      cases hu
    refine ⟨?_, hpromised⟩
    by_cases hlist : (s.rwCond .writer).suspendThread = []
    · obtain ⟨u, side', timed', err, hu⟩ := h.exists_runs hpos hlist
      refine ⟨u, ?_, by rw [hu]; trivial⟩
      rintro rfl
      rw [hpc] at hu
      cases hu
    · obtain ⟨u, hne, hu⟩ := hpromised hlist
      refine ⟨u, hne, ?_⟩
      cases hpcu : s.pc u with
      | idle | suspended side' timed' timer | broadcasts | releases taken =>
        rw [hpcu] at hu
        exact hu.elim
      | looks side' timed' | resumed side' timed' err | signals => trivial

end

omit [DecidableEq τ] [Fintype τ] in
theorem setCond_self (s : Rwlock τ) (side : Side) (cond : CondSem τ) :
    (s.setCond side cond).rwCond side = cond := update_self ..

omit [DecidableEq τ] [Fintype τ] in
theorem setCond_of_ne {side' : Side} {s : Rwlock τ} (hside : side' ≠ side) :
    (s.setCond side cond).rwCond side' = s.rwCond side' := update_of_ne hside ..

omit [DecidableEq τ] in
/-- Only the value of a condition variable changes. -/
theorem Sound.setValue (h : Sound s) (hlist : cond.suspendThread = (s.rwCond side).suspendThread)
    (hempty : 0 < cond.value → cond.suspendThread = []) : Sound (s.setCond side cond) := by
  have hlists : ∀ side', ((s.setCond side cond).rwCond side').suspendThread =
      (s.rwCond side').suspendThread := by
    intro side'
    by_cases hside : side' = side
    · rw [hside, setCond_self, hlist]
    · rw [setCond_of_ne hside]
  refine ⟨fun u => ?_, fun side' => ?_, fun side' => ?_, fun side' => ?_, h.counted, h.nwait, fun hzero => ?_,
    fun hzero => ?_⟩
  · have hplace := h.place u
    change At (s.setCond side cond) u (s.pc u)
    cases hpc : s.pc u with
    | idle | resumed _ _ _ => trivial
    | suspended side' timed timer =>
      rw [hpc] at hplace
      change u ∈ ((s.setCond side cond).rwCond side').suspendThread
      rw [hlists]
      exact hplace
    | looks _ _ | signals | broadcasts =>
      rw [hpc] at hplace
      exact hplace
    | releases taken =>
      rw [hpc] at hplace
      exact ⟨hplace.1, hplace.2.1, fun htaken => (hlists .reader).trans (hplace.2.2 htaken)⟩
  · rw [hlists]
    exact h.listed side'
  · rw [hlists]
    exact h.nodup side'
  · by_cases hside : side' = side
    · rw [hside, setCond_self]
      exact hempty
    · rw [setCond_of_ne hside]
      exact h.empty side'
  · rw [hlists]
    exact h.promised hzero
  · simp only [hlists]
    exact h.goes hzero

variable {timed timer : Bool}

theorem Sound.suspend (h : Sound s) (hpc : s.pc t = .looks side timed)
    (hblocked : s.Blocked side) (hvalue : ¬ 0 < (s.rwCond side).value)
    (hpc' : s'.pc = update s.pc t (.suspended side timed timer))
    (hcond : s'.rwCond = update s.rwCond side ((s.rwCond side).suspend t))
    (hnwait : s'.rwNwait = update s.rwNwait side (s.rwNwait side + 1))
    (hcounted : s'.Counted) (hrefcount : s'.rwRefcount = s.rwRefcount) : Sound s' := by
  have howner : s.owner = some t := by
    have hplace := h.place t
    rwa [hpc] at hplace
  have hnotin : ∀ side', t ∉ (s.rwCond side').suspendThread := fun side' ht =>
    h.not_mem (by simp [hpc]) ht rfl
  have haccompanied := h.accompanied hpc hblocked
  have hsame : ∀ side', side' ≠ side → s'.rwCond side' = s.rwCond side' := fun side' hside => by
    rw [hcond, update_of_ne hside]
  have hself : (s'.rwCond side).suspendThread = (s.rwCond side).suspendThread ++ [t] := by
    rw [hcond, update_self]
    rfl
  refine h.change hpc' ?_ (fun u hu => ?_) (fun side' u hu => ?_) (fun side' => ?_) (fun side' => ?_) hcounted
    (fun side' => ?_) (fun hzero hne => ?_) fun hzero _ => .inr (haccompanied (hrefcount ▸ hzero)).1
  · change t ∈ (s'.rwCond side).suspendThread
    rw [hself]
    exact mem_append_right _ (mem_singleton_self t)
  · refine (h.place u).of_outside (h.outside fun heq => hu ?_) fun side' hin => ?_
    · exact some.inj (heq.symm.trans howner)
    · by_cases hside : side' = side
      · subst hside
        exact hself.symm ▸ mem_append_left _ hin
      · exact (hsame side' hside).symm ▸ hin
  · by_cases hside : side' = side
    · subst hside
      rcases mem_append.mp (hself ▸ hu) with hu | hu
      · exact .inl ⟨h.not_mem (by simp [hpc]) hu, hu⟩
      · exact .inr ⟨mem_singleton.mp hu, timed, timer, rfl⟩
    · have hin : u ∈ (s.rwCond side').suspendThread := hsame side' hside ▸ hu
      exact .inl ⟨h.not_mem (by simp [hpc]) hin, hin⟩
  · by_cases hside : side' = side
    · subst hside
      rw [hself]
      exact nodup_append_comm.mp (nodup_cons.mpr ⟨hnotin side', h.nodup side'⟩)
    · rw [hsame side' hside]
      exact h.nodup side'
  · by_cases hside : side' = side
    · subst hside
      rw [hcond, update_self]
      exact fun hpos => absurd hpos hvalue
    · rw [hsame side' hside]
      exact h.empty side'
  · rw [hnwait]
    by_cases hside : side' = side
    · subst hside
      simp [hpc, Pc.waits]
    · simp [hpc, Pc.waits, update_of_ne hside, Ne.symm hside]
  · rw [hrefcount] at hzero
    cases side with
    | writer => exact absurd hzero hblocked
    | reader => exact .inr ((haccompanied hzero).2 (hsame .writer (by decide) ▸ hne))

theorem Sound.look {timeout : Int} (h : Sound s) (hlook : s.look t timeout = some s') : Sound s' := by
  unfold Rwlock.look at hlook
  split at hlook
  · next side timed hpc =>
    have howner : s.owner = some t := by
      have hplace := h.place t
      rwa [hpc] at hplace
    have hout : ∀ u ≠ t, ¬ (s.pc u).InMutex := fun u hu =>
      h.outside fun heq => hu (some.inj (heq.symm.trans howner))
    dsimp only at hlook
    generalize (if timed then timeout else -1) = time at hlook
    by_cases hblocked : s.Blocked side
    · rw [if_pos hblocked] at hlook
      have haccompanied := h.accompanied hpc hblocked
      split_ifs at hlook with hpos htime
      · cases hlook
        exact h.setValue rfl fun _ => h.empty side hpos
      · cases hlook
        exact h.change rfl trivial (fun u hu => (h.place u).of_outside (hout u hu) fun _ => id)
          (fun side' u hu => .inl ⟨h.not_mem (by simp [hpc]) hu, hu⟩) h.nodup h.empty h.counted
          (fun side' => by simp [hpc, Pc.waits]; rfl) (fun hzero hne => .inr ((haccompanied hzero).2 hne))
          fun hzero _ => .inr (haccompanied hzero).1
      · cases hlook
        exact h.suspend hpc hblocked hpos rfl rfl rfl h.counted rfl
    · rw [if_neg hblocked] at hlook
      cases hlook
      obtain ⟨hcounted, hne⟩ := h.acquire (t := t) hblocked
      refine h.change (congrArg (update · t _) (acquire_pc ..)) trivial (fun u hu => ?_)
        (fun side' u hu => ?_) ?_ ?_ hcounted (fun side' => ?_) (fun hzero => absurd hzero hne)
        fun hzero => absurd hzero hne
      · refine (h.place u).of_outside (hout u hu) fun side' hin => ?_
        exact (acquire_rwCond s t side).symm ▸ hin
      · have hin : u ∈ (s.rwCond side').suspendThread := acquire_rwCond s t side ▸ hu
        exact .inl ⟨h.not_mem (by simp [hpc]) hin, hin⟩
      · exact (acquire_rwCond s t side).symm ▸ h.nodup
      · exact (acquire_rwCond s t side).symm ▸ h.empty
      · change (s.acquire t side).rwNwait side' + _ = _
        simp [hpc, Pc.waits]
  · cases hlook

theorem Sound.leave (h : Sound s) {err : RtErr} (hpc : s.pc t = .suspended side timed timer)
    (hperm : (s.rwCond side).suspendThread.Perm (t :: cond.suspendThread))
    (hvalue : cond.value = (s.rwCond side).value) :
    Sound ((s.setCond side cond).setPc t (.resumed side timed err)) := by
  have hnotin : ∀ side' ≠ side, t ∉ (s.rwCond side').suspendThread := fun side' hside ht => by
    obtain ⟨timed', timer', heq⟩ := h.listed side' t ht
    rw [hpc] at heq
    cases heq
    exact hside rfl
  have hnodup := nodup_cons.mp (hperm.nodup_iff.mp (h.nodup side))
  have hmem : ∀ side' u, u ∈ (((s.setCond side cond).rwCond side').suspendThread) ↔
      u ≠ t ∧ u ∈ (s.rwCond side').suspendThread := by
    intro side' u
    by_cases hside : side' = side
    · rw [hside, setCond_self, hperm.mem_iff, mem_cons]
      refine ⟨fun hu => ⟨fun heq => hnodup.1 (heq ▸ hu), .inr hu⟩, fun ⟨hne, hu⟩ => hu.resolve_left hne⟩
    · rw [setCond_of_ne hside]
      exact ⟨fun hu => ⟨fun heq => hnotin side' hside (heq ▸ hu), hu⟩, And.right⟩
  refine h.change rfl trivial (fun u hu => ?_) (fun side' u hu => .inl ((hmem side' u).mp hu))
    (fun side' => ?_) (fun side' => ?_) h.counted (fun side' => by simp [hpc, Pc.waits]; rfl) ?_
    fun _ _ => .inl trivial
  · have hplace := h.place u
    cases hpcu : s.pc u with
    | idle | resumed _ _ _ => trivial
    | suspended side' timed' timer' =>
      rw [hpcu] at hplace
      exact (hmem side' u).mpr ⟨hu, hplace⟩
    | looks _ _ | signals | broadcasts =>
      rw [hpcu] at hplace
      exact hplace
    | releases taken =>
      rw [hpcu] at hplace
      refine ⟨hplace.1, hplace.2.1, fun htaken => eq_nil_iff_forall_not_mem.mpr fun v hv => ?_⟩
      have hin := ((hmem .reader v).mp hv).2
      rw [hplace.2.2 htaken] at hin
      cases hin
  · change ((s.setCond side cond).rwCond side').suspendThread.Nodup
    by_cases hside : side' = side
    · rw [hside, setCond_self]
      exact hnodup.2
    · rw [setCond_of_ne hside]
      exact h.nodup side'
  · change 0 < ((s.setCond side cond).rwCond side').value →
      ((s.setCond side cond).rwCond side').suspendThread = []
    by_cases hside : side' = side
    · rw [hside, setCond_self, hvalue]
      intro hpos
      have hin : t ∈ (s.rwCond side).suspendThread := hperm.mem_iff.mpr (.head _)
      rw [h.empty side hpos] at hin
      cases hin
    · rw [setCond_of_ne hside]
      exact h.empty side'
  · intro hzero hne
    obtain ⟨v, hv⟩ := exists_mem_of_ne_nil _ hne
    obtain ⟨u, hu⟩ := h.promised hzero (ne_nil_of_mem ((hmem .writer v).mp hv).2)
    refine .inr ⟨u, ?_, hu⟩
    rintro rfl
    rw [hpc] at hu
    exact hu

theorem Sound.timeout (h : Sound s) (htimeout : s.timeout t = some s') : Sound s' := by
  unfold Rwlock.timeout at htimeout
  split at htimeout
  · next side timed hpc =>
    cases htimeout
    exact h.leave hpc (CondSem.timeout_perm (h.mem_iff.mpr ⟨timed, true, hpc⟩)) rfl
  · cases htimeout

omit [Fintype τ] in
theorem release_of_nil (h : (s.rwCond side).suspendThread = []) :
    s.release side = s.setCond side (s.rwCond side).release.1 ∧
      (s.rwCond side).release.1.suspendThread = [] := by
  have hrelease : (s.rwCond side).release.2 = none ∧ (s.rwCond side).release.1.suspendThread = [] := by
    unfold CondSem.release
    rw [h]
    exact ⟨rfl, rfl⟩
  refine ⟨?_, hrelease.2⟩
  unfold Rwlock.release
  rw [hrelease.1]
  rfl

omit [Fintype τ] in
theorem release_of_cons {rest : List τ}
    (h : (s.rwCond side).suspendThread = u :: rest) (hpc : s.pc u = .suspended side timed timer) :
    s.release side = (s.setCond side { s.rwCond side with suspendThread := rest }).setPc u
      (.resumed side timed .eok) := by
  unfold Rwlock.release
  rw [CondSem.release_cons h]
  change (match s.pc u with
    | .suspended side timed _ => _
    | _ => _) = _
  rw [hpc]

theorem Sound.release (h : Sound s) (side : Side) : Sound (s.release side) := by
  cases hlist : (s.rwCond side).suspendThread with
  | nil =>
    obtain ⟨heq, hnil⟩ := release_of_nil hlist
    rw [heq]
    exact h.setValue (hnil.trans hlist.symm) fun _ => hnil
  | cons u rest =>
    obtain ⟨timed, timer, hpc⟩ := h.listed side u (hlist ▸ mem_cons_self)
    rw [release_of_cons hlist hpc]
    exact h.leave hpc (hlist ▸ List.Perm.refl _) rfl

theorem Sound.release_pc (h : Sound s) (side : Side)
    (hpc : ∀ side timed timer, s.pc t ≠ .suspended side timed timer) : (s.release side).pc t = s.pc t := by
  cases hlist : (s.rwCond side).suspendThread with
  | nil =>
    rw [(release_of_nil hlist).1]
    rfl
  | cons u rest =>
    obtain ⟨timed, timer, hpcu⟩ := h.listed side u (hlist ▸ mem_cons_self)
    rw [release_of_cons hlist hpcu]
    exact setPc_of_ne fun heq => hpc side timed timer (heq ▸ hpcu)

theorem Sound.exists_resumed (h : Sound s) (hlist : (s.rwCond side).suspendThread ≠ []) :
    ∃ u timed, (s.release side).pc u = .resumed side timed .eok := by
  obtain ⟨u, rest, heq⟩ := exists_cons_of_ne_nil hlist
  obtain ⟨timed, timer, hpc⟩ := h.listed side u (heq ▸ mem_cons_self)
  rw [release_of_cons heq hpc]
  exact ⟨u, timed, setPc_self ..⟩

section

omit [Fintype τ]

theorem resume_frame (s : Rwlock τ) (o : Option τ) : (s.resume o).owner = s.owner ∧
    (s.resume o).rwNwait = s.rwNwait ∧ (s.resume o).rwCond = s.rwCond ∧
      (s.resume o).rwRefcount = s.rwRefcount := by
  cases o with
  | none => exact ⟨rfl, rfl, rfl, rfl⟩
  | some u =>
    dsimp only [resume]
    cases s.pc u <;> exact ⟨rfl, rfl, rfl, rfl⟩

theorem release_owner (s : Rwlock τ) (side : Side) : (s.release side).owner = s.owner :=
  (resume_frame ..).1

theorem release_rwNwait (s : Rwlock τ) (side : Side) : (s.release side).rwNwait = s.rwNwait :=
  (resume_frame ..).2.1

end

/-- The thread in `rw_mutex` goes on, and waits for nothing. -/
theorem Sound.goOn (h : Sound s) (howner : s.owner = some t)
    (hwaits : ∀ side, (s.pc t).waits side = false) (hnot : ∀ side timed timer, s.pc t ≠ .suspended side timed timer)
    (hpc : s'.pc = update s.pc t pc) (hcond : s'.rwCond = s.rwCond)
    (hnwait : s'.rwNwait = s.rwNwait) (hcounted : s'.Counted) (hat : s'.At t pc)
    (hpcwaits : ∀ side, pc.waits side = false)
    (hpromised : s'.rwRefcount = 0 → (s.rwCond .writer).suspendThread ≠ [] →
      pc.Promises ∨ ∃ u ≠ t, (s.pc u).Promises)
    (hgoes : s'.rwRefcount = 0 → (∃ side, (s.rwCond side).suspendThread ≠ []) →
      pc.Goes ∨ ∃ u ≠ t, (s.pc u).Goes) : Sound s' := by
  refine h.change hpc hat (fun u hu => ?_) (fun side u hu => ?_) (hcond ▸ h.nodup) (hcond ▸ h.empty)
    hcounted (fun side => ?_) (hcond ▸ hpromised) (hcond ▸ hgoes)
  · refine (h.place u).of_outside (h.outside fun heq => hu ?_) fun side hin => hcond ▸ hin
    exact some.inj (heq.symm.trans howner)
  · have hin : u ∈ (s.rwCond side).suspendThread := hcond ▸ hu
    exact .inl ⟨h.not_mem hnot hin, hin⟩
  · rw [hnwait, hwaits, hpcwaits]

theorem Sound.step (h : Sound s) (hstep : s.step t = some s') : Sound s' := by
  have hplace := h.place t
  unfold Rwlock.step at hstep
  split at hstep
  · next hpc =>
    rw [hpc] at hplace
    obtain ⟨howner, hpos⟩ := hplace
    cases hstep
    have hrelease := h.release .writer
    have hsame : (s.release .writer).pc t = .signals :=
      (h.release_pc .writer (by simp [hpc])).trans hpc
    refine hrelease.goOn ((release_owner ..).trans howner) (by simp [hsame, Pc.waits]) (by simp [hsame])
      rfl rfl rfl hrelease.counted trivial (by simp [Pc.waits]) (fun _ hne => .inr ?_) fun _ _ => .inr ?_
    · have hlist : (s.rwCond .writer).suspendThread ≠ [] := by
        intro hnil
        obtain ⟨heq, hnil'⟩ := release_of_nil hnil
        rw [heq, setCond_self] at hne
        exact hne hnil'
      obtain ⟨u, timed, hu⟩ := h.exists_resumed hlist
      refine ⟨u, ?_, by rw [hu]; exact ⟨rfl, rfl⟩⟩
      rintro rfl
      rw [hsame] at hu
      cases hu
    · obtain ⟨u, hu⟩ : ∃ u side timed err, (s.release .writer).pc u = .resumed side timed err := by
        by_cases hlist : (s.rwCond .writer).suspendThread = []
        · rw [(release_of_nil hlist).1]
          exact h.exists_runs hpos hlist
        · obtain ⟨u, timed, hu⟩ := h.exists_resumed hlist
          exact ⟨u, .writer, timed, .eok, hu⟩
      obtain ⟨side, timed, err, hu⟩ := hu
      refine ⟨u, ?_, by rw [hu]; trivial⟩
      rintro rfl
      rw [hsame] at hu
      cases hu
  · next hpc =>
    rw [hpc] at hplace
    obtain ⟨howner, hzero⟩ := hplace
    cases hstep
    have hlist : (s.rwCond .reader).trytake.1.suspendThread = (s.rwCond .reader).suspendThread := by
      unfold CondSem.trytake
      split_ifs <;> rfl
    have hvalue := h.setValue hlist fun hpos => ?_
    · refine hvalue.goOn howner (by simp [setCond, hpc, Pc.waits]) (by simp [setCond, hpc]) rfl rfl rfl
        h.counted ⟨howner, hzero, fun htaken => ?_⟩ (by simp [Pc.waits])
        (fun _ hne => absurd (h.list_nil hzero) hne) fun _ _ => .inl trivial
      change ((s.setCond .reader (s.rwCond .reader).trytake.1).rwCond .reader).suspendThread = []
      rw [setCond_self, hlist]
      refine h.empty .reader ?_
      by_contra hvalue
      rw [CondSem.trytake, if_neg hvalue] at htaken
      cases htaken
    · rw [hlist]
      refine h.empty .reader ?_
      by_contra hvalue
      rw [CondSem.trytake, if_neg hvalue] at hpos
      exact hvalue hpos
  · next taken hpc =>
    rw [hpc] at hplace
    obtain ⟨howner, hzero, hempty⟩ := hplace
    cases hstep
    have hrelease := h.release .reader
    have hsame : (s.release .reader).pc t = .releases taken :=
      (h.release_pc .reader (by simp [hpc])).trans hpc
    have hwriters : ((s.release .reader).rwCond .writer).suspendThread = [] :=
      hrelease.list_nil ((congrFun (release_rwNwait ..) _).trans hzero)
    cases taken with
    | false =>
      exact hrelease.goOn ((release_owner ..).trans howner) (by simp [hsame, Pc.waits]) (by simp [hsame])
        rfl rfl rfl hrelease.counted
        ⟨(release_owner ..).trans howner, (congrFun (release_rwNwait ..) _).trans hzero⟩
        (by simp [Pc.waits]) (fun _ hne => absurd hwriters hne) fun _ _ => .inl trivial
    | true =>
      refine hrelease.goOn ((release_owner ..).trans howner) (by simp [hsame, Pc.waits]) (by simp [hsame])
        rfl rfl rfl hrelease.counted trivial (by simp [Pc.waits]) (fun _ hne => absurd hwriters hne)
        fun _ ⟨side, hne⟩ => absurd ?_ hne
      cases side with
      | writer => exact hwriters
      | reader =>
        obtain ⟨heq, hnil⟩ := release_of_nil (hempty rfl)
        rw [heq, setCond_self]
        exact hnil
  all_goals cases hstep

theorem Sound.relock (h : Sound s) (hcareful : s.Careful (.relock t)) (hrelock : s.relock t = some s') :
    Sound s' := by
  unfold Rwlock.relock at hrelock
  split at hrelock
  · next side timed err hpc =>
    obtain ⟨howner, heq⟩ := ite_none_right_eq_some.mp hrelock
    have hout : ∀ u, ¬ (s.pc u).InMutex := fun u => h.outside (by simp [howner])
    have hpos : 0 < s.rwNwait side := by
      rw [h.nwait]
      exact count_pos (t := t) (by simp [hpc, Pc.waits])
    have hnot : ∀ side timed timer, s.pc t ≠ .suspended side timed timer := by simp [hpc]
    have hnwait : ∀ side', (s.setNwait side (s.rwNwait side - 1)).rwNwait side' +
        (if (s.pc t).waits side' then 1 else 0) = s.rwNwait side' := by
      intro side'
      by_cases hside : side' = side
      · subst hside
        simp [setNwait, hpc, Pc.waits]
        omega
      · simp [setNwait, hpc, Pc.waits, update_of_ne hside, Ne.symm hside]
    have hpromised : ∀ v, (s.pc v).Promises → (side = .writer ∧ err = .eok) ∨ v ≠ t := by
      intro v hv
      by_cases hvt : v = t
      · rw [hvt, hpc] at hv
        exact .inl hv
      · exact .inr hvt
    split_ifs at heq with herr
    · cases heq
      refine h.change rfl rfl (fun u _ => (h.place u).of_outside (hout u) fun _ => id)
        (fun side' u hu => .inl ⟨h.not_mem hnot hu, hu⟩) h.nodup h.empty h.counted hnwait
        (fun hzero hne => ?_) fun _ _ => .inl trivial
      obtain ⟨v, hv⟩ := h.promised hzero hne
      rcases hpromised v hv with ⟨hside, -⟩ | hvt
      · exact .inl hside
      · exact .inr ⟨v, hvt, hv⟩
    · cases heq
      refine h.change rfl trivial (fun u _ => (h.place u).of_outside (hout u) fun _ => id)
        (fun side' u hu => .inl ⟨h.not_mem hnot hu, hu⟩) h.nodup h.empty h.counted hnwait
        (fun hzero hne => ?_) fun hzero ⟨side', hne⟩ => ?_
      · obtain ⟨v, hv⟩ := h.promised hzero hne
        rcases hpromised v hv with ⟨-, hok⟩ | hvt
        · exact absurd hok herr
        · exact .inr ⟨v, hvt, hv⟩
      · unfold Careful at hcareful
        dsimp only at hcareful
        rw [hpc] at hcareful
        rcases hcareful herr hzero with hnil | ⟨u, hut, side', timed', err', hu⟩
        · exact absurd (hnil side') hne
        · exact .inr ⟨u, hut, by rw [hu]; trivial⟩
  · cases hrelock

omit [Fintype τ] in
theorem giveBack_frame (s : Rwlock τ) (t : τ) : (s.giveBack t).pc = s.pc ∧
    (s.giveBack t).rwCond = s.rwCond ∧ (s.giveBack t).rwNwait = s.rwNwait := by
  unfold giveBack
  split_ifs <;> exact ⟨rfl, rfl, rfl⟩

theorem Sound.giveBack (h : Sound s) (hholds : t ∈ s.readers ∨ s.writer = some t) :
    (s.giveBack t).Counted := by
  unfold Rwlock.giveBack
  rcases h.counted with ⟨hwriter, hcount⟩ | ⟨hwriter, hreaders, hone⟩
  · have hin : t ∈ s.readers := hholds.resolve_right (by simp [hwriter])
    have hlen := length_erase_of_mem hin
    have hpos := length_pos_of_mem hin
    rw [if_pos (by omega)]
    refine .inl ⟨hwriter, ?_⟩
    change s.rwRefcount - 1 = ((s.readers.erase t).length : Int)
    omega
  · rw [if_neg (by omega), if_pos hone]
    refine .inl ⟨rfl, ?_⟩
    rw [hreaders]
    rfl

theorem Sound.unlock (h : Sound s) (hunlock : s.unlock t = some s') : Sound s' := by
  obtain ⟨⟨howner, hpc, hholds⟩, heq⟩ := ite_none_right_eq_some.mp hunlock
  obtain ⟨hpcs, hcond, hnwait⟩ := giveBack_frame s t
  have hcounted := h.giveBack hholds
  have hout : ∀ u, ¬ (s.pc u).InMutex := fun u => h.outside (by simp [howner])
  have hnot : ∀ side timed timer, s.pc t ≠ .suspended side timed timer := by simp [hpc]
  dsimp only at heq
  rw [hcond, hnwait] at heq
  split_ifs at heq with hwriters hzero hlist hreaders
  · cases heq
    refine h.recount howner hpcs hcond hnwait hcounted (fun _ hne => absurd hlist hne) fun _ _ => ?_
    obtain ⟨u, side, timed, err, hu⟩ := h.exists_runs hwriters hlist
    exact ⟨u, by rw [hu]; trivial⟩
  · cases heq
    refine h.change (congrArg (update · t _) hpcs) ⟨rfl, ?_⟩
      (fun u _ => (h.place u).of_outside (hout u) fun side hin => hcond ▸ hin) (fun side u hu => ?_)
      (hcond ▸ h.nodup) (hcond ▸ h.empty) hcounted (fun side => ?_) (fun _ _ => .inl trivial)
      fun _ _ => .inl trivial
    · exact hnwait ▸ hwriters
    · have hin : u ∈ (s.rwCond side).suspendThread := hcond ▸ hu
      exact .inl ⟨h.not_mem hnot hin, hin⟩
    · change (s.giveBack t).rwNwait side + _ = _
      rw [hnwait]
      simp [hpc, Pc.waits]
  · cases heq
    exact h.recount howner hpcs hcond hnwait hcounted (fun hzero' => absurd hzero' hzero)
      fun hzero' => absurd hzero' hzero
  · cases heq
    refine h.change (congrArg (update · t _) hpcs) ⟨rfl, ?_⟩
      (fun u _ => (h.place u).of_outside (hout u) fun side hin => hcond ▸ hin) (fun side u hu => ?_)
      (hcond ▸ h.nodup) (hcond ▸ h.empty) hcounted (fun side => ?_) (fun _ hne => ?_)
      fun _ _ => .inl trivial
    · change (s.giveBack t).rwNwait .writer = 0
      rw [hnwait]
      omega
    · have hin : u ∈ (s.rwCond side).suspendThread := hcond ▸ hu
      exact .inl ⟨h.not_mem hnot hin, hin⟩
    · change (s.giveBack t).rwNwait side + _ = _
      rw [hnwait]
      simp [hpc, Pc.waits]
    · have hnil : (s.rwCond .writer).suspendThread = [] := h.list_nil (by omega)
      exact absurd (hcond ▸ hnil) hne
  · cases heq
    have hnil : ∀ side, (s.rwCond side).suspendThread = [] := fun side => by
      refine h.list_nil ?_
      cases side <;> omega
    exact h.recount howner hpcs hcond hnwait hcounted (fun _ hne => absurd (hnil .writer) hne)
      fun _ ⟨side, hne⟩ => absurd (hnil side) hne

theorem Sound.exec {a : Act τ} (h : Sound s) (hcareful : s.Careful a) (hexec : s.exec a = some s') :
    Sound s' := by
  cases a with
  | lock t side timed => exact h.lock hexec
  | trylock t side => exact h.trylock hexec
  | look t timeout => exact h.look hexec
  | timeout t => exact h.timeout hexec
  | relock t => exact h.relock hcareful hexec
  | unlock t => exact h.unlock hexec
  | step t => exact h.step hexec

omit [DecidableEq τ] in
theorem Sound.kept (h : Sound s) : Kept s := by
  refine ⟨fun hwriter => ?_, ⟨fun hone => ?_, fun hwriter => ?_⟩, h.nwait, fun howner hnone hzero t side timed timer hpc => ?_⟩
  · rcases h.counted with ⟨-, hcount⟩ | ⟨hne, -⟩
    · exact hcount
    · exact absurd hwriter hne
  · rcases h.counted with ⟨-, hcount⟩ | ⟨hne, -⟩
    · omega
    · exact hne
  · rcases h.counted with ⟨heq, -⟩ | ⟨-, -, hone⟩
    · exact absurd heq hwriter
    · exact hone
  · obtain ⟨u, hu⟩ := h.goes hzero ⟨side, ne_nil_of_mem (h.mem_iff.mpr ⟨timed, timer, hpc⟩)⟩
    exact hnone u (h.runs (by simp [howner]) hu)

omit [DecidableEq τ] in
theorem Initial.sound (h : Initial s) : Sound s := by
  obtain ⟨hzero, hsides, howner, hpc, hreaders, hwriter⟩ := h
  refine ⟨fun t => by rw [hpc]; trivial, fun side t ht => ?_, fun side => ?_, fun side _ => (hsides side).2.2,
    .inl ⟨hwriter, by rw [hzero, hreaders]; rfl⟩, fun side => ?_, fun _ hne => ?_, fun _ ⟨side, hne⟩ => ?_⟩
  · rw [(hsides side).2.2] at ht
    cases ht
  · rw [(hsides side).2.2]
    exact nodup_nil
  · rw [(hsides side).1, count_eq_zero]
    simp [hpc, Pc.waits]
  · exact absurd (hsides .writer).2.2 hne
  · exact absurd (hsides side).2.2 hne

/-- A step against the condition leaves somebody waiting for a free lock. -/
theorem Sound.not_kept (h : Sound s) (hcareful : ¬ s.Careful (.relock t)) (hrelock : s.relock t = some s') :
    ¬ Kept s' := by
  intro hkept
  unfold Rwlock.relock at hrelock
  unfold Careful at hcareful
  dsimp only at hcareful
  split at hrelock
  · next side timed err hpc =>
    rw [hpc] at hcareful
    simp only [not_forall, not_or, not_exists] at hcareful
    obtain ⟨herr, hzero, ⟨side', hlist⟩, hnone⟩ := hcareful
    obtain ⟨-, heq⟩ := ite_none_right_eq_some.mp hrelock
    dsimp only at heq
    rw [if_neg herr] at heq
    cases heq
    obtain ⟨u, hu⟩ := exists_mem_of_ne_nil _ hlist
    obtain ⟨timed', timer', hpcu⟩ := h.listed side' u hu
    have hut : u ≠ t := h.not_mem (by simp [hpc]) hu
    refine hkept.settled rfl (fun v ⟨side, timed, err, hv⟩ => ?_) hzero u side' timed' timer'
      ((setPc_of_ne hut).trans hpcu)
    by_cases hvt : v = t
    · rw [hvt, ret, setPc_self] at hv
      cases hv
    · rw [ret, setPc_of_ne hvt] at hv
      exact hnone v ⟨hvt, side, timed, err, hv⟩
  · cases hrelock

/-- While no call that has timed out returns and leaves a free lock to those suspended alone, the counts
are right and nobody is left waiting for a free lock; and a step keeps that just where it meets the
condition. -/
theorem reachable_countsKept (s : Rwlock τ)
    (h : Reachable Initial (Within (fun s a s' => s.exec a = some s') Careful) s) :
    Kept s ∧ ∀ a s', s.exec a = some s' → (Kept s' ↔ s.Careful a) := by
  have hsound : Sound s :=
    h.inductWithin (·.sound) (·.exec)
  refine ⟨hsound.kept, fun a s' hexec => ⟨fun hkept => ?_, fun hcareful => (hsound.exec hcareful hexec).kept⟩⟩
  cases a with
  | relock t =>
    by_contra hcareful
    exact hsound.not_kept hcareful hexec hkept
  | lock t side timed | trylock t side | look t timeout | timeout t | unlock t | step t => trivial

instance decidableRuns (s : Rwlock τ) (t : τ) : Decidable (s.Runs t) :=
  match hpc : s.pc t with
  | .resumed side timed err => .isTrue ⟨side, timed, err, hpc⟩
  | .idle | .looks .. | .suspended .. | .signals | .broadcasts | .releases _ =>
    .isFalse (by simp [Runs, hpc])

instance decidableCareful (s : Rwlock τ) (a : Act τ) : Decidable (s.Careful a) :=
  match a with
  | .relock t =>
    match hpc : s.pc t with
    | .resumed _ _ err =>
      decidable_of_iff (err ≠ .eok → s.rwRefcount = 0 →
        ((s.rwCond .reader).suspendThread = [] ∧ (s.rwCond .writer).suspendThread = []) ∨
          ∃ u, u ≠ t ∧ s.Runs u) (by
        simp only [Careful, hpc]
        refine imp_congr_right fun _ => imp_congr_right fun _ => or_congr_left ?_
        exact ⟨fun h side => by cases side with | reader => exact h.1 | writer => exact h.2,
          fun h => ⟨h .reader, h .writer⟩⟩)
    | .idle | .looks .. | .suspended .. | .signals | .broadcasts | .releases _ =>
      .isTrue (by simp [Careful, hpc])
  | .lock .. | .trylock .. | .look .. | .timeout _ | .unlock _ | .step _ => .isTrue trivial

/-- A new lock. -/
def rwlock3 : Rwlock (Fin 3) where
  rwRefcount := 0
  rwNwait := fun _ => 0
  rwCond := fun _ => { value := 0, suspendThread := [] }
  owner := none
  pc := fun _ => .idle
  readers := []
  writer := none

theorem rwlock3_initial : Initial rwlock3 := ⟨rfl, fun _ => ⟨rfl, rfl, rfl⟩, rfl, fun _ => rfl, rfl, rfl⟩

/-- A reader holds the lock, a writer waits for it with a timeout, and so does another reader. -/
def contended : List (Act (Fin 3)) :=
  [.lock 0 .reader false, .look 0 0, .lock 1 .writer true, .look 1 5, .lock 2 .reader false, .look 2 0]

/-- The writer is signalled, takes the lock and gives it to the reader that waits. -/
theorem reachable_countsKept_contended : ∃ s : Rwlock (Fin 3), s.rwRefcount = 1 ∧ s.readers = [2] ∧
    (Kept s ∧ ∀ a s', s.exec a = some s' → (Kept s' ↔ s.Careful a)) := by
  have hrun : ∃ s ∈ runWithin exec Careful rwlock3 (contended ++ ([.unlock 0, .step 0, .relock 1,
      .look 1 3, .unlock 1, .step 1, .step 1, .step 1, .step 1, .step 1, .step 1, .relock 2,
      .look 2 0] : List (Act (Fin 3)))),
      s.rwRefcount = 1 ∧ s.readers = [2] := by decide +kernel
  obtain ⟨s, hs, heq⟩ := Reachable.of_runWithin rwlock3_initial hrun
  exact ⟨s, heq.1, heq.2, reachable_countsKept s hs⟩

/-- The writer times out, but is still counted where the lock is given back: the signal is for the writers,
and the reader waits on. -/
theorem absorbed_not_kept : ∃ s : Rwlock (Fin 3), Reachable Initial (fun s a s' => exec s a = some s') s ∧
    s.owner = none ∧ (∀ t, ¬ s.Runs t) ∧ s.rwRefcount = 0 ∧ s.pc 2 = .suspended .reader false false ∧
      ¬ Kept s := by
  have hrun : ∃ s ∈ runAll exec rwlock3 (contended ++ ([.timeout 1, .unlock 0,
      .relock 1] : List (Act (Fin 3)))),
      s.owner = none ∧ (∀ t, ¬ s.Runs t) ∧ s.rwRefcount = 0 ∧
      s.pc 2 = .suspended .reader false false := by decide +kernel
  obtain ⟨s, hs, howner, hnone, hzero, hpc⟩ := Reachable.of_runAll rwlock3_initial hrun
  exact ⟨s, hs, howner, hnone, hzero, hpc,
    fun hkept => hkept.settled howner hnone hzero 2 .reader false false hpc⟩

end Rwlock

end RtKernel.Pthread

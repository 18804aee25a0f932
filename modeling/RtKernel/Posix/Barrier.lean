import RtKernel.Core.Leads
import RtKernel.Posix.Cond

/-!
# Barriers

`pthread_barrier_wait` counts down to zero under the mutex of the barrier. Who comes last wakes
those that wait on its condition variable. What runs with interrupts disabled is one step. A mutex
that is free may be taken by any of those that want it.
-/

namespace RtKernel.Pthread

namespace Barrier

/-- `EINVAL`. -/
def einval : Int := 22

/-- Where a thread is. -/
inductive Pc
  /-- Not in `pthread_barrier_wait`. -/
  | idle
  /-- In `pthread_mutex_lock`. -/
  | locking
  /-- It has the mutex and is to look at the count. -/
  | enters
  /-- It has called `pthread_cond_wait`. -/
  | waits
  | suspended
  /-- It has been woken and has to lock the mutex again. -/
  | resumed
  /-- `pthread_cond_broadcast` tries to take the semaphore. -/
  | broadcasts
  /-- It is to release the semaphore, which it has taken or not. -/
  | releases (taken : Bool)
  /-- It is to unlock the mutex, and return. -/
  | unlocks (result : Int)
  deriving DecidableEq

/-- It has the mutex. -/
def Pc.holds : Pc → Bool
  | enters | waits | broadcasts | releases _ | unlocks _ => true
  | idle | locking | suspended | resumed => false

end Barrier

open Barrier Function List

/-- `pthread_barrier_t`, the threads, how often each of them has called, and what was returned. -/
structure Barrier (τ : Type*) where
  count : Nat
  sem : CondSem τ
  /-- `owner` of the mutex. -/
  owner : Option τ
  pc : τ → Pc
  calls : τ → Nat
  results : τ → List Int

namespace Barrier

variable {τ : Type*}

/-- What may happen. -/
inductive Act (τ : Type*)
  /-- A thread calls `pthread_barrier_wait`. -/
  | call (t : τ)
  /-- A thread goes on. -/
  | step (t : τ)

variable [DecidableEq τ]

def setPc (s : Barrier τ) (t : τ) (pc : Pc) : Barrier τ :=
  { s with pc := update s.pc t pc }

def call (s : Barrier τ) (t : τ) : Option (Barrier τ) :=
  if s.pc t = .idle then
    some (setPc { s with calls := update s.calls t (s.calls t + 1) } t .locking)
  else none

/-- `pthread_mutex_lock`. -/
def lock (s : Barrier τ) (t : τ) (pc : Pc) : Option (Barrier τ) :=
  if s.owner = none then some (setPc { s with owner := some t } t pc) else none

/-- The count is looked at, and taken down. -/
def enter (s : Barrier τ) (t : τ) : Barrier τ :=
  if s.count = 0 then s.setPc t (.unlocks einval)
  else
    setPc { s with count := s.count - 1 } t (if s.count - 1 = 0 then .broadcasts else .waits)

/-- `pthread_cond_wait` up to `rt_schedule`. -/
def condWait (s : Barrier τ) (t : τ) : Barrier τ :=
  if 0 < s.sem.value then
    setPc { s with sem := { s.sem with value := s.sem.value - 1 } } t (.unlocks 0)
  else setPc { s with sem := s.sem.suspend t, owner := none } t .suspended

/-- `rt_sem_release`. -/
def release (s : Barrier τ) : Barrier τ :=
  match s.sem.release with
  | (sem, some u) => setPc { s with sem := sem } u .resumed
  | (sem, none) => { s with sem := sem }

/-- `pthread_mutex_unlock`, and the result. -/
def unlock (s : Barrier τ) (t : τ) (result : Int) : Barrier τ :=
  setPc { s with
    owner := none
    results := update s.results t (s.results t ++ [result]) } t .idle

def step (s : Barrier τ) (t : τ) : Option (Barrier τ) :=
  match s.pc t with
  | .idle | .suspended => none
  | .locking => s.lock t .enters
  | .enters => some (s.enter t)
  | .waits => some (s.condWait t)
  | .resumed => s.lock t (.unlocks 0)
  | .broadcasts =>
    some (setPc { s with sem := s.sem.trytake.1 } t (.releases s.sem.trytake.2))
  | .releases taken => some (s.release.setPc t (if taken then .unlocks 0 else .broadcasts))
  | .unlocks result => some (s.unlock t result)

def exec (s : Barrier τ) : Act τ → Option (Barrier τ)
  | .call t => s.call t
  | .step t => s.step t

/-- A barrier that is as many threads' as there are. -/
def Initial [Fintype τ] (s : Barrier τ) : Prop :=
  s.count = Fintype.card τ ∧ s.sem.value = 0 ∧ s.sem.suspendThread = [] ∧ s.owner = none ∧
    ∀ t, s.pc t = .idle ∧ s.calls t = 0 ∧ s.results t = []

/-- What a barrier is for: no call of a round returns before every thread has called in it, none
returns an error, and when all have called all return. -/
structure Kept (next : Barrier τ → Act τ → Barrier τ → Prop) (s : Barrier τ) : Prop where
  waits : ∀ t u, (s.results t).length ≤ s.calls u
  succeeds : ∀ t, ∀ result ∈ s.results t, result = 0
  returns : ∀ round, (∀ u, round ≤ s.calls u) →
    Leads next (fun s => ∀ t, round ≤ (s.results t).length) s

/-- There is no second round. -/
def Once (s : Barrier τ) : Act τ → Prop
  | .call t => s.calls t = 0
  | .step _ => True

instance (s : Barrier τ) (a : Act τ) : Decidable (s.Once a) :=
  match a with
  | .call t => inferInstanceAs (Decidable (s.calls t = 0))
  | .step _ => inferInstanceAs (Decidable True)

section

variable {s s' : Barrier τ} {t u : τ} {pc : Pc}

/-- A thread that has not counted yet. -/
def Outside (s : Barrier τ) (t : τ) : Prop :=
  match s.pc t with
  | .idle => s.calls t = 0
  | .locking | .enters => True
  | _ => False

instance (s : Barrier τ) : DecidablePred s.Outside := fun t => by
  unfold Outside
  split <;> infer_instance

/-- It is in `pthread_cond_broadcast`. -/
def Pc.wakes : Pc → Bool
  | .broadcasts | .releases _ => true
  | _ => false

/-- A thread is in its first call. -/
def Called (s : Barrier τ) (t : τ) : Prop := s.calls t = 1 ∧ s.results t = []

/-- What holds where a thread is. -/
def At (s : Barrier τ) (t : τ) : Pc → Prop
  | .idle => s.calls t = 0 ∧ s.results t = [] ∨ s.calls t = 1 ∧ s.results t = [0] ∧ s.count = 0
  | .locking | .enters | .suspended => s.Called t
  | .waits => s.Called t ∧ 0 < s.count
  | .resumed => s.Called t ∧ s.count = 0
  | .broadcasts => s.Called t ∧ s.count = 0 ∧ s.sem.value ≤ 1
  | .releases taken => s.Called t ∧ s.count = 0 ∧ s.sem.value = 0 ∧
      (taken = true → s.sem.suspendThread = [])
  | .unlocks result => s.Called t ∧ s.count = 0 ∧ result = 0

structure Sound [Fintype τ] (s : Barrier τ) : Prop where
  owner : ∀ t, s.owner = some t ↔ (s.pc t).holds = true
  place : ∀ t, At s t (s.pc t)
  nodup : s.sem.suspendThread.Nodup
  mem : ∀ t, t ∈ s.sem.suspendThread ↔ s.pc t = .suspended
  counted : s.count = RtKernel.count s.Outside
  fresh : 0 < s.count → s.sem.value = 0
  quiet : 0 < s.sem.value → s.sem.suspendThread = []
  /-- Where all have counted, only a broadcast may still find a waiter. -/
  left : s.count = 0 → s.sem.suspendThread = [] ∨ ∃ t, (s.pc t).wakes = true

omit [DecidableEq τ] in
theorem At.congr (h : At s t pc) (hcalls : s'.calls t = s.calls t)
    (hresults : s'.results t = s.results t) (hcount : s'.count = s.count)
    (hsem : pc.holds = true → s'.sem = s.sem) : At s' t pc := by
  cases pc with
  | idle =>
    unfold At at *
    rwa [hcalls, hresults, hcount]
  | locking | enters | suspended =>
    unfold At Called at *
    rwa [hcalls, hresults]
  | waits | resumed | unlocks result =>
    unfold At Called at *
    rwa [hcalls, hresults, hcount]
  | broadcasts | releases taken =>
    unfold At Called at *
    rwa [hcalls, hresults, hcount, hsem rfl]

omit [DecidableEq τ] in
/-- While not all have counted, no one has gone on. -/
theorem At.early (h : At s t pc) (hholds : pc.holds = false) (hpos : 0 < s.count)
    (hcalls : s'.calls t = s.calls t) (hresults : s'.results t = s.results t) : At s' t pc := by
  cases pc with
  | idle =>
    unfold At at *
    rw [hcalls, hresults]
    rcases h with h | h
    · exact .inl h
    · exact absurd h.2.2 (Nat.ne_of_gt hpos)
  | locking | suspended =>
    unfold At Called at *
    rw [hcalls, hresults]
    exact h
  | resumed => exact absurd h.2 (Nat.ne_of_gt hpos)
  | enters | waits | broadcasts | releases taken | unlocks result => cases hholds

theorem setPc_pc (s : Barrier τ) (t : τ) (pc : Pc) : (s.setPc t pc).pc = update s.pc t pc := rfl

theorem at_update {P : τ → Pc → Prop} (ht : P t pc) (ho : ∀ u ≠ t, P u (s.pc u)) :
    ∀ u, P u (update s.pc t pc u) := by
  intro u
  by_cases hu : u = t
  · subst hu
    rw [update_self]
    exact ht
  · rw [update_of_ne hu]
    exact ho u hu

variable [Fintype τ]

section

variable (h : Sound s)
include h

omit [DecidableEq τ] in
theorem Sound.at_pc (hpc : s.pc t = pc) : At s t pc := hpc ▸ h.place t

omit [DecidableEq τ] in
theorem Sound.others (ht : (s.pc t).holds = true) (hu : u ≠ t) : (s.pc u).holds = false := by
  by_contra hno
  have howner := (h.owner t).mpr ht
  rw [(h.owner u).mpr (Bool.eq_true_of_not_eq_false hno)] at howner
  exact hu (Option.some.inj howner)

/-- A thread moves, and another owner of the mutex is this thread or none. -/
theorem Sound.owner_update {owner : Option τ}
    (ht : owner = some t ↔ pc.holds = true) (ho : ∀ u ≠ t, owner = some u ↔ s.owner = some u) :
    ∀ u, owner = some u ↔ (update s.pc t pc u).holds = true := by
  intro u
  by_cases hu : u = t
  · subst hu
    rw [update_self]
    exact ht
  · rw [update_of_ne hu]
    exact (ho u hu).trans (h.owner u)

theorem Sound.mem_update (hbefore : s.pc t ≠ .suspended) (hafter : pc ≠ .suspended) :
    ∀ u, u ∈ s.sem.suspendThread ↔ update s.pc t pc u = .suspended := by
  intro u
  by_cases hu : u = t
  · subst hu
    rw [update_self]
    exact ⟨fun hin => absurd ((h.mem u).mp hin) hbefore, fun heq => absurd heq hafter⟩
  · rw [update_of_ne hu]
    exact h.mem u

/-- A step that neither counts nor has to do with the semaphore. -/
theorem Sound.move (hsem : s'.sem = s.sem) (hcount : s'.count = s.count)
    (hpc : s'.pc = update s.pc t pc) (hcalls : ∀ u ≠ t, s'.calls u = s.calls u)
    (hresults : ∀ u ≠ t, s'.results u = s.results u) (ht : s'.owner = some t ↔ pc.holds = true)
    (ho : ∀ u ≠ t, s'.owner = some u ↔ s.owner = some u) (hbefore : s.pc t ≠ .suspended)
    (hafter : pc ≠ .suspended) (hout : s'.Outside t ↔ s.Outside t)
    (hwakes : (s.pc t).wakes = false) (hat : At s' t pc) : Sound s' := by
  refine ⟨?_, ?_, ?_, ?_, ?_, ?_, ?_, ?_⟩
  · rw [hpc]
    exact h.owner_update ht ho
  · rw [hpc]
    exact at_update hat fun u hu =>
      (h.place u).congr (hcalls u hu) (hresults u hu) hcount fun _ => hsem
  · rw [hsem]
    exact h.nodup
  · rw [hsem, hpc]
    exact h.mem_update hbefore hafter
  · rw [hcount, h.counted]
    refine (count_congr fun u => ?_).symm
    by_cases hu : u = t
    · subst hu
      exact hout
    · unfold Outside
      rw [hpc, update_of_ne hu, hcalls u hu]
  · rw [hsem, hcount]
    exact h.fresh
  · rw [hsem]
    exact h.quiet
  · rw [hsem, hcount, hpc]
    intro hzero
    refine (h.left hzero).imp_right fun ⟨u, hu⟩ => ⟨u, ?_⟩
    have hne : u ≠ t := by
      rintro rfl
      rw [hwakes] at hu
      cases hu
    rwa [update_of_ne hne]

theorem Sound.call (honce : s.calls t = 0) (hcall : s.call t = some s') : Sound s' := by
  unfold Barrier.call at hcall
  split_ifs at hcall with hidle
  cases hcall
  have hplace := h.place t
  have howner := h.owner t
  rw [hidle] at hplace howner
  have hnew : s.results t = [] := by
    rcases hplace with hfresh | hdone
    · exact hfresh.2
    · exact absurd hdone.1 (by omega)
  have hcalls : (s.calls t + 1) = 1 := by rw [honce]
  refine h.move rfl rfl rfl (fun u hu => update_of_ne hu ..) (fun _ _ => rfl) howner
    (fun _ _ => Iff.rfl) (by rw [hidle]; decide) (by decide) ?_ (by rw [hidle]; rfl)
    ⟨(update_self ..).trans hcalls, hnew⟩
  unfold Outside
  rw [setPc_pc, update_self, hidle]
  exact ⟨fun _ => honce, fun _ => trivial⟩

theorem Sound.lock (hlock : s.lock t pc = some s')
    (hpc : s.pc t = .locking ∧ pc = .enters ∨ s.pc t = .resumed ∧ pc = .unlocks 0) : Sound s' := by
  have hplace := h.place t
  unfold Barrier.lock at hlock
  split_ifs at hlock with hfree
  cases hlock
  have hother : ∀ u ≠ t, some t = some u ↔ s.owner = some u := by
    intro u hu
    rw [hfree]
    exact iff_of_false (fun heq => hu (Option.some.inj heq).symm) nofun
  have hout : Outside (setPc { s with owner := some t } t pc) t ↔ s.Outside t := by
    unfold Outside
    rw [setPc_pc, update_self]
    rcases hpc with ⟨hpc, rfl⟩ | ⟨hpc, rfl⟩ <;> rw [hpc]
  rcases hpc with ⟨hpc, rfl⟩ | ⟨hpc, rfl⟩
  · rw [hpc] at hplace
    exact h.move rfl rfl rfl (fun _ _ => rfl) (fun _ _ => rfl) (iff_of_true rfl rfl) hother
      (by rw [hpc]; decide) (by decide) hout (by rw [hpc]; rfl) hplace
  · rw [hpc] at hplace
    exact h.move rfl rfl rfl (fun _ _ => rfl) (fun _ _ => rfl) (iff_of_true rfl rfl) hother
      (by rw [hpc]; decide) (by decide) hout (by rw [hpc]; rfl) ⟨hplace.1, hplace.2, rfl⟩

theorem Sound.enter (hpc : s.pc t = .enters) : Sound (s.enter t) := by
  have hplace := h.at_pc hpc
  have hholds : (s.pc t).holds = true := by rw [hpc]; rfl
  have howner := (h.owner t).mpr hholds
  have hin : s.Outside t := by
    unfold Outside
    rw [hpc]
    trivial
  have hpos : 0 < s.count := h.counted ▸ count_pos hin
  have hvalue := h.fresh hpos
  obtain ⟨next, hnext, hwaits, hat⟩ : ∃ next : Pc,
      s.enter t = setPc { s with count := s.count - 1 } t next ∧ next.holds = true ∧
        (s.count - 1 = 0 ∧ next = .broadcasts ∨ 0 < s.count - 1 ∧ next = .waits) := by
    unfold Barrier.enter
    rw [if_neg (Nat.ne_of_gt hpos)]
    by_cases hlast : s.count - 1 = 0
    · exact ⟨.broadcasts, by rw [if_pos hlast], rfl, .inl ⟨hlast, rfl⟩⟩
    · exact ⟨.waits, by rw [if_neg hlast], rfl, .inr ⟨Nat.pos_of_ne_zero hlast, rfl⟩⟩
  rw [hnext]
  refine ⟨?_, ?_, h.nodup, ?_, ?_, fun _ => hvalue, h.quiet, fun hzero => ?_⟩
  · exact h.owner_update ⟨fun _ => hwaits, fun _ => howner⟩ fun _ _ => Iff.rfl
  · refine at_update (P := fun u pc => At _ u pc) ?_ fun u hu =>
      (h.place u).early (h.others hholds hu) hpos rfl rfl
    rcases hat with ⟨hlast, rfl⟩ | ⟨hmore, rfl⟩
    · exact ⟨hplace, hlast, hvalue.trans_le (Nat.zero_le 1)⟩
    · exact ⟨hplace, hmore⟩
  · refine h.mem_update (by rw [hpc]; decide) ?_
    rintro rfl
    cases hwaits
  · have hout : ¬Outside (setPc { s with count := s.count - 1 } t next) t := by
      unfold Outside
      rw [setPc_pc, update_self]
      rcases hat with ⟨-, rfl⟩ | ⟨-, rfl⟩ <;> exact id
    have hchange := count_change (p := s.Outside)
      (q := Outside (setPc { s with count := s.count - 1 } t next)) t fun u hu => by
        unfold Outside
        rw [setPc_pc, update_of_ne hu]
        exact Iff.rfl
    rw [if_pos hin, if_neg hout, ← h.counted] at hchange
    exact Nat.sub_eq_of_eq_add hchange.symm
  · rcases hat with ⟨-, rfl⟩ | ⟨hmore, -⟩
    · refine .inr ⟨t, ?_⟩
      rw [setPc_pc, update_self]
      rfl
    · exact absurd hzero (Nat.ne_of_gt hmore)

theorem Sound.condWait (hpc : s.pc t = .waits) : Sound (s.condWait t) := by
  obtain ⟨hcalled, hpos⟩ := h.at_pc hpc
  have hholds : (s.pc t).holds = true := by rw [hpc]; rfl
  have howner := (h.owner t).mpr hholds
  have hvalue := h.fresh hpos
  unfold Barrier.condWait
  rw [if_neg (Nat.not_lt.mpr (Nat.le_of_eq hvalue))]
  have hnot : t ∉ s.sem.suspendThread := by
    rw [h.mem, hpc]
    decide
  refine ⟨?_, ?_, ?_, fun u => ?_, ?_, fun _ => hvalue,
    fun hno => absurd hvalue (Nat.ne_of_gt hno), fun hzero => ?_⟩
  · refine h.owner_update ⟨fun hno => (by cases hno), fun hno => (by cases hno)⟩ fun u hu => ?_
    rw [howner]
    exact ⟨fun hno => (by cases hno), fun heq => absurd (Option.some.inj heq).symm hu⟩
  · refine at_update (P := fun u pc => At _ u pc) hcalled fun u hu => ?_
    have hother := h.others hholds hu
    refine (h.place u).congr rfl rfl rfl fun hno => ?_
    rw [hother] at hno
    cases hno
  · exact nodup_append.mpr ⟨h.nodup, nodup_singleton t, fun u hu v hv heq =>
      hnot (mem_singleton.mp hv ▸ heq ▸ hu)⟩
  · change u ∈ s.sem.suspendThread ++ [t] ↔ update s.pc t .suspended u = .suspended
    rw [mem_append, mem_singleton]
    by_cases hu : u = t
    · subst hu
      rw [update_self]
      exact ⟨fun _ => rfl, fun _ => .inr rfl⟩
    · rw [update_of_ne hu, ← h.mem, or_iff_left hu]
  · refine h.counted.trans (count_congr fun u => ?_).symm
    unfold Outside
    rw [setPc_pc]
    by_cases hu : u = t
    · subst hu
      rw [update_self, hpc]
    · rw [update_of_ne hu]
      exact Iff.rfl
  · exact absurd hzero (Nat.ne_of_gt hpos)

/-- A thread that wakes goes on, with another semaphore. -/
theorem Sound.wake (hwakes : (s.pc t).wakes = true) {sem : CondSem τ}
    (hlist : sem.suspendThread = s.sem.suspendThread)
    (hlate : pc.wakes = true ∨ ∃ result, pc = .unlocks result)
    (hat : At (setPc { s with sem := sem } t pc) t pc)
    (hquiet : 0 < sem.value → sem.suspendThread = [])
    (hleft : pc.wakes = true ∨ sem.suspendThread = []) :
    Sound (setPc { s with sem := sem } t pc) := by
  have hbefore : (s.pc t).holds = true ∧ s.pc t ≠ .suspended ∧ s.count = 0 ∧ ¬s.Outside t := by
    have hplace := h.place t
    unfold Outside
    cases hpc : s.pc t with
    | broadcasts | releases taken =>
      rw [hpc] at hplace
      exact ⟨rfl, Pc.noConfusion, hplace.2.1, id⟩
    | idle | locking | enters | waits | suspended | resumed | unlocks result =>
      rw [hpc] at hwakes
      cases hwakes
  obtain ⟨hmutex, hnot, hzero, hinside⟩ := hbefore
  have hnext : pc.holds = true ∧ pc ≠ .suspended ∧
      ¬Outside (setPc { s with sem := sem } t pc) t := by
    unfold Outside
    rw [setPc_pc, update_self]
    cases pc with
    | broadcasts | releases taken | unlocks result => exact ⟨rfl, Pc.noConfusion, id⟩
    | idle | locking | enters | waits | suspended | resumed =>
      rcases hlate with hno | ⟨result, hno⟩ <;> cases hno
  obtain ⟨hholds, hafter, hcounted⟩ := hnext
  refine ⟨?_, ?_, hlist ▸ h.nodup, ?_, ?_, fun hpos => absurd hzero (Nat.ne_of_gt hpos), hquiet,
    fun _ => ?_⟩
  · exact h.owner_update ⟨fun _ => hholds, fun _ => (h.owner t).mpr hmutex⟩ fun _ _ => Iff.rfl
  · refine at_update (P := fun u pc => At _ u pc) hat fun u hu => ?_
    refine (h.place u).congr rfl rfl rfl fun hno => ?_
    rw [h.others hmutex hu] at hno
    cases hno
  · intro u
    change u ∈ sem.suspendThread ↔ _
    rw [hlist]
    exact h.mem_update hnot hafter u
  · refine h.counted.trans (count_congr fun u => ?_).symm
    by_cases hu : u = t
    · subst hu
      exact iff_of_false hcounted hinside
    · unfold Outside
      rw [setPc_pc, update_of_ne hu]
      exact Iff.rfl
  · rcases hleft with hagain | hnil
    · refine .inr ⟨t, ?_⟩
      rw [setPc_pc, update_self]
      exact hagain
    · exact .inl hnil

theorem Sound.broadcast (hpc : s.pc t = .broadcasts) :
    Sound (setPc { s with sem := s.sem.trytake.1 } t (.releases s.sem.trytake.2)) := by
  obtain ⟨hcalled, hzero, hvalue⟩ := h.at_pc hpc
  have hwakes : (s.pc t).wakes = true := by rw [hpc]; rfl
  unfold CondSem.trytake
  split_ifs with hpos
  · have hlist := h.quiet hpos
    exact h.wake hwakes rfl (.inl rfl)
      ⟨hcalled, hzero, Nat.sub_eq_zero_of_le hvalue, fun _ => hlist⟩ (fun _ => hlist) (.inl rfl)
  · exact h.wake hwakes rfl (.inl rfl)
      ⟨hcalled, hzero, Nat.eq_zero_of_not_pos hpos, nofun⟩ h.quiet (.inl rfl)

theorem Sound.resume (hpc : s.pc t = .releases false) {rest : List τ}
    (hlist : s.sem.suspendThread = u :: rest) :
    Sound (setPc (setPc { s with sem := { s.sem with suspendThread := rest } } u .resumed) t
      .broadcasts) := by
  obtain ⟨hcalled, hzero, hvalue, -⟩ := h.at_pc hpc
  have hholds : (s.pc t).holds = true := by rw [hpc]; rfl
  have hnodup := h.nodup
  rw [hlist, nodup_cons] at hnodup
  have hu : s.pc u = .suspended := (h.mem u).mp (by rw [hlist]; exact .head _)
  have hut : u ≠ t := by
    rintro rfl
    rw [hpc] at hu
    cases hu
  have hwaiter := h.place u
  rw [hu] at hwaiter
  have hpcs : ∀ v, update (update s.pc u .resumed) t .broadcasts v =
      if v = t then .broadcasts else if v = u then .resumed else s.pc v := by
    intro v
    rw [update_apply, update_apply]
  refine ⟨fun v => ?_, fun v => ?_, hnodup.2, fun v => ?_, ?_, fun hpos => absurd hzero
    (Nat.ne_of_gt hpos), fun hpos => absurd hvalue (Nat.ne_of_gt hpos), fun _ => .inr ⟨t, ?_⟩⟩
  · change s.owner = some v ↔
      (update (update s.pc u .resumed) t .broadcasts v).holds = true
    rw [hpcs, h.owner]
    split_ifs with hvt hvu
    · subst hvt
      exact iff_of_true hholds rfl
    · subst hvu
      rw [hu]
      exact Iff.rfl
    · exact Iff.rfl
  · change At _ v (update (update s.pc u .resumed) t .broadcasts v)
    rw [hpcs]
    split_ifs with hvt hvu
    · subst hvt
      exact ⟨hcalled, hzero, hvalue.trans_le (Nat.zero_le 1)⟩
    · subst hvu
      exact ⟨hwaiter, hzero⟩
    · refine (h.place v).congr rfl rfl rfl fun hno => ?_
      rw [h.others hholds hvt] at hno
      cases hno
  · change v ∈ rest ↔ update (update s.pc u .resumed) t .broadcasts v = .suspended
    have hmem := h.mem v
    rw [hlist, mem_cons] at hmem
    rw [hpcs]
    split_ifs with hvt hvu
    · subst hvt
      refine iff_of_false (fun hin => ?_) (by decide)
      rw [hpc] at hmem
      cases hmem.mp (.inr hin)
    · subst hvu
      exact iff_of_false hnodup.1 (by decide)
    · rw [← hmem, or_iff_right hvu]
  · refine h.counted.trans (count_congr fun v => ?_).symm
    change (match update (update s.pc u .resumed) t .broadcasts v with
      | .idle => s.calls v = 0
      | .locking | .enters => True
      | _ => False) ↔ s.Outside v
    unfold Outside
    rw [hpcs]
    split_ifs with hvt hvu
    · subst hvt
      rw [hpc]
    · subst hvu
      rw [hu]
    · exact Iff.rfl
  · change (update (update s.pc u .resumed) t .broadcasts t).wakes = true
    rw [update_self]
    rfl

theorem Sound.release {taken : Bool} (hpc : s.pc t = .releases taken) :
    Sound (s.release.setPc t (if taken then .unlocks 0 else .broadcasts)) := by
  obtain ⟨hcalled, hzero, hvalue, hempty⟩ := h.at_pc hpc
  have hwakes : (s.pc t).wakes = true := by rw [hpc]; rfl
  unfold Barrier.release
  cases hlist : s.sem.suspendThread with
  | cons u rest =>
    rw [CondSem.release_cons hlist]
    cases taken with
    | true =>
      rw [hempty rfl] at hlist
      cases hlist
    | false => exact h.resume hpc hlist
  | nil =>
    rw [CondSem.release_nil hlist hvalue]
    cases taken with
    | true =>
      exact h.wake hwakes rfl (.inr ⟨0, rfl⟩) ⟨hcalled, hzero, rfl⟩ (fun _ => hlist) (.inr hlist)
    | false =>
      exact h.wake hwakes rfl (.inl rfl) ⟨hcalled, hzero, Nat.le_refl 1⟩ (fun _ => hlist)
        (.inl rfl)

theorem Sound.unlock {result : Int} (hpc : s.pc t = .unlocks result) :
    Sound (s.unlock t result) := by
  obtain ⟨⟨hcalls, hresults⟩, hzero, rfl⟩ := h.at_pc hpc
  have howner := (h.owner t).mpr (by rw [hpc]; rfl)
  refine h.move rfl rfl rfl (fun _ _ => rfl) (fun u hu => update_of_ne hu ..)
    ⟨fun hno => (by cases hno), fun hno => (by cases hno)⟩ (fun u hu => ?_) (by rw [hpc]; decide)
    (by decide) ?_ (by rw [hpc]; rfl) (.inr ⟨hcalls, ?_, hzero⟩)
  · rw [howner]
    exact ⟨fun hno => (by cases hno), fun heq => absurd (Option.some.inj heq).symm hu⟩
  · unfold Outside
    rw [hpc]
    change (match update s.pc t .idle t with
      | .idle => s.calls t = 0
      | .locking | .enters => True
      | _ => False) ↔ False
    rw [update_self]
    refine iff_of_false (fun hno => ?_) id
    rw [hcalls] at hno
    cases hno
  · change update s.results t (s.results t ++ [0]) t = [0]
    rw [update_self, hresults, nil_append]

theorem Sound.step (hstep : s.step t = some s') : Sound s' := by
  unfold Barrier.step at hstep
  cases hpc : s.pc t with
  | idle | suspended =>
    rw [hpc] at hstep
    cases hstep
  | locking =>
    rw [hpc] at hstep
    exact h.lock hstep (.inl ⟨hpc, rfl⟩)
  | enters =>
    rw [hpc] at hstep
    cases hstep
    exact h.enter hpc
  | waits =>
    rw [hpc] at hstep
    cases hstep
    exact h.condWait hpc
  | resumed =>
    rw [hpc] at hstep
    exact h.lock hstep (.inr ⟨hpc, rfl⟩)
  | broadcasts =>
    rw [hpc] at hstep
    cases hstep
    exact h.broadcast hpc
  | releases taken =>
    rw [hpc] at hstep
    cases hstep
    exact h.release hpc
  | unlocks result =>
    rw [hpc] at hstep
    cases hstep
    exact h.unlock hpc

theorem Sound.exec {a : Act τ} (honce : s.Once a) (hexec : s.exec a = some s') : Sound s' := by
  cases a with
  | call t => exact h.call honce hexec
  | step t => exact h.step hexec

end

section

omit [DecidableEq τ]

theorem Initial.sound (h : Initial s) : Sound s := by
  obtain ⟨hcount, hvalue, hlist, howner, hidle⟩ := h
  refine ⟨fun t => ?_, fun t => ?_, ?_, fun t => ?_, ?_, fun _ => hvalue, fun _ => hlist,
    fun _ => .inl hlist⟩
  · rw [howner, (hidle t).1]
    exact iff_of_false nofun Bool.false_ne_true
  · rw [(hidle t).1]
    exact .inl (hidle t).2
  · rw [hlist]
    exact nodup_nil
  · rw [hlist, (hidle t).1]
    exact iff_of_false not_mem_nil (by decide)
  · rw [hcount, RtKernel.count, Finset.filter_true_of_mem, Finset.card_univ]
    intro t _
    unfold Outside
    rw [(hidle t).1]
    exact (hidle t).2.1

theorem Sound.called (h : Sound s) (hzero : s.count = 0) (t : τ) : s.calls t = 1 := by
  have hcounted : ¬s.Outside t := fun hout =>
    absurd (h.counted.symm.trans hzero) (Nat.ne_of_gt (count_pos hout))
  have hplace := h.place t
  unfold Outside at hcounted
  cases hpc : s.pc t with
  | idle =>
    rw [hpc] at hplace hcounted
    rcases hplace with hfresh | hdone
    · exact absurd hfresh.1 hcounted
    · exact hdone.1
  | locking | enters =>
    rw [hpc] at hcounted
    exact absurd trivial hcounted
  | suspended =>
    rw [hpc] at hplace
    exact hplace.1
  | waits | resumed | broadcasts | releases taken | unlocks result =>
    rw [hpc] at hplace
    exact hplace.1.1

/-- A thread has returned nothing yet, or once without an error. -/
theorem Sound.results (h : Sound s) (t : τ) :
    s.calls t ≤ 1 ∧ (s.results t = [] ∨ s.results t = [0] ∧ s.count = 0) := by
  have hplace := h.place t
  cases hpc : s.pc t with
  | idle =>
    rw [hpc] at hplace
    rcases hplace with ⟨hcalls, hresults⟩ | ⟨hcalls, hresults⟩
    · exact ⟨hcalls.trans_le (Nat.zero_le 1), .inl hresults⟩
    · exact ⟨Nat.le_of_eq hcalls, .inr hresults⟩
  | locking | enters | suspended =>
    rw [hpc] at hplace
    exact ⟨Nat.le_of_eq hplace.1, .inl hplace.2⟩
  | waits | resumed | broadcasts | releases taken | unlocks result =>
    rw [hpc] at hplace
    exact ⟨Nat.le_of_eq hplace.1.1, .inl hplace.1.2⟩

end

/-- Where all have called and not all have returned, some thread can go on. -/
theorem Sound.progress (h : Sound s) (hcalls : ∀ t, s.calls t = 1)
    (hleft : ¬∀ t, 1 ≤ (s.results t).length) : ∃ t s', s.step t = some s' := by
  cases howner : s.owner with
  | some t =>
    have hholds := (h.owner t).mp howner
    refine ⟨t, ?_⟩
    unfold Barrier.step
    cases hpc : s.pc t with
    | idle | locking | suspended | resumed =>
      rw [hpc] at hholds
      cases hholds
    | enters | waits | broadcasts | releases taken | unlocks result => exact ⟨_, rfl⟩
  | none =>
    have hlock : ∀ {t : τ}, s.pc t = .locking ∨ s.pc t = .resumed → ∃ t s', s.step t = some s' := by
      intro t hpc
      refine ⟨t, ?_⟩
      unfold Barrier.step Barrier.lock
      rcases hpc with hpc | hpc <;> rw [hpc, howner] <;> exact ⟨_, rfl⟩
    by_contra hstuck
    have hparked : ∀ t, s.pc t = .idle ∨ s.pc t = .suspended := by
      intro t
      have hholds : (s.pc t).holds = false := by
        by_contra hno
        have hown := (h.owner t).mpr (Bool.eq_true_of_not_eq_false hno)
        rw [howner] at hown
        cases hown
      cases hpc : s.pc t with
      | idle => exact .inl rfl
      | suspended => exact .inr rfl
      | locking => exact absurd (hlock (.inl hpc)) hstuck
      | resumed => exact absurd (hlock (.inr hpc)) hstuck
      | enters | waits | broadcasts | releases taken | unlocks result =>
        rw [hpc] at hholds
        cases hholds
    have hzero : s.count = 0 := by
      rw [h.counted]
      refine count_eq_zero fun t hout => ?_
      unfold Outside at hout
      rcases hparked t with hpc | hpc
      · rw [hpc] at hout
        have hcall := hcalls t
        rw [show s.calls t = 0 from hout] at hcall
        cases hcall
      · rw [hpc] at hout
        exact hout
    refine hleft fun t => ?_
    rcases h.left hzero with hnil | ⟨u, hu⟩
    · have hpc : s.pc t = .idle := by
        refine (hparked t).resolve_right fun hpc => ?_
        have hin := (h.mem t).mpr hpc
        rw [hnil] at hin
        cases hin
      have hplace := h.at_pc hpc
      rcases hplace with hfresh | hdone
      · have hcall := hcalls t
        rw [hfresh.1] at hcall
        cases hcall
      · rw [hdone.2.1]
        exact Nat.le_refl 1
    · rcases hparked u with hpc | hpc <;> rw [hpc] at hu <;> cases hu

/-- How far a thread is from the end. -/
def Pc.rank : Pc → Nat
  | .locking => 20
  | .enters => 19
  | .waits => 18
  | .suspended => 17
  | .broadcasts => 12
  | .releases false => 11
  | .releases true => 9
  | .resumed => 5
  | .unlocks _ => 1
  | .idle => 0

/-- A broadcast that has nothing to take needs one more pass. -/
def toGo (s : Barrier τ) : Nat := ∑ t, (s.pc t).rank + if s.sem.value = 0 then 2 else 0

theorem sum_rank (s : Barrier τ) (t : τ) (pc : Pc) :
    ∑ u, (update s.pc t pc u).rank + (s.pc t).rank = ∑ u, (s.pc u).rank + pc.rank := by
  have hsum := sum_change (f := fun u => (s.pc u).rank)
    (g := fun u => (update s.pc t pc u).rank) t fun u hu => by
      rw [update_of_ne hu]
  rwa [update_self] at hsum

theorem toGo_lt (hpc : s'.pc = update s.pc t pc) (hsem : s'.sem.value = s.sem.value)
    (hrank : pc.rank < (s.pc t).rank) : s'.toGo < s.toGo := by
  have hsum := sum_rank s t pc
  unfold toGo
  rw [hpc, hsem]
  omega

theorem Sound.toGo_lt (h : Sound s) (hstep : s.step t = some s') : s'.toGo < s.toGo := by
  have hplace := h.place t
  unfold Barrier.step at hstep
  cases hpc : s.pc t with
  | idle | suspended =>
    rw [hpc] at hstep
    cases hstep
  | locking | resumed =>
    rw [hpc] at hstep
    unfold Barrier.lock at hstep
    split_ifs at hstep
    cases hstep
    exact Barrier.toGo_lt rfl rfl (by rw [hpc]; decide)
  | enters =>
    rw [hpc] at hstep
    cases hstep
    unfold Barrier.enter
    split_ifs
    all_goals exact Barrier.toGo_lt rfl rfl (by rw [hpc]; decide)
  | waits =>
    rw [hpc] at hstep hplace
    cases hstep
    unfold Barrier.condWait
    rw [if_neg (Nat.not_lt.mpr (Nat.le_of_eq (h.fresh hplace.2)))]
    exact Barrier.toGo_lt rfl rfl (by rw [hpc]; decide)
  | broadcasts =>
    rw [hpc] at hstep hplace
    cases hstep
    have hsum := sum_rank s t (.releases s.sem.trytake.2)
    rw [hpc] at hsum
    unfold toGo
    change ∑ u, (update s.pc t (.releases s.sem.trytake.2) u).rank +
      (if s.sem.trytake.1.value = 0 then 2 else 0) < _
    unfold CondSem.trytake at hsum ⊢
    by_cases hpos : 0 < s.sem.value
    · rw [if_pos hpos] at hsum ⊢
      rw [if_pos (Nat.sub_eq_zero_of_le hplace.2.2), if_neg (Nat.ne_of_gt hpos)]
      change _ + 12 = _ + 9 at hsum
      omega
    · rw [if_neg hpos] at hsum ⊢
      rw [if_pos (Nat.eq_zero_of_not_pos hpos)]
      change _ + 12 = _ + 11 at hsum
      omega
  | releases taken =>
    rw [hpc] at hstep hplace
    cases hstep
    obtain ⟨-, -, hvalue, hempty⟩ := hplace
    unfold Barrier.release
    cases hlist : s.sem.suspendThread with
    | cons v rest =>
      obtain rfl : taken = false := by
        cases taken with
        | true =>
          rw [hempty rfl] at hlist
          cases hlist
        | false => rfl
      have hv : s.pc v = .suspended := (h.mem v).mp (by rw [hlist]; exact .head _)
      have hvt : t ≠ v := by
        rintro rfl
        rw [hpc] at hv
        cases hv
      have hfirst := sum_rank s v .resumed
      have hsecond := sum_rank (s.setPc v .resumed) t .broadcasts
      rw [CondSem.release_cons hlist]
      rw [setPc_pc, update_of_ne hvt, hpc] at hsecond
      rw [hv] at hfirst
      unfold toGo
      change ∑ u, (update (update s.pc v .resumed) t .broadcasts u).rank +
        (if s.sem.value = 0 then 2 else 0) < _
      change _ + 17 = _ + 5 at hfirst
      change _ + 11 = _ + 12 at hsecond
      omega
    | nil =>
      rw [CondSem.release_nil hlist hvalue]
      have hsum := sum_rank s t (if taken then .unlocks 0 else .broadcasts)
      rw [hpc] at hsum
      unfold toGo
      rw [if_pos hvalue]
      change ∑ u, (update s.pc t (if taken then .unlocks 0 else .broadcasts) u).rank + 0 <
        _
      cases taken with
      | true =>
        change _ + 9 = _ + 1 at hsum
        omega
      | false =>
        change _ + 11 = _ + 12 at hsum
        omega
  | unlocks result =>
    rw [hpc] at hstep
    cases hstep
    exact Barrier.toGo_lt rfl rfl (by rw [hpc]; exact Nat.zero_lt_one)

omit [Fintype τ] in
theorem step_calls (hstep : s.step t = some s') : s'.calls = s.calls := by
  unfold Barrier.step at hstep
  cases hpc : s.pc t with
  | idle | suspended =>
    rw [hpc] at hstep
    cases hstep
  | locking | resumed =>
    rw [hpc] at hstep
    unfold Barrier.lock at hstep
    split_ifs at hstep
    cases hstep
    rfl
  | enters =>
    rw [hpc] at hstep
    cases hstep
    unfold Barrier.enter
    split_ifs <;> rfl
  | waits =>
    rw [hpc] at hstep
    cases hstep
    unfold Barrier.condWait
    split_ifs <;> rfl
  | broadcasts | unlocks result =>
    rw [hpc] at hstep
    cases hstep
    rfl
  | releases taken =>
    rw [hpc] at hstep
    cases hstep
    unfold Barrier.release
    split <;> rfl

/-- Once all have called every run ends with all calls returned. -/
theorem Sound.leads (h : Sound s) (hcalls : ∀ t, s.calls t = 1) :
    Leads (Within (fun s a s' => s.exec a = some s') Once)
      (fun s => ∀ t, 1 ≤ (s.results t).length) s := by
  refine Leads.of_measure (I := fun s => Sound s ∧ ∀ t, s.calls t = 1) toGo
    (fun s hI hleft => ?_) (fun s a s' hI hstep => ?_) ⟨h, hcalls⟩
  · obtain ⟨t, s', hstep⟩ := hI.1.progress hI.2 hleft
    exact ⟨.step t, s', trivial, hstep⟩
  · obtain ⟨honce, hexec⟩ := hstep
    cases a with
    | call t =>
      have hcall := hI.2 t
      rw [show s.calls t = 0 from honce] at hcall
      cases hcall
    | step t =>
      exact ⟨⟨hI.1.step hexec, fun u => (step_calls hexec).symm ▸ hI.2 u⟩, hI.1.toGo_lt hexec⟩

theorem Sound.kept (h : Sound s) : Kept (Within (fun s a s' => s.exec a = some s') Once) s := by
  refine ⟨fun t u => ?_, fun t result hresult => ?_, fun round hround => ?_⟩
  · rcases (h.results t).2 with hnone | ⟨hone, hzero⟩
    · rw [hnone]
      exact Nat.zero_le _
    · rw [hone, h.called hzero u]
      exact Nat.le_refl 1
  · rcases (h.results t).2 with hnone | ⟨hone, -⟩
    · rw [hnone] at hresult
      cases hresult
    · rw [hone] at hresult
      exact mem_singleton.mp hresult
  · cases round with
    | zero => exact .now fun t => Nat.zero_le _
    | succ round =>
      have hcalls : ∀ t, s.calls t = 1 := fun t =>
        Nat.le_antisymm (h.results t).1 (Nat.le_trans (Nat.le_add_left 1 round) (hround t))
      cases round with
      | zero => exact h.leads hcalls
      | succ round =>
        refine .now fun t => ?_
        have htwo := hround t
        rw [hcalls t] at htwo
        omega

/-- While no thread calls a second time, the calls return when all have called, without an
error. -/
theorem reachable_barrierKept (s : Barrier τ)
    (h : Reachable Initial (Within (fun s a s' => s.exec a = some s') Once) s) :
    Kept (Within (fun s a s' => s.exec a = some s') Once) s :=
  Sound.kept (h.inductWithin (·.sound) (·.exec))

end

/-- A barrier for two threads. -/
def barrier2 : Barrier (Fin 2) where
  count := 2
  sem := { value := 0, suspendThread := [] }
  owner := none
  pc _ := .idle
  calls _ := 0
  results _ := []

theorem barrier2_initial : Initial barrier2 :=
  ⟨rfl, rfl, rfl, rfl, fun _ => ⟨rfl, rfl, rfl⟩⟩

/-- The first thread waits, and the second one wakes it. -/
def round : List (Act (Fin 2)) :=
  [.call 0, .step 0, .step 0, .step 0, .call 1, .step 1, .step 1, .step 1, .step 1, .step 1,
    .step 1, .step 1, .step 1, .step 1, .step 0, .step 0]

/-- Two threads meet at the barrier once. -/
theorem reachable_barrierKept_round : ∃ s : Barrier (Fin 2),
    s.results 0 = [0] ∧ s.results 1 = [0] ∧
      Kept (Within (fun s a s' => s.exec a = some s') Once) s := by
  have hrun : ∃ s ∈ runWithin exec Once barrier2 round, s.results 0 = [0] ∧
      s.results 1 = [0] := by decide +kernel
  obtain ⟨s, hs, heq⟩ := Reachable.of_runWithin barrier2_initial hrun
  exact ⟨s, heq.1, heq.2, reachable_barrierKept s hs⟩

/-- In the second round the first call returns at once, with an error. -/
theorem barrier2_not_kept : ∃ s : Barrier (Fin 2),
    Reachable Initial (fun s a s' => exec s a = some s') s ∧ s.results 0 = [0, einval] ∧
      s.calls 1 = 1 ∧ ¬Kept (fun s a s' => s.exec a = some s') s := by
  have hrun : ∃ s ∈ runAll exec barrier2 (round ++ [.call 0, .step 0, .step 0, .step 0]),
      s.results 0 = [0, einval] ∧ s.calls 1 = 1 := by decide +kernel
  obtain ⟨s, hs, heq⟩ := Reachable.of_runAll barrier2_initial hrun
  refine ⟨s, hs, heq.1, heq.2, fun hkept => ?_⟩
  have hwaits := hkept.waits 0 1
  rw [heq.1, heq.2] at hwaits
  exact absurd hwaits (by decide)

end Barrier

end RtKernel.Pthread

import RtKernel.Ipc.Semaphore

/-!
# Condition variables

A condition variable is a semaphore. A waiter puts itself into the list of the semaphore
and gives up the mutex; a signal releases the semaphore when it has found a waiter; a
broadcast takes and releases it until there was something to take. What runs with interrupts
disabled is one step, and between two of them a wait may time out.

Who waits, signals or broadcasts has locked the mutex. It is not locked twice by one thread.
-/

open List
open Option

namespace RtKernel.Pthread

/-- The semaphore of a `pthread_cond_t`, with those suspended on it. -/
structure CondSem (ω : Type*) where
  value : Nat
  suspendThread : List ω

namespace CondSem

variable {ω : Type*}

/-- `rt_sem_trytake`, and whether there was something to take. -/
def trytake (sem : CondSem ω) : CondSem ω × Bool :=
  if 0 < sem.value then ({ sem with value := sem.value - 1 }, true) else (sem, false)

/-- `rt_sem_release`, and who is resumed. -/
def release (sem : CondSem ω) : CondSem ω × Option ω :=
  match sem.suspendThread with
  | x :: rest => ({ sem with suspendThread := rest }, some x)
  | [] => ({ sem with value := if sem.value < Sem.rtSemValueMax then sem.value + 1 else sem.value }, none)

/-- `rt_list_insert_before` the head of the list. -/
def suspend (sem : CondSem ω) (x : ω) : CondSem ω :=
  { sem with suspendThread := sem.suspendThread ++ [x] }

/-- The timer of one that is suspended takes it from the list. -/
def timeout [DecidableEq ω] (sem : CondSem ω) (x : ω) : CondSem ω :=
  { sem with suspendThread := sem.suspendThread.erase x }

variable {sem : CondSem ω}

theorem release_cons {x : ω} {rest : List ω} (h : sem.suspendThread = x :: rest) :
    sem.release = ({ sem with suspendThread := rest }, some x) := by
  unfold release
  rw [h]

theorem release_nil (h : sem.suspendThread = []) (hvalue : sem.value = 0) :
    sem.release = ({ sem with value := 1 }, none) := by
  unfold release
  rw [h, hvalue]
  rfl

theorem timeout_perm [DecidableEq ω] {x : ω} (h : x ∈ sem.suspendThread) :
    sem.suspendThread.Perm (x :: (sem.timeout x).suspendThread) := perm_cons_erase h

end CondSem

namespace Cond

/-- Where a thread is. The waits are numbered; a signal or a broadcast remembers those that were
under way when it was called, and a broadcast those it has resumed and its passes. -/
inductive Pc
  /-- In none of the calls. -/
  | idle
  | suspended (wait : Nat) (timer : Bool)
  /-- Ready to run, with its error number; it has to lock the mutex again. -/
  | resumed (wait : Nat) (err : RtErr)
  /-- `pthread_cond_signal` has found a waiter. -/
  | signals (atCall : List Nat)
  /-- `pthread_cond_broadcast` tries to take the semaphore. -/
  | broadcasts (atCall woken : List Nat) (passes : Nat)
  /-- It is to release the semaphore, which it has taken or not. -/
  | releases (atCall woken : List Nat) (passes : Nat) (taken : Bool)
  deriving DecidableEq

/-- A signal or a broadcast that has returned. -/
structure Call where
  broadcast : Bool
  atCall : List Nat
  resumed : List Nat
  deriving DecidableEq

end Cond

open Cond

/-- A condition variable and its mutex. -/
structure Cond (τ : Type*) where
  sem : CondSem (τ × Nat)
  /-- `owner` of the mutex. -/
  owner : Option τ
  pc : τ → Pc
  /-- How many waits there have been. -/
  waits : Nat
  /-- The waits that have timed out. -/
  timeouts : List Nat
  calls : List Call
  /-- The waits that have returned. -/
  returns : List (Nat × RtErr)

namespace Cond

variable {τ : Type*}

/-- What may happen. -/
inductive Act (τ : Type*)
  | lock (t : τ)
  | unlock (t : τ)
  | wait (t : τ) (timeout : Int)
  /-- The timer of a thread that waits. -/
  | timeout (t : τ)
  /-- A thread that has been resumed locks the mutex, and returns. -/
  | relock (t : τ)
  | signal (t : τ)
  | broadcast (t : τ)
  /-- A signal or a broadcast goes on. -/
  | step (t : τ)

variable [DecidableEq τ]

def setPc (s : Cond τ) (t : τ) (pc : Pc) : Cond τ := { s with pc := Function.update s.pc t pc }

/-- The caller has locked the mutex, as it is to. -/
def Holds (s : Cond τ) (t : τ) : Prop := s.owner = some t ∧ s.pc t = .idle

instance (s : Cond τ) (t : τ) : Decidable (s.Holds t) := inferInstanceAs (Decidable (_ ∧ _))

def lock (s : Cond τ) (t : τ) : Option (Cond τ) :=
  if s.owner = none ∧ s.pc t = .idle then some { s with owner := some t } else none

def unlock (s : Cond τ) (t : τ) : Option (Cond τ) :=
  if s.Holds t then some { s with owner := none } else none

/-- `_pthread_cond_timedwait` up to `rt_schedule`. -/
def wait (s : Cond τ) (t : τ) (timeout : Int) : Option (Cond τ) :=
  if s.Holds t then
    let n := s.waits
    let s := { s with waits := n + 1 }
    if 0 < s.sem.value then
      some { s with
        sem := { s.sem with value := s.sem.value - 1 }
        returns := s.returns ++ [(n, .eok)] }
    else if timeout = 0 then some { s with returns := s.returns ++ [(n, .etimeout)] }
    else
      some (setPc { s with sem := s.sem.suspend (t, n), owner := none } t (.suspended n (0 < timeout)))
  else none

/-- `_thread_timeout`. -/
def timeout (s : Cond τ) (t : τ) : Option (Cond τ) :=
  match s.pc t with
  | .suspended n true =>
    some (setPc { s with sem := s.sem.timeout (t, n), timeouts := s.timeouts ++ [n] } t
      (.resumed n .etimeout))
  | _ => none

/-- `_pthread_cond_timedwait` from `rt_schedule` on. -/
def relock (s : Cond τ) (t : τ) : Option (Cond τ) :=
  match s.pc t with
  | .resumed n err =>
    if s.owner = none then
      some (setPc { s with owner := some t, returns := s.returns ++ [(n, err)] } t .idle)
    else none
  | _ => none

/-- The thread of a wait is resumed, if there is one. -/
def resume (s : Cond τ) : Option (τ × Nat) → Cond τ
  | some (t, n) => s.setPc t (.resumed n .eok)
  | none => s

/-- `rt_sem_release` of the condition variable, and the wait that it ends. -/
def release (s : Cond τ) : Cond τ × List Nat :=
  (resume { s with sem := s.sem.release.1 } s.sem.release.2, s.sem.release.2.toList.map Prod.snd)

/-- The waits under way. -/
def waiting (s : Cond τ) : List Nat := s.sem.suspendThread.map Prod.snd

/-- `pthread_cond_signal` up to where it has looked at the list. -/
def signal (s : Cond τ) (t : τ) : Option (Cond τ) :=
  if s.Holds t then
    if s.sem.suspendThread = [] then
      some { s with calls := s.calls ++ [{ broadcast := false, atCall := [], resumed := [] }] }
    else some (s.setPc t (.signals s.waiting))
  else none

def broadcast (s : Cond τ) (t : τ) : Option (Cond τ) :=
  if s.Holds t then some (s.setPc t (.broadcasts s.waiting [] 0)) else none

/-- The call of a thread returns. -/
def ret (s : Cond τ) (t : τ) (call : Call) : Cond τ :=
  setPc { s with calls := s.calls ++ [call] } t .idle

def step (s : Cond τ) (t : τ) : Option (Cond τ) :=
  match s.pc t with
  | .signals atCall =>
    some (s.release.1.ret t { broadcast := false, atCall := atCall, resumed := s.release.2 })
  | .broadcasts atCall woken passes =>
    some (setPc { s with sem := s.sem.trytake.1 } t (.releases atCall woken passes s.sem.trytake.2))
  | .releases atCall woken passes taken =>
    let woken := woken ++ s.release.2
    if taken then
      some (s.release.1.ret t { broadcast := true, atCall := atCall, resumed := woken })
    else some (s.release.1.setPc t (.broadcasts atCall woken (passes + 1)))
  | .idle | .suspended .. | .resumed .. => none

def exec (s : Cond τ) : Act τ → Option (Cond τ)
  | .lock t => s.lock t
  | .unlock t => s.unlock t
  | .wait t timeout => s.wait t timeout
  | .timeout t => s.timeout t
  | .relock t => s.relock t
  | .signal t => s.signal t
  | .broadcast t => s.broadcast t
  | .step t => s.step t

/-- `pthread_cond_init`; nobody is in a call. -/
def Initial (s : Cond τ) : Prop :=
  s.sem.value = 0 ∧ s.sem.suspendThread = [] ∧ s.owner = none ∧ (∀ t, s.pc t = .idle) ∧
    s.calls = [] ∧ s.returns = []

/-- A signal resumes one waiter if there is any; a broadcast resumes all of them, but those that
time out before it comes to them. -/
def Call.Right (timeouts : List Nat) (call : Call) : Prop :=
  List.Subperm call.resumed call.atCall ∧
    if call.broadcast then ∀ n ∈ call.atCall, n ∈ call.resumed ∨ n ∈ timeouts
    else call.atCall ≠ [] → call.resumed.length = 1

/-- A signal or a broadcast in progress: the waits at its call, and those it has resumed. -/
def Pc.progress : Pc → Option (List Nat × List Nat)
  | .signals atCall => some (atCall, [])
  | .broadcasts atCall woken _ | .releases atCall woken _ _ => some (atCall, woken)
  | .idle | .suspended .. | .resumed .. => none

/-- Calls have an effect on those waiting, and none on who waits afterwards. -/
structure Kept (s : Cond τ) : Prop where
  value : (∀ t, (s.pc t).progress = none) → s.sem.value = 0
  calls : ∀ call ∈ s.calls, call.Right s.timeouts
  /-- A broadcast comes to its end. -/
  passes : ∀ t atCall woken passes, s.pc t = .broadcasts atCall woken passes →
    passes ≤ atCall.length + 1
  /-- Who returns without an error has been resumed. -/
  returns : ∀ n, (n, RtErr.eok) ∈ s.returns → ∃ call ∈ s.calls, n ∈ call.resumed

/-- Where a step may be trusted: a signal still finds a waiter when it releases the semaphore, and no
broadcast returns. -/
def Careful (s : Cond τ) : Act τ → Prop
  | .step t =>
    match s.pc t with
    | .signals _ => s.sem.suspendThread ≠ []
    | .releases _ _ _ taken => taken = false
    | .idle | .suspended .. | .resumed .. | .broadcasts .. => True
  | .lock _ | .unlock _ | .wait _ _ | .timeout _ | .relock _ | .signal _ | .broadcast _ => True

/-- A thread is in a signal or a broadcast: of the waits at its call, those that it has not resumed
are under way or have timed out. -/
def InCall (s : Cond τ) (t : τ) (atCall woken : List Nat) : Prop :=
  s.owner = some t ∧ List.Subperm (woken ++ s.waiting) atCall ∧
    ∀ n ∈ atCall, n ∈ woken ∨ n ∈ s.waiting ∨ n ∈ s.timeouts

/-- A signal or a broadcast has resumed a wait. -/
def Woken (s : Cond τ) (n : Nat) : Prop :=
  (∃ call ∈ s.calls, n ∈ call.resumed) ∨
    ∃ t atCall woken, (s.pc t).progress = some (atCall, woken) ∧ n ∈ woken

/-- What holds where a thread is. -/
def At (s : Cond τ) (t : τ) : Pc → Prop
  | .idle => True
  | .suspended n _ => (t, n) ∈ s.sem.suspendThread
  | .resumed n err => err = .eok → s.Woken n
  | .signals atCall => s.InCall t atCall [] ∧ s.sem.value = 0
  | .broadcasts atCall woken passes =>
    s.InCall t atCall woken ∧ s.sem.value ≤ 1 ∧ passes = woken.length + s.sem.value
  | .releases atCall woken passes taken =>
    s.InCall t atCall woken ∧ s.sem.value = 0 ∧
      if taken then passes = woken.length + 1 ∧ s.sem.suspendThread = [] else passes = woken.length

/-- What holds while every step meets the condition. -/
structure Sound (s : Cond τ) : Prop where
  place : ∀ t, s.At t (s.pc t)
  listed : ∀ t n, (t, n) ∈ s.sem.suspendThread → ∃ timer, s.pc t = .suspended n timer
  nodup : s.waiting.Nodup
  below : ∀ n ∈ s.waiting, n < s.waits
  /-- Nobody waits for what is there. -/
  empty : 0 < s.sem.value → s.sem.suspendThread = []
  value : (∀ t, (s.pc t).progress = none) → s.sem.value = 0
  calls : ∀ call ∈ s.calls, call.Right s.timeouts
  returns : ∀ n, (n, RtErr.eok) ∈ s.returns → ∃ call ∈ s.calls, n ∈ call.resumed

variable {s s' : Cond τ} {t u : τ}

theorem setPc_self (s : Cond τ) (t : τ) (pc : Pc) : (s.setPc t pc).pc t = pc := Function.update_self ..

theorem setPc_of_ne {s : Cond τ} {pc : Pc} (hu : u ≠ t) : (s.setPc t pc).pc u = s.pc u :=
  Function.update_of_ne hu ..

section

omit [DecidableEq τ]

variable {atCall woken : List Nat} {pc : Pc}

theorem At.inCall (h : s.At t pc)
    (hpc : pc.progress = some (atCall, woken)) : s.InCall t atCall woken := by
  cases pc with
  | idle | suspended n timer | resumed n err => cases hpc
  | signals _ | broadcasts _ _ _ | releases _ _ _ _ =>
    cases hpc
    exact h.1

/-- Only who has locked the mutex signals or broadcasts. -/
theorem Sound.quiet (h : Sound s) (hu : s.owner ≠ some u) : (s.pc u).progress = none := by
  cases hpc : (s.pc u).progress with
  | none => rfl
  | some call => exact absurd ((h.place u).inCall hpc).1 hu

theorem Sound.quiet_of_ne (h : Sound s) (howner : s.owner = some t) (hu : u ≠ t) :
    (s.pc u).progress = none :=
  h.quiet fun heq => hu (some.inj (heq.symm.trans howner))

/-- Who does not signal or broadcast needs its place in the list, and what has resumed it. -/
theorem At.of_quiet (h : s.At u pc) (hpc : pc.progress = none)
    (hlist : ∀ n, (u, n) ∈ s.sem.suspendThread → (u, n) ∈ s'.sem.suspendThread)
    (hwoken : ∀ n, s.Woken n → s'.Woken n) : s'.At u pc := by
  cases pc with
  | idle => trivial
  | suspended n timer => exact hlist n h
  | resumed n err => exact fun heq => hwoken n (h heq)
  | signals _ | broadcasts _ _ _ | releases _ _ _ _ => cases hpc

variable {n : Nat}

theorem Woken.of_calls (h : s.Woken n) (hcalls : ∀ call ∈ s.calls, call ∈ s'.calls)
    (hpc : ∀ u call, (s.pc u).progress = some call → (s'.pc u).progress = some call) : s'.Woken n := by
  rcases h with ⟨call, hcall, hn⟩ | ⟨u, atCall, woken, hu, hn⟩
  · exact .inl ⟨call, hcalls call hcall, hn⟩
  · exact .inr ⟨u, atCall, woken, hpc u _ hu, hn⟩

theorem Sound.lock (h : Sound s) (hlock : s.lock t = some s') : Sound s' := by
  obtain ⟨⟨howner, -⟩, heq⟩ := ite_none_right_eq_some.mp hlock
  cases heq
  refine ⟨fun u => ?_, h.listed, h.nodup, h.below, h.empty, h.value, h.calls, h.returns⟩
  have hquiet : (s.pc u).progress = none := h.quiet (by simp [howner])
  exact (h.place u).of_quiet hquiet (fun _ => id) fun _ hn => hn.of_calls (fun _ => id) fun _ _ => id

end

theorem Sound.unlock (h : Sound s) (hunlock : s.unlock t = some s') : Sound s' := by
  obtain ⟨⟨howner, hpc⟩, heq⟩ := ite_none_right_eq_some.mp hunlock
  cases heq
  refine ⟨fun u => ?_, h.listed, h.nodup, h.below, h.empty, h.value, h.calls, h.returns⟩
  have hquiet : (s.pc u).progress = none := by
    by_cases hu : u = t
    · rw [hu, hpc]
      rfl
    · exact h.quiet_of_ne howner hu
  exact (h.place u).of_quiet hquiet (fun _ => id) fun _ hn => hn.of_calls (fun _ => id) fun _ _ => id

theorem Sound.quiet_of_holds (h : Sound s) (hholds : s.Holds t) (u : τ) : (s.pc u).progress = none := by
  by_cases hu : u = t
  · rw [hu, hholds.2]
    rfl
  · exact h.quiet_of_ne hholds.1 hu

/-- Between two signals there is nothing to take, so that a wait does not return at once. -/
theorem Sound.wait {timeout : Int} (h : Sound s) (hwait : s.wait t timeout = some s') : Sound s' := by
  obtain ⟨hholds, heq⟩ := ite_none_right_eq_some.mp hwait
  have hquiet := h.quiet_of_holds hholds
  have hvalue := h.value hquiet
  have hwoken : ∀ {s' : Cond τ} n, s'.calls = s.calls → s.Woken n → s'.Woken n := by
    intro s' n hcalls hn
    rcases hn with ⟨call, hcall, hn⟩ | ⟨u, _, _, hu, -⟩
    · exact .inl ⟨call, hcalls ▸ hcall, hn⟩
    · rw [hquiet u] at hu
      cases hu
  have hbelow : ∀ n ∈ s.waiting, n < s.waits + 1 := fun n hn => Nat.lt_succ_of_lt (h.below n hn)
  dsimp only at heq
  rw [if_neg (by omega)] at heq
  split_ifs at heq
  · cases heq
    refine ⟨fun u => ?_, h.listed, h.nodup, hbelow, h.empty, h.value, h.calls, fun n hn => ?_⟩
    · exact (h.place u).of_quiet (hquiet u) (fun _ => id) fun n hn => hwoken n rfl hn
    · rcases mem_append.mp hn with hn | hn
      · exact h.returns n hn
      · cases mem_singleton.mp hn
  · cases heq
    have hnew : ∀ n, (t, n) ∉ s.sem.suspendThread := by
      intro n hn
      obtain ⟨timer, hpc⟩ := h.listed t n hn
      rw [hholds.2] at hpc
      cases hpc
    refine ⟨fun u => ?_, fun u n hn => ?_, ?_, fun n hn => ?_, fun hpos => ?_, fun _ => hvalue, h.calls,
      h.returns⟩
    · by_cases hu : u = t
      · subst hu
        rw [setPc_self]
        exact mem_append_right _ (mem_singleton_self _)
      · rw [setPc_of_ne hu]
        exact (h.place u).of_quiet (hquiet u) (fun n hn => mem_append_left _ hn)
          fun n hn => hwoken n rfl hn
    · rcases mem_append.mp hn with hn | hn
      · obtain ⟨timer, hpc⟩ := h.listed u n hn
        have hu : u ≠ t := fun heq => hnew n (heq ▸ hn)
        exact ⟨timer, (setPc_of_ne hu).trans hpc⟩
      · obtain ⟨rfl, rfl⟩ := Prod.mk.inj (mem_singleton.mp hn)
        exact ⟨_, setPc_self ..⟩
    · have hmap : (s.sem.suspendThread ++ [(t, s.waits)]).map Prod.snd = s.waiting ++ [s.waits] :=
        map_append
      refine (congrArg List.Nodup hmap).mpr (nodup_append.mpr ⟨h.nodup, nodup_singleton _, ?_⟩)
      intro n hn m hm heq
      rw [heq, mem_singleton.mp hm] at hn
      exact Nat.lt_irrefl _ (h.below _ hn)
    · obtain ⟨x, hx, rfl⟩ := mem_map.mp hn
      rcases mem_append.mp hx with hx | hx
      · exact hbelow _ (mem_map_of_mem hx)
      · rw [mem_singleton.mp hx]
        exact Nat.lt_succ_self _
    · exact absurd (show 0 < s.sem.value from hpos) (by omega)

theorem Sound.relock (h : Sound s) (hrelock : s.relock t = some s') : Sound s' := by
  unfold Cond.relock at hrelock
  split at hrelock
  · next n err hpc =>
    obtain ⟨howner, heq⟩ := ite_none_right_eq_some.mp hrelock
    cases heq
    have hquiet : ∀ u, (s.pc u).progress = none := fun u => h.quiet (by simp [howner])
    have hcalled : ∀ n, s.Woken n → ∃ call ∈ s.calls, n ∈ call.resumed := by
      rintro n (hn | ⟨u, _, _, hu, -⟩)
      · exact hn
      · rw [hquiet u] at hu
        cases hu
    refine ⟨fun u => ?_, fun u m hm => ?_, h.nodup, h.below, h.empty, fun _ => h.value hquiet, h.calls,
      fun m hm => ?_⟩
    · by_cases hu : u = t
      · subst hu
        rw [setPc_self]
        trivial
      · rw [setPc_of_ne hu]
        exact (h.place u).of_quiet (hquiet u) (fun _ => id) fun m hm => .inl (hcalled m hm)
    · obtain ⟨timer, hu⟩ := h.listed u m hm
      have hne : u ≠ t := by
        rintro rfl
        rw [hpc] at hu
        cases hu
      exact ⟨timer, (setPc_of_ne hne).trans hu⟩
    · rcases mem_append.mp hm with hm | hm
      · exact h.returns m hm
      · obtain ⟨rfl, rfl⟩ := Prod.mk.inj (mem_singleton.mp hm)
        have hplace := h.place t
        rw [hpc] at hplace
        exact hcalled m (hplace rfl)
  · cases hrelock

omit [DecidableEq τ] in
/-- A wait that times out was under way at the call of a signal or a broadcast in progress. -/
theorem InCall.timeout (h : s.InCall u atCall woken)
    (howner : s'.owner = s.owner) (hwaiting : s.waiting.Perm (n :: s'.waiting))
    (htimeouts : s'.timeouts = s.timeouts ++ [n]) : s'.InCall u atCall woken := by
  obtain ⟨hown, hsub, hall⟩ := h
  refine ⟨howner.trans hown, ?_, fun m hm => ?_⟩
  · have hless : List.Subperm s'.waiting s.waiting :=
      (sublist_cons_self n s'.waiting).subperm.trans hwaiting.symm.subperm
    exact ((subperm_append_left woken).mpr hless).trans hsub
  · rcases hall m hm with hwoken | hwaits | htimeout
    · exact .inl hwoken
    · rcases mem_cons.mp (hwaiting.mem_iff.mp hwaits) with rfl | hwaits
      · exact .inr (.inr (htimeouts ▸ mem_append_right _ (mem_singleton_self _)))
      · exact .inr (.inl hwaits)
    · exact .inr (.inr (htimeouts ▸ mem_append_left _ htimeout))

theorem Call.Right.mono {timeouts : List Nat} {call : Call} (h : call.Right timeouts) (n : Nat) :
    call.Right (timeouts ++ [n]) := by
  refine ⟨h.1, ?_⟩
  have hright := h.2
  split_ifs at hright ⊢
  · exact fun m hm => (hright m hm).imp_right (mem_append_left _)
  · exact hright

section

variable (h : Sound s) {pc : Pc}
include h

theorem Sound.timeout (htimeout : s.timeout t = some s') : Sound s' := by
  unfold Cond.timeout at htimeout
  split at htimeout
  · next n hpc =>
    cases htimeout
    have hin : (t, n) ∈ s.sem.suspendThread := by
      have hplace := h.place t
      rwa [hpc] at hplace
    have hperm := CondSem.timeout_perm hin
    have hnodup := hperm.nodup_iff.mp h.nodup.of_map
    have hmem : ∀ x ∈ s.sem.suspendThread, x ≠ (t, n) → x ∈ (s.sem.timeout (t, n)).suspendThread :=
      fun x hx hne => (mem_cons.mp (hperm.mem_iff.mp hx)).resolve_left hne
    have hvalue : s.sem.value = 0 := by
      by_contra hpos
      rw [h.empty (Nat.pos_of_ne_zero hpos)] at hin
      cases hin
    have hprogress : ∀ u call, (s.pc u).progress = some call → u ≠ t := by
      rintro u call hu rfl
      rw [hpc] at hu
      cases hu
    have hwoken : ∀ m, s.Woken m → Woken (setPc { s with
        sem := s.sem.timeout (t, n), timeouts := s.timeouts ++ [n] } t (.resumed n .etimeout)) m := by
      refine fun m hm => hm.of_calls (fun _ => id) fun u call hu => ?_
      rw [setPc_of_ne (hprogress u call hu)]
      exact hu
    have hcall : ∀ {u : τ} {atCall woken : List Nat}, s.InCall u atCall woken → InCall (setPc { s with
        sem := s.sem.timeout (t, n), timeouts := s.timeouts ++ [n] } t (.resumed n .etimeout))
        u atCall woken :=
      fun hin => hin.timeout rfl (hperm.map Prod.snd) rfl
    refine ⟨fun u => ?_, fun u m hm => ?_, ?_, fun m hm => ?_, fun hpos => ?_, fun _ => hvalue,
      fun call hc => (h.calls call hc).mono n, h.returns⟩
    · by_cases hu : u = t
      · subst hu
        rw [setPc_self]
        exact fun heq => nomatch heq
      · rw [setPc_of_ne hu]
        have hplace := h.place u
        cases hu' : s.pc u with
        | idle => trivial
        | suspended m timer =>
          rw [hu'] at hplace
          exact hmem _ hplace fun heq => hu (congrArg Prod.fst heq)
        | resumed m err =>
          rw [hu'] at hplace
          exact fun heq => hwoken m (hplace heq)
        | signals atCall | broadcasts atCall woken passes =>
          rw [hu'] at hplace
          exact ⟨hcall hplace.1, hplace.2⟩
        | releases atCall woken passes taken =>
          rw [hu'] at hplace
          obtain ⟨hin', hzero, htaken⟩ := hplace
          refine ⟨hcall hin', hzero, ?_⟩
          split_ifs at htaken ⊢
          · rw [htaken.2] at hin
            cases hin
          · exact htaken
    · have hm' : (u, m) ∈ s.sem.suspendThread := hperm.mem_iff.mpr (.tail _ hm)
      obtain ⟨timer, hpc'⟩ := h.listed u m hm'
      have hu : u ≠ t := by
        rintro rfl
        rw [hpc] at hpc'
        cases hpc'
        exact (nodup_cons.mp hnodup).1 hm
      exact ⟨timer, (setPc_of_ne hu).trans hpc'⟩
    · exact (nodup_cons.mp ((hperm.map Prod.snd).nodup_iff.mp h.nodup)).2
    · exact h.below m ((hperm.map Prod.snd).mem_iff.mpr (.tail _ hm))
    · exact absurd (show 0 < s.sem.value from hpos) (by omega)
  · cases htimeout

theorem Sound.enter (hholds : s.Holds t) (hpc : (s.setPc t pc).At t pc) :
    Sound (s.setPc t pc) := by
  have hquiet := h.quiet_of_holds hholds
  have hvalue := h.value hquiet
  refine ⟨fun u => ?_, fun u n hn => ?_, h.nodup, h.below, h.empty, fun _ => hvalue, h.calls, h.returns⟩
  · by_cases hu : u = t
    · subst hu
      rw [setPc_self]
      exact hpc
    · rw [setPc_of_ne hu]
      refine (h.place u).of_quiet (hquiet u) (fun _ => id) fun n hn => ?_
      refine hn.of_calls (fun _ => id) fun v call hv => ?_
      rw [hquiet v] at hv
      cases hv
  · obtain ⟨timer, hwait⟩ := h.listed u n hn
    have hne : u ≠ t := by
      rintro rfl
      rw [hholds.2] at hwait
      cases hwait
    exact ⟨timer, (setPc_of_ne hne).trans hwait⟩

theorem Sound.signal (hsignal : s.signal t = some s') : Sound s' := by
  obtain ⟨hholds, heq⟩ := ite_none_right_eq_some.mp hsignal
  have hquiet := h.quiet_of_holds hholds
  have hvalue := h.value hquiet
  split_ifs at heq with hnone
  · cases heq
    refine ⟨fun u => ?_, h.listed, h.nodup, h.below, h.empty, fun _ => hvalue, fun call hcall => ?_,
      fun n hn => ?_⟩
    · refine (h.place u).of_quiet (hquiet u) (fun _ => id) fun n hn => ?_
      exact hn.of_calls (fun call => mem_append_left _) fun _ _ => id
    · rcases mem_append.mp hcall with hcall | hcall
      · exact h.calls call hcall
      · rw [mem_singleton.mp hcall]
        exact ⟨List.Subperm.refl [], fun hne => absurd rfl hne⟩
    · obtain ⟨call, hcall, hin⟩ := h.returns n hn
      exact ⟨call, mem_append_left _ hcall, hin⟩
  · cases heq
    exact h.enter hholds ⟨⟨hholds.1, List.Subperm.refl _, fun n hn => .inr (.inl hn)⟩, hvalue⟩

theorem Sound.broadcast (hbroadcast : s.broadcast t = some s') : Sound s' := by
  obtain ⟨hholds, heq⟩ := ite_none_right_eq_some.mp hbroadcast
  have hvalue := h.value (h.quiet_of_holds hholds)
  cases heq
  refine h.enter hholds ⟨⟨hholds.1, List.Subperm.refl _, fun n hn => .inr (.inl hn)⟩, ?_, ?_⟩
  · exact (Nat.le_of_eq hvalue).trans (Nat.zero_le 1)
  · rw [length_nil, Nat.zero_add]
    exact hvalue.symm

/-- A broadcast goes on, and only the value changes. -/
theorem Sound.goOn (hpc : (s.pc t).progress = some (atCall, woken)) {value : Nat}
    (hprogress : pc.progress = some (atCall, woken))
    (hat : At (setPc { s with sem := { s.sem with value := value } } t pc) t pc)
    (hempty : 0 < value → s.sem.suspendThread = []) :
    Sound (setPc { s with sem := { s.sem with value := value } } t pc) := by
  have howner := ((h.place t).inCall hpc).1
  refine ⟨fun u => ?_, fun u n hn => ?_, h.nodup, h.below, hempty, fun hquiet => ?_, h.calls, h.returns⟩
  · by_cases hu : u = t
    · subst hu
      rw [setPc_self]
      exact hat
    · rw [setPc_of_ne hu]
      refine (h.place u).of_quiet (h.quiet_of_ne howner hu) (fun _ => id) fun n hn => ?_
      refine hn.of_calls (fun _ => id) fun v call hv => ?_
      by_cases hvt : v = t
      · subst hvt
        rw [setPc_self, hprogress, ← hpc]
        exact hv
      · rw [setPc_of_ne hvt]
        exact hv
  · obtain ⟨timer, hwait⟩ := h.listed u n hn
    have hne : u ≠ t := by
      rintro rfl
      rw [hwait] at hpc
      cases hpc
    exact ⟨timer, (setPc_of_ne hne).trans hwait⟩
  · have hnone := hquiet t
    rw [setPc_self, hprogress] at hnone
    cases hnone

end

variable {rest : List (τ × Nat)} {v : τ}

/-- The first waiter is resumed, and the call goes on or returns. -/
theorem Sound.resume (h : Sound s)
    (hpc : (s.pc t).progress = some (atCall, woken)) (hvalue : s.sem.value = 0)
    (hlist : s.sem.suspendThread = (v, n) :: rest) {calls : List Call} (pc : Pc)
    (hs' : s' = setPc { (setPc { s with sem := { s.sem with suspendThread := rest } } v
      (.resumed n .eok)) with calls := calls } t pc) (hat : At s' t pc)
    (hwoken : (∃ call ∈ calls, ∀ m ∈ woken ++ [n], m ∈ call.resumed) ∨
      pc.progress = some (atCall, woken ++ [n]))
    (hold : ∀ call ∈ s.calls, call ∈ calls) (hright : ∀ call ∈ calls, call.Right s.timeouts) :
    Sound s' := by
  have howner := ((h.place t).inCall hpc).1
  have hnodup := h.nodup
  unfold waiting at hnodup
  rw [hlist, map_cons, nodup_cons] at hnodup
  obtain ⟨timer, hv⟩ := h.listed v n (by rw [hlist]; exact .head _)
  have hvt : v ≠ t := by
    rintro rfl
    rw [hv] at hpc
    cases hpc
  have hnew : ∀ m ∈ woken ++ [n], Woken s' m := by
    intro m hm
    subst hs'
    rcases hwoken with ⟨call, hcall, hall⟩ | hprogress
    · exact .inl ⟨call, hcall, hall m hm⟩
    · exact .inr ⟨t, atCall, _, by rw [setPc_self]; exact hprogress, hm⟩
  subst hs'
  refine ⟨fun u => ?_, fun u m hm => ?_, hnodup.2, fun m hm => ?_, fun hpos => ?_, fun _ => hvalue, hright,
    fun m hm => ?_⟩
  · by_cases hu : u = t
    · subst hu
      rw [setPc_self]
      exact hat
    · by_cases huv : u = v
      · subst huv
        refine (congrArg (At _ u) ((setPc_of_ne hu).trans (setPc_self ..))).mpr fun _ => ?_
        exact hnew n (mem_append_right _ (mem_singleton_self n))
      · refine (congrArg (At _ u) ((setPc_of_ne hu).trans (setPc_of_ne huv))).mpr ?_
        refine (h.place u).of_quiet (h.quiet_of_ne howner hu) (fun m hm => ?_) fun m hm => ?_
        · rw [hlist] at hm
          exact (mem_cons.mp hm).resolve_left fun heq => huv (congrArg Prod.fst heq)
        · rcases hm with ⟨call, hcall, hin⟩ | ⟨w, atCall', woken', hw, hin⟩
          · exact .inl ⟨call, hold call hcall, hin⟩
          · have hwt : w = t := by
              by_contra hne
              rw [h.quiet_of_ne howner hne] at hw
              cases hw
            rw [hwt, hpc] at hw
            cases hw
            exact hnew m (mem_append_left _ hin)
  · have hm' : (u, m) ∈ s.sem.suspendThread := by
      rw [hlist]
      exact .tail _ hm
    obtain ⟨timer', hwait⟩ := h.listed u m hm'
    have hne : u ≠ t := by
      rintro rfl
      rw [hwait] at hpc
      cases hpc
    have hne' : u ≠ v := by
      rintro rfl
      rw [hv] at hwait
      cases hwait
      exact hnodup.1 (mem_map_of_mem (f := Prod.snd) hm)
    exact ⟨timer', (setPc_of_ne hne).trans ((setPc_of_ne hne').trans hwait)⟩
  · refine h.below m ?_
    unfold waiting
    rw [hlist]
    exact .tail _ hm
  · exact absurd (show 0 < s.sem.value from hpos) (by omega)
  · obtain ⟨call, hcall, hin⟩ := h.returns m hm
    exact ⟨call, hold call hcall, hin⟩

omit [DecidableEq τ] in
/-- Of the waits at its call, a signal or a broadcast has resumed one more. -/
theorem InCall.resume
    (h : s.InCall t atCall woken) (hlist : s.sem.suspendThread = (v, n) :: rest) {s' : Cond τ}
    (howner : s'.owner = s.owner) (hlist' : s'.sem.suspendThread = rest)
    (htimeouts : s'.timeouts = s.timeouts) : s'.InCall t atCall (woken ++ [n]) := by
  obtain ⟨hown, hsub, hall⟩ := h
  have hwaiting : s.waiting = n :: s'.waiting := by
    unfold waiting
    rw [hlist, hlist', map_cons]
  rw [hwaiting] at hsub hall
  refine ⟨howner.trans hown, by rwa [append_assoc], fun m hm => ?_⟩
  rcases hall m hm with hwoken | hwaits | htimeout
  · exact .inl (mem_append_left _ hwoken)
  · rcases mem_cons.mp hwaits with rfl | hwaits
    · exact .inl (mem_append_right _ (mem_singleton_self m))
    · exact .inr (.inl hwaits)
  · exact .inr (.inr (htimeouts ▸ htimeout))

/-- `rt_sem_release` resumes the first waiter, or adds to the value. -/
theorem release_cons (h : s.sem.suspendThread = (v, n) :: rest) : s.release =
      (setPc { s with sem := { s.sem with suspendThread := rest } } v (.resumed n .eok), [n]) := by
  unfold release
  rw [CondSem.release_cons h]
  rfl

theorem release_nil (h : s.sem.suspendThread = []) (hvalue : s.sem.value = 0) :
    s.release = ({ s with sem := { s.sem with value := 1 } }, []) := by
  unfold release
  rw [CondSem.release_nil h hvalue]
  rfl

theorem Sound.step (h : Sound s) (hcareful : Careful s (.step t)) (hstep : s.step t = some s') :
    Sound s' := by
  have hplace := h.place t
  unfold Cond.step at hstep
  unfold Careful at hcareful
  dsimp only at hcareful
  split at hstep
  · next atCall hpc =>
    rw [hpc] at hcareful hplace
    obtain ⟨hin, hvalue⟩ := hplace
    obtain ⟨⟨v, n⟩, rest, hlist⟩ := exists_cons_of_ne_nil hcareful
    rw [release_cons hlist] at hstep
    cases hstep
    have hn : n ∈ atCall := by
      refine hin.2.1.subset ?_
      unfold waiting
      rw [hlist]
      exact .head _
    have hright : Call.Right s.timeouts { broadcast := false, atCall := atCall, resumed := [n] } :=
      ⟨singleton_subperm_iff.mpr hn, fun _ => rfl⟩
    refine h.resume (by rw [hpc]; rfl) hvalue hlist .idle rfl trivial (.inl ⟨_,
      mem_append_right _ (mem_singleton_self _), fun m => id⟩)
      (fun call => mem_append_left _) fun call hcall => ?_
    rcases mem_append.mp hcall with hcall | hcall
    · exact h.calls call hcall
    · exact mem_singleton.mp hcall ▸ hright
  · next atCall woken passes hpc =>
    rw [hpc] at hplace
    obtain ⟨hin, hvalue, hpasses⟩ := hplace
    cases hstep
    unfold CondSem.trytake
    split_ifs with hpos
    · have hlist := h.empty hpos
      have hone : s.sem.value = 1 := by omega
      refine h.goOn (by rw [hpc]; rfl) rfl ⟨hin, Nat.sub_eq_zero_of_le hvalue, ?_⟩ fun _ => hlist
      exact ⟨by rw [hpasses, hone], hlist⟩
    · have hzero : s.sem.value = 0 := by omega
      refine h.goOn (by rw [hpc]; rfl) rfl ⟨hin, hzero, ?_⟩ h.empty
      rw [if_neg Bool.false_ne_true, hpasses, hzero, Nat.add_zero]
  · next atCall woken passes taken hpc =>
    rw [hpc] at hcareful hplace
    obtain rfl : taken = false := hcareful
    obtain ⟨hin, hvalue, hpasses⟩ := hplace
    cases hlist : s.sem.suspendThread with
    | cons x rest =>
      obtain ⟨v, n⟩ := x
      rw [release_cons hlist] at hstep
      cases hstep
      refine h.resume (by rw [hpc]; rfl) hvalue hlist _ rfl ⟨hin.resume hlist rfl rfl rfl, ?_, ?_⟩ (.inr rfl)
        (fun _ => id) h.calls
      · exact (Nat.le_of_eq hvalue).trans (Nat.zero_le 1)
      · rw [length_append, hpasses]
        exact congrArg (woken.length + 1 + ·) hvalue.symm
    | nil =>
      rw [release_nil hlist hvalue, append_nil] at hstep
      cases hstep
      exact h.goOn (by rw [hpc]; rfl) rfl ⟨hin, Nat.le_refl 1, by rw [hpasses]; rfl⟩ fun _ => hlist
  · cases hstep
  · cases hstep
  · cases hstep

/-- A step against the condition leaves something to take. -/
theorem Sound.not_kept (h : Sound s) (hcareful : ¬ Careful s (.step t)) (hstep : s.step t = some s') :
    ¬ Kept s' := by
  have hplace := h.place t
  unfold Cond.step at hstep
  unfold Careful at hcareful
  dsimp only at hcareful
  have hend : ∀ {call : Call}, s.sem.suspendThread = [] → s.sem.value = 0 → s.owner = some t →
      ¬ Kept (s.release.1.ret t call) := by
    intro call hlist hvalue howner hkept
    rw [release_nil hlist hvalue] at hkept
    have hzero : 1 = 0 := hkept.value fun u => by
      by_cases hu : u = t
      · subst hu
        exact congrArg Pc.progress (setPc_self ..)
      · exact (congrArg Pc.progress (setPc_of_ne hu)).trans (h.quiet_of_ne howner hu)
    cases hzero
  split at hstep
  · next atCall hpc =>
    rw [hpc] at hcareful hplace
    cases hstep
    exact hend (not_not.mp hcareful) hplace.2 hplace.1.1
  · next atCall woken passes hpc =>
    rw [hpc] at hcareful
    exact absurd trivial hcareful
  · next atCall woken passes taken hpc =>
    rw [hpc] at hcareful hplace
    obtain rfl : taken = true := by simpa using hcareful
    obtain ⟨hin, hvalue, hpasses⟩ := hplace
    cases hstep
    exact hend hpasses.2 hvalue hin.1
  · cases hstep
  · cases hstep
  · cases hstep

omit [DecidableEq τ] in
theorem Sound.kept (h : Sound s) : Kept s := by
  refine ⟨h.value, h.calls, fun t atCall woken passes hpc => ?_, h.returns⟩
  have hplace := h.place t
  rw [hpc] at hplace
  obtain ⟨hin, hvalue, hpasses⟩ := hplace
  have hlength := hin.2.1.length_le
  rw [length_append] at hlength
  omega

theorem Sound.exec {a : Act τ} (h : Sound s) (hcareful : Careful s a) (hexec : s.exec a = some s') :
    Sound s' := by
  cases a with
  | lock t => exact h.lock hexec
  | unlock t => exact h.unlock hexec
  | wait t timeout => exact h.wait hexec
  | timeout t => exact h.timeout hexec
  | relock t => exact h.relock hexec
  | signal t => exact h.signal hexec
  | broadcast t => exact h.broadcast hexec
  | step t => exact h.step hcareful hexec

omit [DecidableEq τ] in
theorem Initial.sound (h : Initial s) : Sound s := by
  obtain ⟨hvalue, hlist, -, hidle, hcalls, hreturns⟩ := h
  have hwaiting : s.waiting = [] := by
    unfold waiting
    rw [hlist]
    rfl
  refine ⟨fun t => ?_, fun t n hn => ?_, ?_, fun n hn => ?_, fun _ => hlist, fun _ => hvalue,
    fun call hcall => ?_, fun n hn => ?_⟩
  · rw [hidle t]
    trivial
  · rw [hlist] at hn
    cases hn
  · rw [hwaiting]
    exact nodup_nil
  · rw [hwaiting] at hn
    cases hn
  · rw [hcalls] at hcall
    cases hcall
  · rw [hreturns] at hn
    cases hn

/-- While every signal still finds a waiter when it releases the semaphore, and no broadcast returns,
calls have an effect on those waiting only; and a step keeps that just where it meets the
condition. -/
theorem reachable_waitsKept (s : Cond τ)
    (h : Reachable Initial (Within (fun s a s' => s.exec a = some s') Careful) s) :
    Kept s ∧ ∀ a s', s.exec a = some s' → (Kept s' ↔ Careful s a) := by
  have hsound : Sound s :=
    h.inductWithin (·.sound) (·.exec)
  refine ⟨hsound.kept, fun a s' hexec => ⟨fun hkept => ?_, fun hcareful => (hsound.exec hcareful hexec).kept⟩⟩
  cases a with
  | step t =>
    by_contra hcareful
    exact hsound.not_kept hcareful hexec hkept
  | lock t | unlock t | wait t timeout | timeout t | relock t | signal t | broadcast t => trivial

instance decidableCareful (s : Cond τ) (a : Act τ) : Decidable (Careful s a) :=
  match a with
  | .step t =>
    match hpc : s.pc t with
    | .signals _ => decidable_of_iff (s.sem.suspendThread ≠ []) (by simp [Careful, hpc])
    | .releases _ _ _ taken => decidable_of_iff (taken = false) (by simp [Careful, hpc])
    | .idle | .suspended .. | .resumed .. | .broadcasts .. => .isTrue (by simp [Careful, hpc])
  | .lock _ | .unlock _ | .wait _ _ | .timeout _ | .relock _ | .signal _ | .broadcast _ => .isTrue trivial

/-- A new condition variable. -/
def cond2 : Cond (Fin 2) where
  sem := { value := 0, suspendThread := [] }
  owner := none
  pc := fun _ => .idle
  waits := 0
  timeouts := []
  calls := []
  returns := []

theorem cond2_initial : Initial cond2 := ⟨rfl, rfl, rfl, fun _ => rfl, rfl, rfl⟩

/-- A wait times out, and the next one is ended by a signal. -/
def signalled : List (Act (Fin 2)) :=
  [.lock 0, .wait 0 5, .timeout 0, .relock 0, .wait 0 (-1), .lock 1, .signal 1, .step 1, .unlock 1, .relock 0]

/-- One wait times out, and the other one is signalled. -/
theorem reachable_waitsKept_signal : ∃ s : Cond (Fin 2), s.returns = [(0, .etimeout), (1, .eok)] ∧
    s.calls = [{ broadcast := false, atCall := [1], resumed := [1] }] ∧
    (Kept s ∧ ∀ a s', s.exec a = some s' → (Kept s' ↔ Careful s a)) := by
  have hrun : ∃ s ∈ runWithin exec Careful cond2 signalled,
      s.returns = [(0, .etimeout), (1, .eok)] ∧
      s.calls = [{ broadcast := false, atCall := [1], resumed := [1] }] := by decide +kernel
  obtain ⟨s, hs, heq⟩ := Reachable.of_runWithin cond2_initial hrun
  exact ⟨s, heq.1, heq.2, reachable_waitsKept s hs⟩

/-- A broadcast ends the wait of the other thread. -/
def broadcasted : List (Act (Fin 2)) :=
  [.lock 0, .wait 0 (-1), .lock 1, .broadcast 1, .step 1, .step 1, .step 1, .step 1, .step 1, .step 1]

/-- The broadcast has left something to take, and a wait that begins afterwards returns at once. -/
theorem broadcasted_not_kept :
    (∃ s : Cond (Fin 2), Reachable Initial (fun s a s' => exec s a = some s') s ∧
      s.sem.value = 1 ∧ (∀ t, (s.pc t).progress = none) ∧ ¬ Kept s) ∧
    ∃ s : Cond (Fin 2), Reachable Initial (fun s a s' => exec s a = some s') s ∧
      s.calls = [{ broadcast := true, atCall := [0], resumed := [0] }] ∧ s.returns = [(1, .eok)] ∧
      ¬ Kept s := by
  have hstart : Reachable Initial (fun s a s' => exec s a = some s') cond2 := Reachable.start cond2_initial
  obtain ⟨s, hs, heq⟩ : ∃ s ∈ runAll exec cond2 broadcasted, s.sem.value = 1 ∧
      (∀ t, (s.pc t).progress = none) := by decide +kernel
  obtain ⟨s', hs', heq'⟩ : ∃ s ∈ runAll exec cond2 (broadcasted ++ [.wait 1 (-1)]),
      s.calls = [{ broadcast := true, atCall := [0], resumed := [0] }] ∧
      s.returns = [(1, .eok)] := by decide +kernel
  refine ⟨⟨s, hstart.runAll hs, heq.1, heq.2, fun hkept => ?_⟩,
    s', hstart.runAll hs', heq'.1, heq'.2, fun hkept => ?_⟩
  · have hzero := hkept.value heq.2
    omega
  · obtain ⟨call, hcall, hin⟩ := hkept.returns 1 (by rw [heq'.2]; exact List.mem_singleton_self _)
    rw [heq'.1, List.mem_singleton] at hcall
    rw [hcall] at hin
    exact absurd hin (by decide)

end Cond

end RtKernel.Pthread

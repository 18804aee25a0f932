import RtKernel.Mem.PoolBlocks

/-!
# The order in which a pool serves its waiters

A thread that finds no block is linked behind the head of the suspend list, and a
block that is given back wakes the thread behind the head. So the last to come is
the first to be served.
-/

open List Option

namespace RtKernel.MemPool.Order

open Kernel

variable {τ : Type*} [DecidableEq τ]

/-- What the current thread, an interrupt, the timer or the scheduler does. -/
inductive Act (τ : Type*)
  | pool (a : MemPool.Act τ)
  | background (b : Background τ)
  /-- The current thread waits for something else. -/
  | sleep
  | resume (t : τ)

/-- The threads and the pools, and the waiters of each pool as they have come. -/
structure Sys (τ : Type*) extends MemPool.Sys τ where
  arrivals : Nat → List τ

namespace Sys

/-- A step of the threads and the pools. A call that may wait is not made with the scheduler locked,
so `rt_schedule` comes back only to a thread that runs. -/
def move (s : MemPool.Sys τ) : Act τ → Option (MemPool.Sys τ)
  | .pool (.other _) => none
  | .pool (.go left) => if s.Running then s.exec (.go left) else none
  | .pool a => s.exec a
  | .background b => (s.toCallers.background b).map fun c => { s with toCallers := c }
  | .sleep => if s.Free then some { s with kernel := s.kernel.rtThreadSleep } else none
  | .resume t => some { s with kernel := s.kernel.rtThreadResume t }

/-- Those who still wait, and behind them who has come. -/
def queue (s : Sys τ) (p : MemPool.Sys τ) : Sys τ :=
  { toSys := p
    arrivals := fun x => (s.arrivals x).filter (· ∈ p.kernel.wait x) ++
      (p.kernel.wait x).filter (· ∉ s.arrivals x) }

def exec (s : Sys τ) (a : Act τ) : Option (Sys τ) := (move s.toSys a).map s.queue

def Step (s : Sys τ) (a : Act τ) (s' : Sys τ) : Prop := s.exec a = some s'

/-- No pool has been initialised, and nobody waits. -/
structure Initial (s : Sys τ) : Prop where
  pools : s.toSys.Initial
  inv : ∃ started, s.kernel.Inv started
  wait : ∀ x, s.kernel.wait x = []
  arrivals : ∀ x, s.arrivals x = []

/-- A thread that has come to the pool later is resumed before another one. -/
def Overtakes (s : Sys τ) (x : Nat) (s' : Sys τ) : Prop :=
  ∃ a b, [a, b].Sublist (s.arrivals x) ∧ b ∉ s'.kernel.wait x ∧ a ∈ s'.kernel.wait x

/-- The invariant of a run: the suspend lists are in the order of coming, read backwards. -/
structure Good (s : Sys τ) : Prop where
  pools : s.toSys.Good
  ok : s.Ok waitsOn
  order : ∀ x, s.kernel.wait x = (s.arrivals x).reverse

end Sys

/-- What a step does to the suspend lists: nothing, or one thread leaves, or the current one is
linked behind a head. -/
inductive Effect (k k' : Kernel τ Nat) : Prop
  | same (h : k'.wait = k.wait)
  | leave (t : τ) (h : k'.wait = fun x => rtListRemove (k.wait x) t)
  | push (x : Nat) (hnew : ∀ y, k.current ∉ k.wait y)
      (h : k'.wait = Function.update k.wait x (k.current :: k.wait x))

section

variable {k k' : Kernel τ Nat} {on : τ → Option Nat}

/-- The thread is linked elsewhere than `_ipc_list_suspend` links it. -/
theorem suspendFirst_eq (k : Kernel τ Nat) (x : Nat) (timed : Bool) : suspendFirst k x timed =
      { k.block x .fifo timed with
        wait := Function.update (k.setError .eok).rtThreadSuspend.wait x
          (k.current :: (k.setError .eok).rtThreadSuspend.wait x) } := by
  cases timed <;> rfl

omit [DecidableEq τ] in
theorem waits_perm (h : k.Waits on) {wait : Nat → List τ}
    (hperm : ∀ x, (wait x).Perm (k.wait x)) : Kernel.Waits { k with wait := wait } on := by
  refine ⟨fun w t => ?_, fun w => ?_, h.error⟩
  · rw [← h.mem w t]
    exact (hperm w).mem_iff
  · exact (hperm w).nodup_iff.mpr (h.nodup w)

theorem suspendFirst_wait (h : k.Waits on) (hrun : (k.thread k.current).stat = .running) (x : Nat)
    (timed : Bool) :
    (suspendFirst k x timed).wait = Function.update k.wait x (k.current :: k.wait x) ∧
      ∀ y, k.current ∉ k.wait y := by
  have hnot : ∀ y, k.current ∉ k.wait y := by
    intro y hy
    cases hrun.symm.trans (h.onlySuspended y _ hy)
  have hwait : (k.setError .eok).rtThreadSuspend.wait = k.wait := by
    have hstat : ((k.setError .eok).thread (k.setError .eok).current).stat = .running := by
      unfold setError
      rw [setThread_current, setThread_self]
      exact hrun
    unfold rtThreadSuspend
    rw [if_pos (.inr hstat)]
    funext y
    exact rtListRemove_of_notMem (hnot y)
  refine ⟨?_, hnot⟩
  rw [suspendFirst_eq, hwait]

end

namespace Sys

variable {s s' : Sys τ} {a : Act τ}

section

variable {c : Callers τ Nat Call} (h : c.Ok waitsOn)
include h

/-- A part of `rt_mp_alloc` of the current thread. -/
theorem alloc_ok (hrun : c.Running)
    {mem mem' : Nat → UInt8} {mp mp' : RtMempool} {x : Nat} {time : Int} {k : Kernel τ Nat}
    {result : Result} (hk : rtMpAlloc c.kernel mem mp x time = some (k, mem', mp', result)) :
    Callers.Ok waitsOn (Callers.enter { c with kernel := k }
      (if result = .waits then some (.waiting x time) else none)) ∧ Effect c.kernel k := by
  unfold rtMpAlloc at hk
  split_ifs at hk with hcount htime
  · cases hk
    have hrun' : Callers.Running { c with kernel := c.kernel.setError .etimeout } := by
      unfold Callers.Running setError
      rw [setThread_current, setThread_self]
      exact hrun
    exact ⟨(h.setError hrun .etimeout).enter hrun' none, .same rfl⟩
  · cases hk
    obtain ⟨hwait, hnew⟩ := suspendFirst_wait h.waits hrun x (0 < time)
    have hblock := h.block hrun (c := Call.waiting x time) (x := x) rfl .fifo (0 < time)
    obtain ⟨-, -, -, hother, hperm⟩ := block_spec x .fifo (0 < time) hrun
    have heq := suspendFirst_eq c.kernel x (0 < time)
    have hremove := h.waits.onlySuspended.remove (t := c.kernel.current) (by
      intro hs
      cases hrun.symm.trans hs)
    refine ⟨⟨?_, ?_⟩, .push x hnew hwait⟩
    · obtain ⟨started, hinv⟩ := hblock.inv
      rw [heq]
      exact ⟨started, hinv.setWait _⟩
    · have hperms : ∀ y, ((suspendFirst c.kernel x (0 < time)).wait y).Perm
          ((c.kernel.block x .fifo (0 < time)).wait y) := by
        intro y
        rw [hwait]
        by_cases hy : y = x
        · subst hy
          rw [congrFun hremove y] at hperm
          rw [Function.update_self]
          exact hperm.symm
        · rw [Function.update_of_ne hy, hother y hy, congrFun hremove y]
      rw [heq] at hperms ⊢
      exact waits_perm hblock.waits hperms
  · dsimp only at hk
    split_ifs at hk
    cases hk
    exact ⟨h.enter hrun none, .same rfl⟩

/-- `rt_mp_free`, of a block that points to its pool. -/
theorem free_ok (mem : Nat → UInt8) (pool : Nat → RtMempool) {block x : Nat} (hblock : block ≠ 0)
    (howner : load32 mem (sub32 block 4) = x) :
    Callers.Ok waitsOn { c with kernel := (rtMpFree c.kernel mem pool block).1 } ∧
      (rtMpFree c.kernel mem pool block).1.wait =
        fun y => (c.kernel.wait x).head?.elim (c.kernel.wait y)
          (rtListRemove (c.kernel.wait y)) := by
  unfold rtMpFree
  rw [if_neg hblock]
  dsimp only
  rw [howner]
  cases hwait : c.kernel.wait x with
  | nil => exact ⟨h, rfl⟩
  | cons thread rest =>
    obtain ⟨hs, herror, -⟩ := h.head hwait
    -- a thread that waits has no error already
    have hsame : c.kernel.setThread thread (fun t => { t with error := .eok }) = c.kernel := by
      have heq : (fun t : RtThread => { t with error := .eok }) (c.kernel.thread thread) =
          c.kernel.thread thread := by
        rw [← herror]
      unfold setThread
      rw [heq, Function.update_eq_self]
    dsimp only
    rw [hsame]
    refine ⟨h.rtThreadResume thread, ?_⟩
    unfold rtThreadResume
    rw [if_pos hs, resume_wait]
    rfl

end

section

omit [DecidableEq τ]

theorem Good.wait_of_notMem (h : s.Good) {x : Nat} (hx : x ∉ s.pools) : s.kernel.wait x = [] := by
  rw [eq_nil_iff_forall_not_mem]
  intro t ht
  obtain ⟨c, hcall, hc⟩ := bind_eq_some_iff.mp ((h.ok.waits.mem x t).mp ht).2
  cases c with
  | waiting y time =>
    cases hc
    exact hx (h.pools.call t x time hcall)

theorem Good.block_ne (h : s.Good) {x block : Nat} (hx : x ∈ s.pools)
    (hblock : block ∈ s.allocated x) : block ≠ 0 ∧ sub32 block 4 = block - 4 := by
  obtain ⟨free, hpart⟩ := h.pools.part x hx
  have hbounds := (h.pools.laid x hx).block_bounds (hpart.allocated_mem hblock)
  have hstart := (h.pools.laid x hx).start
  have hbound := (h.pools.laid x hx).bound
  have hsize := (h.pools.laid x hx).blockSize
  refine ⟨by omega, sub32_eq (by omega) (by omega)⟩

/-- The word before an allocated block points to its pool. -/
theorem Good.block_owner (h : s.Good) {x block : Nat} (hx : x ∈ s.pools)
    (hblock : block ∈ s.allocated x) : load32 s.mem (sub32 block 4) = x := by
  obtain ⟨free, hpart⟩ := h.pools.part x hx
  rw [(h.block_ne hx hblock).2]
  exact hpart.owner block hblock

end

/-- What each step does to the pools, to the calls and to the suspend lists. -/
theorem Good.move (h : s.Good) {p : MemPool.Sys τ} (hstep : move s.toSys a = some p) :
    p.Good ∧ p.Ok waitsOn ∧ Effect s.kernel p.kernel := by
  have hresume : ∀ t, Effect s.kernel (s.kernel.rtThreadResume t) := by
    intro t
    unfold rtThreadResume
    split_ifs
    · exact .leave t resume_wait
    · exact .same rfl
  cases a with
  | background b =>
    obtain ⟨c, hc, rfl⟩ := map_eq_some_iff.mp hstep
    obtain ⟨k, hk, rfl⟩ := Callers.background_cases hc
    obtain ⟨hcalm, hok⟩ := h.ok.background hk
    exact ⟨h.pools.callers h.pools.call, hok, .same hcalm.wait⟩
  | sleep =>
    simp only [Sys.move] at hstep
    split_ifs at hstep with hfree
    cases hstep
    exact ⟨h.pools.callers h.pools.call, h.ok.rtThreadSleep hfree,
      .leave _ (rtThreadSleep_spec hfree.1).2.1⟩
  | resume t =>
    cases hstep
    exact ⟨h.pools.callers h.pools.call, h.ok.rtThreadResume t, hresume t⟩
  | pool a =>
    have hpools : ∀ b, s.toSys.exec b = some p → p.Good := fun b hb => h.pools.step hb
    cases a with
    | other k => cases hstep
    | init x start size blockSize =>
      have hexec : s.toSys.exec (.init x start size blockSize) = some p := hstep
      refine ⟨hpools _ hexec, ?_⟩
      rw [MemPool.Sys.exec] at hexec
      split_ifs at hexec with hx
      obtain ⟨⟨mem, mp⟩, -, hr⟩ := bind_eq_some_iff.mp hexec
      dsimp only at hr
      split_ifs at hr
      cases hr
      have hempty : Function.update s.kernel.wait x [] = s.kernel.wait := by
        rw [← h.wait_of_notMem hx.2.1, Function.update_eq_self]
      rw [hempty]
      exact ⟨h.ok, .same rfl⟩
    | alloc x time =>
      have hexec : s.toSys.exec (.alloc x time) = some p := hstep
      refine ⟨hpools _ hexec, ?_⟩
      rw [MemPool.Sys.exec] at hexec
      split_ifs at hexec with hfree
      obtain ⟨r, hr, rfl⟩ := map_eq_some_iff.mp hexec
      exact alloc_ok h.ok hfree.1.1 hr
    | go left =>
      simp only [Sys.move] at hstep
      split_ifs at hstep with hrun
      refine ⟨hpools _ hstep, ?_⟩
      rw [MemPool.Sys.exec] at hstep
      cases hcall : s.call s.kernel.current with
      | none =>
        rw [hcall] at hstep
        cases hstep
      | some c =>
        obtain ⟨x, time⟩ := c
        rw [hcall] at hstep
        split_ifs at hstep
        · cases hstep
          exact ⟨h.ok.enter hrun none, .same rfl⟩
        · obtain ⟨r, hr, rfl⟩ := map_eq_some_iff.mp hstep
          exact alloc_ok h.ok hrun hr
    | isrAlloc x =>
      have hexec : s.toSys.exec (.isrAlloc x) = some p := hstep
      refine ⟨hpools _ hexec, ?_⟩
      rw [MemPool.Sys.exec] at hexec
      split_ifs at hexec
      obtain ⟨r, -, rfl⟩ := map_eq_some_iff.mp hexec
      exact ⟨h.ok, .same rfl⟩
    | free x block =>
      have hexec : s.toSys.exec (.free x block) = some p := hstep
      refine ⟨hpools _ hexec, ?_⟩
      rw [MemPool.Sys.exec] at hexec
      split_ifs at hexec with hblock
      cases hexec
      obtain ⟨hok, hwait⟩ := free_ok h.ok s.mem s.pool (h.block_ne hblock.1 hblock.2).1
        (h.block_owner hblock.1 hblock.2)
      refine ⟨hok, ?_⟩
      cases hhead : (s.kernel.wait x).head? with
      | none =>
        rw [hhead] at hwait
        exact .same hwait
      | some t =>
        rw [hhead] at hwait
        exact .leave t hwait
    | write x block address value =>
      have hexec : s.toSys.exec (.write x block address value) = some p := hstep
      refine ⟨hpools _ hexec, ?_⟩
      rw [MemPool.Sys.exec] at hexec
      split_ifs at hexec
      cases hexec
      exact ⟨h.ok, .same rfl⟩
    | timeout t =>
      have hexec : s.toSys.exec (.timeout t) = some p := hstep
      refine ⟨hpools _ hexec, ?_⟩
      obtain ⟨c, hc, rfl⟩ := map_eq_some_iff.mp hstep
      obtain ⟨k, hk, rfl⟩ := Callers.timeout_cases hc
      exact ⟨h.ok.timeout hk, .leave t (threadTimeout_spec hk).2.2.1⟩

/-- The lists stay in the order of coming, read backwards. -/
theorem Good.step (h : s.Good) (hstep : Step s a s') : s'.Good := by
  obtain ⟨p, hp, rfl⟩ := map_eq_some_iff.mp hstep
  obtain ⟨hpools, hok, heffect⟩ := h.move hp
  refine ⟨hpools, hok, fun x => ?_⟩
  have hkept : ∀ l : List τ, (s.arrivals x).filter (· ∈ l) =
      ((s.kernel.wait x).filter (· ∈ l)).reverse := by
    intro l
    rw [h.order x, filter_reverse, reverse_reverse]
  have hnew : ∀ l : List τ, l.filter (· ∉ s.arrivals x) = l.filter (· ∉ s.kernel.wait x) := by
    intro l
    rw [h.order x]
    simp only [mem_reverse]
  have hsame : ∀ l : List τ, l.filter (· ∈ l) = l ∧ l.filter (· ∉ l) = [] := by
    intro l
    constructor <;> simp
  change p.kernel.wait x = ((s.arrivals x).filter (· ∈ p.kernel.wait x) ++
    (p.kernel.wait x).filter (· ∉ s.arrivals x)).reverse
  rw [hkept, hnew, reverse_append, reverse_reverse]
  cases heffect with
  | same hwait =>
    rw [hwait, (hsame _).1, (hsame _).2]
    rfl
  | leave t hwait =>
    have hno : (rtListRemove (s.kernel.wait x) t).filter (· ∉ s.kernel.wait x) = [] := by
      rw [filter_eq_nil_iff]
      intro u hu
      simpa using (mem_rtListRemove.mp hu).1
    have hstay : (s.kernel.wait x).filter (· ∈ rtListRemove (s.kernel.wait x) t) =
        rtListRemove (s.kernel.wait x) t := by
      apply filter_congr
      intro u hu
      simp [hu]
    rw [hwait, hno, hstay]
    rfl
  | push y hnew hwait =>
    by_cases hx : x = y
    · subst hx
      have hlast : (s.kernel.current :: s.kernel.wait x).filter (· ∉ s.kernel.wait x) =
          [s.kernel.current] := by
        rw [filter_cons_of_pos (by simpa using hnew x), (hsame _).2]
      have hstay : (s.kernel.wait x).filter (· ∈ s.kernel.current :: s.kernel.wait x) =
          s.kernel.wait x := by
        rw [filter_eq_self]
        intro u hu
        simp [hu]
      rw [hwait, Function.update_self, hlast, hstay]
      rfl
    · rw [hwait, Function.update_of_ne hx, (hsame _).1, (hsame _).2]
      rfl

omit [DecidableEq τ] in
theorem Initial.good (h : s.Initial) : s.Good := by
  refine ⟨MemPool.Sys.Initial.good h.pools, .start h.inv h.wait h.pools.call, fun x => ?_⟩
  rw [h.wait x, h.arrivals x]
  rfl

theorem reachable_good (h : Reachable Initial Step s) : s.Good :=
  h.induct (·.good) (·.step)

/-- The threads that still wait for the pool are those behind the first. -/
theorem Good.free_wait (h : s.Good) {x block : Nat} (hstep : Step s (.pool (.free x block)) s') :
    s'.kernel.wait x = (s.kernel.wait x).tail := by
  obtain ⟨p, hp, rfl⟩ := map_eq_some_iff.mp hstep
  have hexec : s.toSys.exec (.free x block) = some p := hp
  rw [MemPool.Sys.exec] at hexec
  split_ifs at hexec with hblock
  cases hexec
  obtain ⟨-, hwait⟩ := free_ok h.ok s.mem s.pool (h.block_ne hblock.1 hblock.2).1
    (h.block_owner hblock.1 hblock.2)
  refine (congrFun hwait x).trans ?_
  have hnodup := h.ok.waits.nodup x
  cases hlist : s.kernel.wait x with
  | nil => rfl
  | cons t rest =>
    rw [hlist] at hnodup
    exact rtListRemove_cons_self (nodup_cons.mp hnodup).1

omit [DecidableEq τ] in
/-- With one waiter the order is kept, and with more the last one to come goes first. -/
theorem Good.overtakes_iff (h : s.Good) {x : Nat}
    (hwait : s'.kernel.wait x = (s.kernel.wait x).tail) :
    Overtakes s x s' ↔ 1 < (s.kernel.wait x).length := by
  have hnodup := h.ok.waits.nodup x
  have hsub : ∀ a b, [a, b].Sublist (s.arrivals x) ↔ [b, a].Sublist (s.kernel.wait x) := by
    intro a b
    rw [h.order x]
    have hreverse : [a, b].reverse = [b, a] := rfl
    rw [← hreverse, reverse_sublist]
  unfold Overtakes
  simp only [hsub, hwait]
  cases hlist : s.kernel.wait x with
  | nil => simp
  | cons b rest =>
    rw [hlist] at hnodup
    have hb := (nodup_cons.mp hnodup).1
    rw [length_cons, tail_cons]
    constructor
    · rintro ⟨a, c, -, -, ha⟩
      have hpos := length_pos_of_mem ha
      omega
    · intro hlen
      obtain ⟨a, tail, rfl⟩ := exists_cons_of_length_pos (l := rest) (by omega)
      refine ⟨a, b, ?_, hb, .head _⟩
      simp

/-- When a block is given back no thread overtakes another one that waits for the pool exactly when
at most one thread waits, and a thread that is resumed is the last of those who have come. -/
theorem reachable_served (s : Sys τ) (h : Reachable Initial Step s) (x block : Nat) (s' : Sys τ)
    (hstep : Step s (.pool (.free x block)) s') :
    (¬ Overtakes s x s' ↔ (s.kernel.wait x).length ≤ 1) ∧
      ∀ t ∈ s.kernel.wait x, t ∉ s'.kernel.wait x → (s.arrivals x).getLast? = some t := by
  have hgood := reachable_good h
  have hwait := hgood.free_wait hstep
  refine ⟨by rw [hgood.overtakes_iff hwait, Nat.not_lt], fun t ht hnot => ?_⟩
  have harrivals : s.arrivals x = (s.kernel.wait x).reverse := by
    rw [hgood.order x, List.reverse_reverse]
  rw [harrivals, List.getLast?_reverse]
  rw [hwait] at hnot
  cases hlist : s.kernel.wait x with
  | nil =>
    rw [hlist] at ht
    cases ht
  | cons b rest =>
    rw [hlist] at ht hnot
    rcases List.mem_cons.mp ht with rfl | ht
    · rfl
    · exact absurd ht hnot

/-- Three threads and no pool. -/
def start : Sys (Fin 3) :=
  { kernel := boot (fun t => 10 * t + 10) 0 [1, 2]
    call := fun _ => none, mem := fun _ => 0
    pool := fun _ =>
      { startAddress := 0, size := 0, blockSize := 0, blockList := 0, blockTotalCount := 0
        blockFreeCount := 0 }
    pools := [], allocated := fun _ => [], arrivals := fun _ => [] }

/-- The only block is taken by an interrupt, and two threads wait for it one after the other. -/
def twoWaiters : List (Act (Fin 3)) :=
  [.pool (.init 16 4096 12 8), .pool (.isrAlloc 16), .pool (.alloc 16 (-1)),
    .background .schedule, .pool (.alloc 16 (-1)), .background .schedule]

theorem start_initial : start.Initial :=
  ⟨⟨rfl, fun _ => rfl, fun _ => rfl⟩, ⟨_, boot_inv (by decide) 0 [1, 2]⟩, fun x => by rfl,
    fun _ => rfl⟩

/-- The run, and the step in which the block is given back. -/
theorem twoWaiters_free : ∃ s s' : Sys (Fin 3), Reachable Initial Step s ∧
    Step s (.pool (.free 16 4100)) s' ∧ s.kernel.wait 16 = [1, 0] ∧ s'.kernel.wait 16 = [0] ∧
      s.arrivals 16 = [0, 1] := by
  obtain ⟨s, hs, s', hrest⟩ : ∃ s ∈ runAll exec start twoWaiters,
      ∃ s' ∈ s.exec (.pool (.free 16 4100)), s.kernel.wait 16 = [1, 0] ∧ s'.kernel.wait 16 = [0] ∧
        s.arrivals 16 = [0, 1] := by
    decide +kernel
  exact ⟨s, s', (Reachable.start start_initial).runAll hs, hrest⟩

/-- Of two waiters the one that has come first is left waiting. -/
theorem reachable_served_two : ∃ s s' : Sys (Fin 3),
    (¬ Overtakes s 16 s' ↔ (s.kernel.wait 16).length ≤ 1) ∧
      (∀ t ∈ s.kernel.wait 16, t ∉ s'.kernel.wait 16 → (s.arrivals 16).getLast? = some t) ∧
      s.kernel.wait 16 = [1, 0] := by
  obtain ⟨s, s', hs, hstep, hwait, -, -⟩ := twoWaiters_free
  obtain ⟨hiff, hlast⟩ := reachable_served s hs 16 4100 s' hstep
  exact ⟨s, s', hiff, hlast, hwait⟩

/-- Thread 1 has come after thread 0 and gets the block before it. -/
theorem later_overtakes : ∃ s s' : Sys (Fin 3), Reachable Initial Step s ∧
    Step s (.pool (.free 16 4100)) s' ∧ Overtakes s 16 s' := by
  obtain ⟨s, s', hs, hstep, -, hwait', harrivals⟩ := twoWaiters_free
  refine ⟨s, s', hs, hstep, 0, 1, ?_, ?_, ?_⟩
  · rw [harrivals]
  · rw [hwait']
    decide
  · rw [hwait']
    decide

end Sys

end RtKernel.MemPool.Order

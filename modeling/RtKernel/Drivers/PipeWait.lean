import RtKernel.Drivers.PipeStream
import Mathlib.Data.Fintype.Basic

/-!
# Waiting for a pipe

A call that is suspended while it could go on needs a thread that will resume it, and
one that is about to wait needs such a thread or the flag of its queue. A wake-up
resumes one thread only, so that a call which has been woken up must not return and
leave bytes, or room, to another one.
-/

namespace RtKernel.Pipe

open RingBuffer List Option

theorem Side.other_ne (side : Side) : side.other ≠ side := by
  cases side <;> decide

theorem Side.eq_other {side side' : Side} (h : side ≠ side') : side = side'.other := by
  cases side <;> cases side' <;> first | rfl | exact absurd rfl h

/-- How many bytes a call is to transfer, as the ring buffer is told. -/
def Call.amount : Call → Nat
  | .read count _ => count % 2 ^ 16
  | .write pbuf _ _ => pbuf.length % 2 ^ 16

namespace Phase

/-- A thread is suspended in the queue of a side. -/
def On (side : Side) : Phase → Prop
  | .suspended c => c.side = side
  | _ => False

/-- A thread has not found what it needs, and has not waited for it yet. -/
def About (side : Side) : Phase → Prop
  | .wakes c none | .waits c => c.side = side
  | _ => False

/-- A thread has been woken up and looks at the buffer, or is going to wake up the queue. -/
def Helps (openers : Side → Nat) (side : Side) : Phase → Prop
  | .woken c | .rechecks c => c.side = side
  | .wakes c _ => c.side.other = side
  | .closes => openers side.other = 0
  | .closesWriters => side = .writer ∧ openers .reader = 0
  | _ => False

/-- No woken thread is waiting to run, and no call is between the buffer and its wake-up. -/
def Quiet : Phase → Prop
  | .idle | .enters _ | .waits _ | .suspended _ => True
  | _ => False

variable {side : Side} {phase : Phase}

theorem On.suspended (h : phase.On side) :
    ∃ c, phase = .suspended c ∧ c.side = side := by
  cases phase with
  | suspended c => exact ⟨c, rfl, h⟩
  | idle | enters | rechecks | wakes | waits | woken | closes | closesWriters => exact h.elim

theorem Quiet.not_helps {openers : Side → Nat} (h : phase.Quiet) :
    ¬ phase.Helps openers side := by
  cases phase with
  | idle | enters | waits | suspended => exact id
  | rechecks | wakes | woken | closes | closesWriters => exact h.elim

/-- Who does not close the pipe helps whoever has it open. -/
theorem Helps.openers {openers openers' : Side → Nat}
    (h : phase.Helps openers side) (hholding : ¬ phase.Holding) : phase.Helps openers' side := by
  cases phase with
  | rechecks c | wakes c result | woken c => exact h
  | closes | closesWriters => exact absurd trivial hholding
  | idle | enters | waits | suspended => exact h.elim

end Phase

namespace RtPipe

variable {τ : Type*} {s t : RtPipe τ} {i : τ} {side : Side}

/-- The bytes that a call of a side can transfer. -/
def available (s : RtPipe τ) : Side → Nat
  | .reader => s.dataLen
  | .writer => s.spaceLen

/-- A call of a side has no reason to be suspended. -/
def Ready (s : RtPipe τ) (side : Side) : Prop := s.available side ≠ 0 ∨ s.openers side.other = 0

/-- No call is suspended that could go on, once all that has been woken up has run. -/
def Settled (s : RtPipe τ) : Prop :=
  (∀ t, (s.phase t).Quiet) → ∀ t c, s.phase t = .suspended c → ¬ s.Ready c.side

/-- Some thread will see to the queue of a side. -/
def Pending (s : RtPipe τ) (side : Side) : Prop := ∃ t, (s.phase t).Helps s.openers side

/-- Who may be overlooked is seen to. -/
structure Guarded (s : RtPipe τ) (side : Side) : Prop where
  on : s.Ready side → ∀ t, (s.phase t).On side → s.Pending side
  about : s.Ready side → ∀ t, (s.phase t).About side → (s.queue side).flag = true ∨ s.Pending side

theorem Guarded.of_pending (h : s.Pending side) : Guarded s side :=
  ⟨fun _ _ _ => h, fun _ _ _ => .inr h⟩

theorem Guarded.of_helps (h : (s.phase i).Helps s.openers side) : Guarded s side :=
  .of_pending ⟨i, h⟩

theorem Guarded.of_not_ready (h : ¬ s.Ready side) : Guarded s side :=
  ⟨fun hready => absurd hready h, fun hready => absurd hready h⟩

theorem Guarded.mono (h : Guarded s side) (hready : t.Ready side → s.Ready side)
    (hflag : (s.queue side).flag = true → (t.queue side).flag = true)
    (hhelps : ∀ u, (s.phase u).Helps s.openers side → t.Pending side)
    (hon : ∀ u, (t.phase u).On side → (s.phase u).On side)
    (habout : ∀ u, (t.phase u).About side → (s.phase u).About side) : Guarded t side := by
  constructor
  · intro hr u hu
    obtain ⟨v, hv⟩ := h.on (hready hr) u (hon u hu)
    exact hhelps v hv
  · intro hr u hu
    rcases h.about (hready hr) u (habout u hu) with hset | ⟨v, hv⟩
    · exact .inl (hflag hset)
    · exact .inr (hhelps v hv)

theorem Guarded.settled (h : ∀ side, Guarded s side) : s.Settled := by
  intro hquiet u c hc hready
  obtain ⟨v, hv⟩ := (h c.side).on hready u (by rw [hc]; rfl)
  exact (hquiet v).not_helps hv

/-- The queues hold the threads that are suspended. -/
structure Queued (s : RtPipe τ) : Prop where
  mem : ∀ side t, t ∈ (s.queue side).waitingList ↔ (s.phase t).On side
  nodup : ∀ side, (s.queue side).waitingList.Nodup

theorem Queued.congr (h : Queued s)
    (hlist : ∀ side, (t.queue side).waitingList = (s.queue side).waitingList)
    (hon : ∀ side u, (t.phase u).On side ↔ (s.phase u).On side) : Queued t := by
  constructor
  · intro side u
    rw [hlist, hon]
    exact h.mem side u
  · intro side
    rw [hlist]
    exact h.nodup side

/-- Threads other than `i` are seen to by others than `i`. -/
def Covered (s : RtPipe τ) (i : τ) (side : Side) : Prop :=
  ∀ u, u ≠ i →
    ((s.phase u).On side → ∃ v, v ≠ i ∧ (s.phase v).Helps s.openers side) ∧
    ((s.phase u).About side →
      (s.queue side).flag = true ∨ ∃ v, v ≠ i ∧ (s.phase v).Helps s.openers side)

variable [DecidableEq τ] {x : Phase}

/-- The others stay where they are, and `i` needs nobody. -/
theorem Covered.guarded (h : Covered s i side) (hphase : t.phase = Function.update s.phase i x)
    (hqueue : t.queue side = s.queue side) (hopeners : t.openers = s.openers) (hon : ¬ x.On side)
    (habout : ¬ x.About side) : Guarded t side := by
  have hpending : (∃ v, v ≠ i ∧ (s.phase v).Helps s.openers side) → t.Pending side := by
    rintro ⟨v, hv, hhelps⟩
    refine ⟨v, ?_⟩
    rw [hphase, hopeners, Function.update_of_ne hv]
    exact hhelps
  constructor
  · intro _ u hu
    rw [hphase] at hu
    by_cases hui : u = i
    · rw [hui, Function.update_self] at hu
      exact absurd hu hon
    · rw [Function.update_of_ne hui] at hu
      exact hpending ((h u hui).1 hu)
  · intro _ u hu
    rw [hphase] at hu
    by_cases hui : u = i
    · rw [hui, Function.update_self] at hu
      exact absurd hu habout
    · rw [Function.update_of_ne hui] at hu
      rw [hqueue]
      exact ((h u hui).2 hu).imp_right hpending

/-- A thread goes on that helps no less, and needs no more. -/
theorem Guarded.update (h : Guarded s side) (hphase : t.phase = Function.update s.phase i x)
    (hqueue : t.queue side = s.queue side) (hopeners : t.openers = s.openers)
    (hready : t.Ready side → s.Ready side)
    (hhelps : (s.phase i).Helps s.openers side → x.Helps s.openers side)
    (hon : ¬ x.On side) (habout : x.About side → (s.phase i).About side) : Guarded t side := by
  refine h.mono hready (hqueue ▸ id) (fun u hu => ⟨u, ?_⟩) (fun u hu => ?_) fun u hu => ?_
  · rw [hphase, hopeners]
    by_cases hui : u = i
    · subst hui
      rw [Function.update_self]
      exact hhelps hu
    · rw [Function.update_of_ne hui]
      exact hu
  · rw [hphase] at hu
    by_cases hui : u = i
    · rw [hui, Function.update_self] at hu
      exact absurd hu hon
    · rw [Function.update_of_ne hui] at hu
      exact hu
  · rw [hphase] at hu
    by_cases hui : u = i
    · rw [hui, Function.update_self] at hu
      rw [hui]
      exact habout hu
    · rw [Function.update_of_ne hui] at hu
      exact hu

/-- A thread goes on that neither was nor is suspended. -/
theorem Queued.update (h : Queued s) (hphase : t.phase = Function.update s.phase i x)
    (hlist : ∀ side, (t.queue side).waitingList = (s.queue side).waitingList)
    (hbefore : ∀ side, ¬ (s.phase i).On side) (hafter : ∀ side, ¬ x.On side) : Queued t := by
  refine h.congr hlist fun side u => ?_
  rw [hphase]
  by_cases hui : u = i
  · subst hui
    rw [Function.update_self]
    exact iff_of_false (hafter side) (hbefore side)
  · rw [Function.update_of_ne hui]

omit [DecidableEq τ] in
theorem setQueue_self (side : Side) (queue : RtWqueue τ) : (s.setQueue side queue).queue side = queue :=
  Function.update_self side _ _

omit [DecidableEq τ] in
theorem setQueue_of_ne {side' : Side} (h : side' ≠ side) (queue : RtWqueue τ) :
    (s.setQueue side queue).queue side' = s.queue side' :=
  Function.update_of_ne h _ _

/-- A wake-up sets the flag, and resumes a thread if any is suspended. -/
theorem Queued.wakeup_spec (h : Queued s) (side : Side) : Queued (s.wakeup side) ∧
    ((s.wakeup side).queue side).flag = true ∧
    (∀ side', side' ≠ side → (s.wakeup side).queue side' = s.queue side') ∧
    ((∃ e c, s.phase e = .suspended c ∧ c.side = side ∧
        (s.wakeup side).phase = Function.update s.phase e (.woken c)) ∨
      (∀ u, ¬ (s.phase u).On side) ∧ (s.wakeup side).phase = s.phase) := by
  unfold wakeup rtWqueueWakeup
  cases hlist : (s.queue side).waitingList with
  | nil =>
    have hself := setQueue_self (s := s) side { flag := true, waitingList := [] }
    refine ⟨h.congr (fun side' => ?_) fun _ _ => Iff.rfl, ?_, ?_, .inr ⟨fun u hu => ?_, rfl⟩⟩
    · by_cases hside : side' = side
      · subst hside
        rw [hself, hlist]
      · exact congrArg RtWqueue.waitingList (setQueue_of_ne hside _)
    · dsimp only
      rw [hself]
    · exact fun side' hside => setQueue_of_ne hside _
    · have hmem := (h.mem side u).mpr hu
      rw [hlist] at hmem
      cases hmem
  | cons e rest =>
    have hon := (h.mem side e).mp (hlist ▸ mem_cons_self)
    obtain ⟨c, hc, hside⟩ := hon.suspended
    have hnodup := h.nodup side
    rw [hlist, nodup_cons] at hnodup
    have hresume : resume (s.phase e) = .woken c := by rw [hc]; rfl
    dsimp only
    rw [hresume]
    have hself := setQueue_self (s := s) side { flag := true, waitingList := rest }
    refine ⟨⟨fun side' u => ?_, fun side' => ?_⟩, ?_, ?_, .inl ⟨e, c, hc, hside, rfl⟩⟩
    · show u ∈ ((s.setQueue side { flag := true, waitingList := rest }).queue side').waitingList ↔
        (Function.update s.phase e (.woken c) u).On side'
      by_cases hu : u = e
      · subst hu
        rw [Function.update_self]
        refine iff_of_false (fun hmem => ?_) id
        by_cases hside' : side' = side
        · subst hside'
          rw [hself] at hmem
          exact hnodup.1 hmem
        · rw [setQueue_of_ne hside', h.mem side' u, hc] at hmem
          exact hside' (hmem.symm.trans hside)
      · rw [Function.update_of_ne hu, ← h.mem]
        by_cases hside' : side' = side
        · subst hside'
          rw [hself, hlist, mem_cons, or_iff_right hu]
        · rw [setQueue_of_ne hside']
    · show ((s.setQueue side { flag := true, waitingList := rest }).queue side').waitingList.Nodup
      by_cases hside' : side' = side
      · subst hside'
        rw [hself]
        exact hnodup.2
      · rw [setQueue_of_ne hside']
        exact h.nodup side'
    · exact congrArg RtWqueue.flag hself
    · exact fun side' hside' => setQueue_of_ne hside' _

/-- Once a queue has been woken up its threads do without the one that has done it. -/
theorem Queued.wakeup_covered (h : Queued s) (hi : ∀ side, ¬ (s.phase i).On side) (side : Side) :
    Covered (s.wakeup side) i side := by
  obtain ⟨-, hflag, -, ⟨e, c, hc, hside, hphase⟩ | ⟨hnone, hphase⟩⟩ := h.wakeup_spec side
  · have hei : e ≠ i := by
      rintro rfl
      exact hi c.side (by rw [hc]; rfl)
    have hhelps : ∃ v, v ≠ i ∧ ((s.wakeup side).phase v).Helps (s.wakeup side).openers side := by
      refine ⟨e, hei, ?_⟩
      rw [hphase, Function.update_self]
      exact hside
    exact fun u _ => ⟨fun _ => hhelps, fun _ => .inl hflag⟩
  · intro u _
    rw [hphase]
    exact ⟨fun hu => absurd hu (hnone u), fun _ => .inl hflag⟩

theorem wakeup_ready (side side' : Side) : (s.wakeup side).Ready side' ↔ s.Ready side' := by
  obtain ⟨hsame, -⟩ := wakeup_spec (s := s) side
  have havailable : (s.wakeup side).available side' = s.available side' := by
    cases side' with
    | reader => simp only [available, dataLen, hsame.fifo]
    | writer => simp only [available, spaceLen, hsame.fifo]
  unfold Ready
  rw [havailable, hsame.openers]

/-- A wake-up of one queue keeps what holds of the other. -/
theorem Guarded.wakeup {side' : Side} (h : Guarded s side') (hq : Queued s) (hside : side' ≠ side) :
    Guarded (s.wakeup side) side' := by
  obtain ⟨hsame, -⟩ := RtPipe.wakeup_spec (s := s) side
  obtain ⟨-, -, hqueue, ⟨e, c, hc, hside', hphase⟩ | ⟨-, hphase⟩⟩ := hq.wakeup_spec side
  · refine h.update hphase (hqueue side' hside) hsame.openers (wakeup_ready side side').mp ?_ id ?_
    · rw [hc]
      exact False.elim
    · exact False.elim
  · refine h.mono (wakeup_ready side side').mp ?_ (fun u hu => ⟨u, ?_⟩) ?_ ?_
    · rw [hqueue side' hside]
      exact id
    · rw [hphase, hsame.openers]
      exact hu
    all_goals
      rw [hphase]
      exact fun _ => id

/-- A call that looks at the buffer leaves bytes, or room, or nobody is on the other side. -/
def Leaves (s : RtPipe τ) (c : Call) : Prop :=
  s.openers c.side.other = 0 ∨ c.amount < s.available c.side

variable {c : Call}

omit [DecidableEq τ] in
theorem Leaves.ready (h : s.Leaves c) : s.Ready c.side :=
  h.symm.imp_left fun hlt => (Nat.zero_lt_of_lt hlt).ne'

/-- What a call does that has the lock. -/
structure Accessed (s t : RtPipe τ) (i : τ) (c : Call) (x : Phase) : Prop where
  phase : t.phase = Function.update s.phase i x
  queue : t.queue = s.queue
  openers : t.openers = s.openers
  /-- It waits for what is not there, or returns. -/
  own : (∃ c', c'.side = c.side ∧ x = .wakes c' none ∧ ¬ t.Ready c.side) ∨
    (x = .idle ∨ ∃ c' result, c'.side = c.side ∧ x = .wakes c' (some result)) ∧
      (t.Ready c.side → s.Leaves c)
  /-- When it wakes up nobody, the buffer is as it was. -/
  other : x = .idle → t.Ready c.side.other → s.Ready c.side.other

theorem Sound.read_accessed {count : Nat} {nonblock : Bool} (h : Sound s) (hlock : s.lock = none)
    (hfits : s.Fits (.read count nonblock)) (hread : s.pipeFopsRead i count nonblock = some t) :
    ∃ x, Accessed s t i (.read count nonblock) x := by
  unfold pipeFopsRead at hread
  by_cases hopen : s.openers .writer = 0
  · rw [if_pos hopen] at hread
    cases hread
    exact ⟨.idle, rfl, rfl, rfl, .inr ⟨.inl rfl, fun _ => .inl hopen⟩, fun _ => id⟩
  · rw [if_neg hopen] at hread
    obtain ⟨n, rb, q, hfifo, hholds, hsize, hstream, hpos⟩ := h.held hlock hopen
    obtain ⟨rb', hget, hholds'⟩ := hholds.get (count % 2 ^ 16)
    obtain ⟨hdata, hspace⟩ := lengths hfifo hholds
    have hdata' : rtRingbufferDataLen rb' = q.length - count % 2 ^ 16 := by
      rw [hholds'.rtRingbufferDataLen_eq, length_drop]
    have hspace' : rtRingbufferSpaceLen rb' = n - (q.length - count % 2 ^ 16) := by
      rw [hholds'.rtRingbufferSpaceLen_eq, length_drop]
    -- what is left is what the call does not take
    have hleaves : ∀ u : RtPipe τ, u.fifo = some rb' → u.openers = s.openers →
        u.Ready .reader → s.Leaves (.read count nonblock) := by
      intro u hu hopeners hready
      rcases hready with hleft | hnone
      · refine .inr ?_
        have hlen : rtRingbufferDataLen rb' ≠ 0 := by
          simpa only [available, dataLen, hu, elim_some] using hleft
        show count % 2 ^ 16 < s.dataLen
        omega
      · rw [hopeners] at hnone
        exact .inl hnone
    rw [hfifo, bind_some, hget, map_some, some_inj] at hread
    dsimp only at hread
    split_ifs at hread with hlen hnonblock
    · subst hread
      exact ⟨_, rfl, rfl, rfl, .inr ⟨.inr ⟨_, _, rfl, rfl⟩, hleaves _ rfl rfl⟩, fun hx => (by cases hx)⟩
    · subst hread
      refine ⟨.idle, rfl, rfl, rfl, .inr ⟨.inl rfl, hleaves _ rfl rfl⟩, fun _ hready => ?_⟩
      refine hready.imp_left fun hroom => ?_
      have hroom' : rtRingbufferSpaceLen rb' ≠ 0 := hroom
      show s.spaceLen ≠ 0
      omega
    · subst hread
      refine ⟨_, rfl, rfl, rfl, .inl ⟨_, rfl, rfl, ?_⟩, fun hx => (by cases hx)⟩
      rintro (hleft | hnone)
      · have hlen' : rtRingbufferDataLen rb' ≠ 0 := hleft
        have hzero := hfits hopen (Bool.eq_false_iff.mpr hnonblock)
        omega
      · exact hopen hnone

theorem Sound.write_accessed {pbuf : List UInt8} {ret : Nat} {nonblock again : Bool} (h : Sound s)
    (hlock : s.lock = none) (hfits : s.Fits (.write pbuf ret nonblock))
    (hwrite : s.pipeFopsWrite i pbuf ret nonblock again = some t) :
    ∃ x, Accessed s t i (.write pbuf ret nonblock) x := by
  unfold pipeFopsWrite at hwrite
  by_cases hopen : s.openers .reader = 0
  · simp only [if_pos hopen] at hwrite
    split_ifs at hwrite
    all_goals cases hwrite
    · exact ⟨_, rfl, rfl, rfl, .inr ⟨.inr ⟨_, _, rfl, rfl⟩, fun _ => .inl hopen⟩, fun _ => id⟩
    · exact ⟨_, rfl, rfl, rfl, .inr ⟨.inr ⟨_, _, rfl, rfl⟩, fun _ => .inl hopen⟩, fun _ => id⟩
    all_goals exact ⟨.idle, rfl, rfl, rfl, .inr ⟨.inl rfl, fun _ => .inl hopen⟩, fun _ => id⟩
  · rw [if_neg hopen] at hwrite
    obtain ⟨n, rb, q, hfifo, hholds, hsize, hstream, hpos⟩ := h.held hlock hopen
    obtain ⟨rb', hput, hholds'⟩ := hholds.put (pbuf.take (pbuf.length % 2 ^ 16))
    have hspace := (lengths hfifo hholds).2
    have htaken : (pbuf.take (pbuf.length % 2 ^ 16)).length = pbuf.length % 2 ^ 16 := by
      rw [length_take]
      exact Nat.min_eq_left (Nat.mod_le _ _)
    have hspace' : rtRingbufferSpaceLen rb' = n - q.length - pbuf.length % 2 ^ 16 := by
      rw [hholds'.rtRingbufferSpaceLen_eq, length_append, length_take]
      omega
    -- there is room left when all that is offered has been taken
    have hleaves : ∀ u : RtPipe τ, u.fifo = some rb' → u.openers = s.openers →
        u.Ready .writer → s.Leaves (.write pbuf ret nonblock) := by
      intro u hu hopeners hready
      rcases hready with hleft | hnone
      · refine .inr ?_
        have hlen : rtRingbufferSpaceLen rb' ≠ 0 := by
          simpa only [available, spaceLen, hu, elim_some] using hleft
        show pbuf.length % 2 ^ 16 < s.spaceLen
        omega
      · rw [hopeners] at hnone
        exact .inl hnone
    rw [hfifo, bind_some, hput, map_some, some_inj, htaken] at hwrite
    dsimp only at hwrite
    generalize hL : min (pbuf.length % 2 ^ 16) (n - q.length) = L at hwrite
    have hside : (Call.write (pbuf.drop L) (ret + L) nonblock).side =
        (Call.write pbuf ret nonblock).side := rfl
    split_ifs at hwrite with hdone hnonblock hnothing
    rotate_left 3
    · subst hwrite
      refine ⟨_, rfl, rfl, rfl, .inl ⟨_, hside, rfl, ?_⟩, fun hx => (by cases hx)⟩
      rintro (hleft | hnone)
      · have hlen' : rtRingbufferSpaceLen rb' ≠ 0 := hleft
        have hroom := hfits hopen (Bool.eq_false_iff.mpr hnonblock)
        rw [drop_eq_nil_iff] at hdone
        omega
      · exact hopen hnone
    -- the call is over, or returns to the caller with what it has
    all_goals
      subst hwrite
      exact ⟨_, rfl, rfl, rfl, .inr ⟨.inr ⟨_, _, hside, rfl⟩, hleaves _ rfl rfl⟩,
        fun hx => (by cases hx)⟩

theorem Sound.access_accessed {again : Bool} (h : Sound s) (hfits : s.Fits c)
    (haccess : s.access i c again = some t) : ∃ x, Accessed s t i c x := by
  obtain ⟨hlock, haccess⟩ := ite_none_right_eq_some.mp haccess
  cases c with
  | read count nonblock => exact h.read_accessed hlock hfits haccess
  | write pbuf ret nonblock => exact h.write_accessed hlock hfits haccess

/-- The threads in the queues are those that are suspended, and all are seen to. -/
structure Seen (s : RtPipe τ) : Prop where
  queued : Queued s
  guarded : ∀ side, Guarded s side

theorem Accessed.quiet (h : Accessed s t i c x) (side : Side) : ¬ x.On side := by
  rcases h.own with ⟨c', -, rfl, -⟩ | ⟨rfl | ⟨c', result, -, rfl⟩, -⟩
  · exact id
  · exact id
  · exact id

section

variable (h : Seen s)
include h

theorem Seen.access (hx : Accessed s t i c x)
    (hphase : s.phase i = .enters c ∨ s.phase i = .rechecks c)
    (hcovered : s.phase i = .rechecks c → s.Leaves c → s.Covered i c.side) : Seen t := by
  have hbefore : ∀ side, ¬ (s.phase i).On side := by
    intro side
    rcases hphase with heq | heq
    · rw [heq]
      exact id
    · rw [heq]
      exact id
  refine ⟨h.queued.update hx.phase (fun _ => by rw [hx.queue]) hbefore hx.quiet, fun side => ?_⟩
  have hqueue : t.queue side = s.queue side := congrFun hx.queue side
  by_cases hside : side = c.side
  · subst hside
    by_cases hready : t.Ready c.side
    · rcases hx.own with ⟨-, -, -, hnot⟩ | ⟨hreturns, hleaves⟩
      · exact absurd hready hnot
      · have habout : ¬ x.About c.side := by
          rcases hreturns with rfl | ⟨c', result, -, rfl⟩
          · exact id
          · exact id
        rcases hphase with heq | heq
        · refine (h.guarded c.side).update hx.phase hqueue hx.openers
            (fun hr => (hleaves hr).ready) ?_ (hx.quiet c.side) fun hab => absurd hab habout
          rw [heq]
          exact False.elim
        · exact (hcovered heq (hleaves hready)).guarded hx.phase hqueue hx.openers (hx.quiet c.side)
            habout
    · exact .of_not_ready hready
  · have hother := Side.eq_other hside
    have hwakes : ∀ c' result, c'.side = c.side → x = .wakes c' result → Guarded t side := by
      rintro c' result hc' rfl
      refine Guarded.of_helps (i := i) ?_
      rw [hx.phase, Function.update_self]
      exact (congrArg Side.other hc').trans hother.symm
    rcases hx.own with ⟨c', hc', hnone, -⟩ | ⟨rfl | ⟨c', result, hc', hsome⟩, -⟩
    · exact hwakes c' none hc' hnone
    · refine (h.guarded side).update hx.phase hqueue hx.openers (hother ▸ hx.other rfl) ?_ id False.elim
      rcases hphase with heq | heq
      · rw [heq]
        exact False.elim
      · rw [heq]
        exact fun hc => absurd hc.symm hside
    · exact hwakes c' (some result) hc' hsome

theorem Seen.wakeup (side : Side) (hphase : ∀ σ, ¬ (s.phase i).On σ)
    (ht : t.phase = Function.update (s.wakeup side).phase i x) (hqueue : t.queue = (s.wakeup side).queue)
    (hopeners : t.openers = s.openers) (hready : ∀ σ, t.Ready σ → s.Ready σ)
    (hon : ∀ σ, ¬ x.On σ) (habout : ∀ σ, x.About σ → σ ≠ side ∧ (s.phase i).About σ)
    (hhelps : ∀ σ, σ ≠ side → (s.phase i).Helps s.openers σ → x.Helps s.openers σ) : Seen t := by
  obtain ⟨hsame, -, -, hphases⟩ := RtPipe.wakeup_spec (s := s) side
  obtain ⟨hqueued, -⟩ := h.queued.wakeup_spec side
  have hstill : (s.wakeup side).phase i = s.phase i := by
    rcases hphases i with heq | ⟨c, hc, -⟩
    · exact heq
    · exact absurd (by rw [hc]; rfl) (hphase c.side)
  have hopeners' : t.openers = (s.wakeup side).openers := hopeners.trans hsame.openers.symm
  refine ⟨hqueued.update ht (fun _ => by rw [hqueue]) (fun σ => hstill ▸ hphase σ) hon, fun σ => ?_⟩
  by_cases hσ : σ = side
  · subst hσ
    exact (h.queued.wakeup_covered hphase σ).guarded ht (congrFun hqueue σ) hopeners' (hon σ)
      fun hab => (habout σ hab).1 rfl
  · refine ((h.guarded σ).wakeup h.queued hσ).update ht (congrFun hqueue σ) hopeners'
      (fun hr => (wakeup_ready side σ).mpr (hready σ hr)) ?_ (hon σ) fun hab => ?_
    · rw [hstill, hsame.openers]
      exact hhelps σ hσ
    · rw [hstill]
      exact (habout σ hab).2

theorem Seen.goOn (hphase : ∀ σ, ¬ (s.phase i).On σ)
    (ht : t.phase = Function.update s.phase i x) (hqueue : t.queue = s.queue)
    (hopeners : t.openers = s.openers) (hready : ∀ σ, t.Ready σ → s.Ready σ)
    (hon : ∀ σ, ¬ x.On σ) (habout : ∀ σ, x.About σ → (s.phase i).About σ)
    (hhelps : ∀ σ, (s.phase i).Helps s.openers σ → x.Helps s.openers σ) : Seen t :=
  ⟨h.queued.update ht (fun _ => by rw [hqueue]) hphase hon, fun σ =>
    (h.guarded σ).update ht (congrFun hqueue σ) hopeners (hready σ) (hhelps σ) (hon σ) (habout σ)⟩

/-- A thread looks at the buffer next, and has cleared the flag. -/
theorem Seen.recheck {queue : RtWqueue τ} (hphase : ∀ σ, ¬ (s.phase i).On σ)
    (hqueue : queue.waitingList = (s.queue c.side).waitingList)
    (hhelps : ∀ σ, σ ≠ c.side → ¬ (s.phase i).Helps s.openers σ) :
    Seen ((s.setQueue c.side queue).setPhase i (.rechecks c)) := by
  refine ⟨h.queued.update rfl (fun σ => ?_) hphase fun _ => id, fun σ => ?_⟩
  · by_cases hσ : σ = c.side
    · subst hσ
      exact (congrArg RtWqueue.waitingList (setQueue_self c.side queue)).trans hqueue
    · exact congrArg RtWqueue.waitingList (setQueue_of_ne hσ queue)
  · by_cases hσ : σ = c.side
    · subst hσ
      refine Guarded.of_helps (i := i) ?_
      rw [setPhase_phase, if_pos rfl]
      rfl
    · exact (h.guarded σ).update rfl (setQueue_of_ne hσ queue) rfl id
        (fun hi => absurd hi (hhelps σ hσ)) id False.elim

/-- A thread suspends itself in a queue that has not been woken up. -/
theorem Seen.suspend (hphase : s.phase i = .waits c)
    (hflag : (s.queue c.side).flag = false) : Seen ((s.setQueue c.side { s.queue c.side with
      waitingList := (s.queue c.side).waitingList ++ [i] }).setPhase i (.suspended c)) := by
  generalize hqueue : ({ s.queue c.side with
    waitingList := (s.queue c.side).waitingList ++ [i] } : RtWqueue τ) = queue
  have hlist : queue.waitingList = (s.queue c.side).waitingList ++ [i] := by rw [← hqueue]
  have hnot : ∀ σ, i ∉ (s.queue σ).waitingList := by
    intro σ hi
    have hon := (h.queued.mem σ i).mp hi
    rw [hphase] at hon
    exact hon
  have hstill : ∀ u, u ≠ i →
      ((s.setQueue c.side queue).setPhase i (.suspended c)).phase u = s.phase u :=
    fun u hu => Function.update_of_ne hu _ _
  refine ⟨⟨fun σ u => ?_, fun σ => ?_⟩, fun σ => ?_⟩
  · show u ∈ ((s.setQueue c.side queue).queue σ).waitingList ↔ _
    rw [setPhase_phase]
    by_cases hσ : σ = c.side
    · subst hσ
      rw [setQueue_self, hlist, mem_append, mem_singleton]
      split_ifs with hu
      · exact iff_of_true (.inr hu) rfl
      · rw [or_iff_left hu]
        exact h.queued.mem c.side u
    · rw [setQueue_of_ne hσ]
      split_ifs with hu
      · refine iff_of_false ?_ fun heq => hσ heq.symm
        rw [hu]
        exact hnot σ
      · exact h.queued.mem σ u
  · show ((s.setQueue c.side queue).queue σ).waitingList.Nodup
    by_cases hσ : σ = c.side
    · subst hσ
      rw [setQueue_self, hlist]
      exact nodup_append_comm.mp (nodup_cons.mpr ⟨hnot c.side, h.queued.nodup c.side⟩)
    · rw [setQueue_of_ne hσ]
      exact h.queued.nodup σ
  · by_cases hσ : σ = c.side
    · subst hσ
      by_cases hready : s.Ready c.side
      · -- the flag would have kept it from waiting
        have hpending : s.Pending c.side := by
          refine ((h.guarded c.side).about hready i (by rw [hphase]; rfl)).resolve_left ?_
          rw [hflag]
          decide
        obtain ⟨v, hv⟩ := hpending
        have hvi : v ≠ i := by
          rintro rfl
          rw [hphase] at hv
          exact hv
        refine Guarded.of_helps (i := v) ?_
        rw [hstill v hvi]
        exact hv
      · exact .of_not_ready hready
    · refine (h.guarded σ).mono id ?_ (fun u hu => ⟨u, ?_⟩) (fun u hu => ?_) fun u hu => ?_
      · exact (congrArg RtWqueue.flag (setQueue_of_ne hσ queue)).trans
      · have hui : u ≠ i := by
          rintro rfl
          rw [hphase] at hu
          exact hu
        rw [hstill u hui]
        exact hu
      · by_cases hui : u = i
        · rw [hui, setPhase_phase, if_pos rfl] at hu
          exact absurd hu.symm hσ
        · rwa [hstill u hui] at hu
      · by_cases hui : u = i
        · rw [hui, setPhase_phase, if_pos rfl] at hu
          exact hu.elim
        · rwa [hstill u hui] at hu

theorem Seen.enter (hphase : s.phase i = .idle) : Seen (s.enter i c) := by
  have hbefore : ∀ σ, ¬ (s.phase i).On σ := by
    intro σ
    rw [hphase]
    exact id
  have hnothing : ∀ (phase : Phase) σ, (s.phase i).Helps s.openers σ → phase.Helps s.openers σ := by
    intro phase σ
    rw [hphase]
    exact False.elim
  have hreturns : ∀ side result, Seen (s.finish i side result) := fun side result =>
    h.goOn hbefore rfl rfl rfl (fun _ => id) (fun _ => id) (fun _ => False.elim) (hnothing .idle)
  have hgoes : Seen (s.setPhase i (.enters c)) :=
    h.goOn hbefore rfl rfl rfl (fun _ => id) (fun _ => id) (fun _ => False.elim) (hnothing (.enters c))
  unfold RtPipe.enter
  cases c with
  | read count nonblock =>
    dsimp only
    split_ifs
    · exact hreturns .reader _
    · exact hgoes
  | write pbuf ret nonblock =>
    dsimp only
    split_ifs
    · exact hreturns .writer _
    · exact hgoes

end

/-- A call goes on that has woken up the other side. -/
theorem afterWakeup_spec (s : RtPipe τ) (i : τ) (c : Call) (result : Option Result) :
    ∃ x, (s.afterWakeup i c result).phase = Function.update s.phase i x ∧
      (s.afterWakeup i c result).queue = s.queue ∧ (s.afterWakeup i c result).openers = s.openers ∧
      (∀ σ, (s.afterWakeup i c result).Ready σ → s.Ready σ) ∧
      (x = .idle ∨ x = .waits c ∧ result = none) := by
  cases result with
  | none => exact ⟨.waits c, rfl, rfl, rfl, fun _ => id, .inr ⟨rfl, rfl⟩⟩
  | some result =>
    cases c with
    | read count nonblock
    | write pbuf ret nonblock => exact ⟨.idle, rfl, rfl, rfl, fun _ => id, .inl rfl⟩

theorem Seen.wakes {result : Option Result} (h : Seen s) (hphase : s.phase i = .wakes c result) :
    Seen ((s.wakeup c.side.other).afterWakeup i c result) := by
  obtain ⟨hsame, -⟩ := RtPipe.wakeup_spec (s := s) c.side.other
  obtain ⟨x, ht, hqueue, hopeners, hready, hx⟩ :=
    afterWakeup_spec (s.wakeup c.side.other) i c result
  refine h.wakeup c.side.other (fun σ => ?_) ht hqueue (hopeners.trans hsame.openers)
    (fun σ hr => (wakeup_ready c.side.other σ).mp (hready σ hr)) (fun σ => ?_) (fun σ hab => ?_)
    fun σ hσ hhelps => ?_
  · rw [hphase]
    exact id
  · rcases hx with rfl | ⟨rfl, -⟩
    · exact id
    · exact id
  · rcases hx with rfl | ⟨rfl, rfl⟩
    · exact hab.elim
    · have hside : c.side = σ := hab
      refine ⟨?_, ?_⟩
      · rw [← hside]
        exact c.side.other_ne.symm
      · rw [hphase]
        exact hab
  · rw [hphase] at hhelps
    exact absurd (Eq.symm hhelps) hσ

theorem Seen.wait (h : Seen s) (hphase : s.phase i = .waits c) : Seen (s.wait i c) := by
  unfold RtPipe.wait rtWqueueWait
  by_cases hflag : (s.queue c.side).flag = true
  · rw [if_pos hflag]
    refine h.recheck (fun σ => ?_) rfl fun σ _ => ?_
    · rw [hphase]
      exact id
    · rw [hphase]
      exact id
  · rw [if_neg hflag]
    exact h.suspend hphase (Bool.eq_false_iff.mpr hflag)

theorem Seen.close (h : Seen s) (side : Side) (hphase : ∀ σ, ¬ (s.phase i).On σ)
    (ht : t.phase = Function.update (if s.openers side.other = 0 then s.wakeup side else s).phase i x)
    (hqueue : t.queue = (if s.openers side.other = 0 then s.wakeup side else s).queue)
    (hopeners : t.openers = s.openers) (hready : ∀ σ, t.Ready σ → s.Ready σ)
    (hon : ∀ σ, ¬ x.On σ) (habout : ∀ σ, ¬ x.About σ) (hhelps : ∀ σ, (s.phase i).Helps s.openers σ →
      s.openers side.other = 0 ∧ σ = side ∨ x.Helps s.openers σ) : Seen t := by
  by_cases hnobody : s.openers side.other = 0
  · rw [if_pos hnobody] at ht hqueue
    exact h.wakeup side hphase ht hqueue hopeners hready hon (fun σ hab => absurd hab (habout σ))
      fun σ hσ hi => (hhelps σ hi).resolve_left fun hown => hσ hown.2
  · rw [if_neg hnobody] at ht hqueue
    exact h.goOn hphase ht hqueue hopeners hready hon (fun σ hab => absurd hab (habout σ))
      fun σ hi => (hhelps σ hi).resolve_left fun hown => hnobody hown.1

omit [DecidableEq τ] in
/-- The end of `pipe_fops_close` leaves nothing to read in a buffer that it frees. -/
theorem release_ready (h : s.release.Ready side) : s.Ready side := by
  unfold RtPipe.release at h
  by_cases hlast : s.refCount = 1
  · simp only [if_pos hlast] at h
    refine .inr (h.resolve_left fun hleft => hleft ?_)
    cases side with
    | reader => rfl
    | writer => rfl
  · simp only [if_neg hlast] at h
    exact h

theorem Seen.closes (h : Seen s) (hphase : s.phase i = .closes) :
    Seen ((if s.openers .writer = 0 then s.wakeup .reader else s).setPhase i .closesWriters) := by
  refine h.close .reader (fun σ => ?_) rfl rfl ?_ (fun σ hready => ?_) (fun _ => id) (fun _ => id)
    fun σ hhelps => ?_
  · rw [hphase]
    exact id
  · split_ifs
    · exact (RtPipe.wakeup_spec .reader).1.openers
    · rfl
  · split_ifs at hready
    · exact (wakeup_ready .reader σ).mp hready
    · exact hready
  · rw [hphase] at hhelps
    cases σ with
    | reader => exact .inl ⟨hhelps, rfl⟩
    | writer => exact .inr ⟨rfl, hhelps⟩

theorem Seen.closesWriters (h : Seen s) (hphase : s.phase i = .closesWriters) :
    Seen ((if s.openers .reader = 0 then s.wakeup .writer else s).release.setPhase i .idle) := by
  generalize hwoken : (if s.openers .reader = 0 then s.wakeup .writer else s) = w
  have hsame : w.openers = s.openers ∧ ∀ σ, w.Ready σ → s.Ready σ := by
    rw [← hwoken]
    split_ifs
    · exact ⟨(RtPipe.wakeup_spec .writer).1.openers, fun σ => (wakeup_ready .writer σ).mp⟩
    · exact ⟨rfl, fun _ => id⟩
  have hrelease : w.release.phase = w.phase ∧ w.release.queue = w.queue ∧
      w.release.openers = w.openers := by
    unfold RtPipe.release
    split_ifs
    · exact ⟨rfl, rfl, rfl⟩
    · exact ⟨rfl, rfl, rfl⟩
  refine h.close (i := i) (x := .idle) .writer (fun σ => ?_) ?_ ?_ (hrelease.2.2.trans hsame.1)
    (fun σ hready => hsame.2 σ (release_ready hready)) (fun _ => id) (fun _ => id) fun σ hhelps => ?_
  · rw [hphase]
    exact id
  · show Function.update w.release.phase i .idle = _
    rw [hrelease.1, ← hwoken]
    rfl
  · show w.release.queue = _
    rw [hrelease.2.1, ← hwoken]
    rfl
  · rw [hphase] at hhelps
    exact .inl ⟨hhelps.2, hhelps.1⟩

omit [DecidableEq τ] in
theorem Seen.openFile {access : Access} {pool : Option (Nat → UInt8)} (h : Seen s) (hs : Sound s)
    (hlock : s.lock = none) (hcount : s.refCount < 255)
    (hopen : s.pipeFopsOpen access pool = some t) : Seen t := by
  obtain ⟨hrefCount, hfree⟩ := hs.counted.free hlock
  -- somebody may come, and nobody goes
  have hopens : ∀ u : RtPipe τ, u.phase = s.phase → u.queue = s.queue →
      (∀ side, u.Ready side → s.Ready side) → Seen u := by
    intro u hphase hqueue hready
    refine ⟨h.queued.congr (fun side => by rw [hqueue]) fun side v => by rw [hphase],
      fun side => (h.guarded side).mono (hready side) ?_ (fun v hv => ⟨v, ?_⟩) (fun v => ?_) fun v => ?_⟩
    · rw [hqueue]
      exact id
    · rw [hphase]
      exact hv.openers (hfree v)
    · rw [hphase]
      exact id
    · rw [hphase]
      exact id
  unfold pipeFopsOpen at hopen
  split_ifs at hopen with hzero
  · obtain ⟨_ | fifo, -, rfl⟩ := map_eq_some_iff.mp hopen
    · exact h
    · refine hopens _ rfl rfl fun side _ => .inr ?_
      have hle := files_le s.opened side.other
      rw [hs.counted.openers]
      omega
  · cases hopen
    refine hopens _ rfl rfl fun side hready => hready.imp_right fun hnone => ?_
    have hle := files_le s.opened side.other
    have hone : access.counts side.other ≤ 1 := by
      cases access <;> cases side <;> simp [Access.counts, Side.other]
    have hwriters := hs.counted.openers side.other
    dsimp only at hnone
    omega

theorem Seen.closeFile {access : Access} (h : Seen s) (hs : Sound s) (hlock : s.lock = none)
    (hphase : s.phase i = .idle) : Seen (s.pipeFopsClose i access) := by
  obtain ⟨-, hfree⟩ := hs.counted.free hlock
  have hstill : ∀ u, u ≠ i → (s.pipeFopsClose i access).phase u = s.phase u :=
    fun u hu => Function.update_of_ne hu _ _
  have hself : (s.pipeFopsClose i access).phase i = .closes := Function.update_self i _ _
  refine ⟨h.queued.update rfl (fun _ => rfl) (fun σ => ?_) fun _ => id, fun σ => ?_⟩
  · rw [hphase]
    exact id
  · by_cases hnobody : (s.pipeFopsClose i access).openers σ.other = 0
    · refine Guarded.of_helps (i := i) ?_
      rw [hself]
      exact hnobody
    · refine (h.guarded σ).mono (fun hready => .inl (hready.resolve_right hnobody)) id
        (fun u hu => ⟨u, ?_⟩) (fun u hu => ?_) fun u hu => ?_
      · have hui : u ≠ i := by
          rintro rfl
          rw [hphase] at hu
          exact hu
        rw [hstill u hui]
        exact hu.openers (hfree u)
      all_goals
        by_cases hui : u = i
        · rw [hui, hself] at hu
          exact hu.elim
        · rwa [hstill u hui] at hu

/-- No count wraps, a blocking call transfers what it can before it waits, and a call that has been
woken up leaves something only if the others are seen to. -/
def Thorough (s : RtPipe τ) : Act τ → Prop
  | .openFile _ _ => s.refCount < 255
  | .next t =>
    match s.phase t with
    | .enters c => s.Fits c
    | .rechecks c => s.Fits c ∧ (s.Leaves c → s.Covered t c.side)
    | _ => True
  | .closeFile _ _ | .read _ _ _ | .write _ _ _ => True

theorem Seen.next (h : Seen s) (hs : Sound s) (hthorough : s.Thorough (.next i))
    (hnext : s.next i = some t) : Seen t := by
  unfold RtPipe.next at hnext
  simp only [Thorough] at hthorough
  cases hphase : s.phase i with
  | idle | suspended =>
    rw [hphase] at hnext
    cases hnext
  | enters c =>
    rw [hphase] at hnext hthorough
    obtain ⟨x, hx⟩ := hs.access_accessed hthorough hnext
    refine h.access hx (.inl hphase) fun hrechecks => ?_
    rw [hphase] at hrechecks
    cases hrechecks
  | rechecks c =>
    rw [hphase] at hnext hthorough
    obtain ⟨x, hx⟩ := hs.access_accessed hthorough.1 hnext
    exact h.access hx (.inr hphase) fun _ => hthorough.2
  | wakes c result =>
    rw [hphase] at hnext
    cases hnext
    exact h.wakes hphase
  | waits c =>
    rw [hphase] at hnext
    cases hnext
    exact h.wait hphase
  | woken c =>
    rw [hphase] at hnext
    cases hnext
    refine h.recheck (fun σ => ?_) rfl fun σ hσ => ?_
    · rw [hphase]
      exact id
    · rw [hphase]
      exact fun hside => hσ (Eq.symm hside)
  | closes =>
    rw [hphase] at hnext
    cases hnext
    exact h.closes hphase
  | closesWriters =>
    rw [hphase] at hnext
    cases hnext
    exact h.closesWriters hphase

theorem Seen.step {a : Act τ} (h : Seen s) (hs : Sound s) (hthorough : s.Thorough a)
    (hstep : s.exec a = some t) : Seen t := by
  cases a with
  | openFile access pool =>
    obtain ⟨hlock, hstep⟩ := ite_none_right_eq_some.mp hstep
    exact h.openFile hs hlock hthorough hstep
  | closeFile i access =>
    obtain ⟨⟨hlock, hidle, -⟩, hstep⟩ := ite_none_right_eq_some.mp hstep
    cases hstep
    exact h.closeFile hs hlock hidle
  | read i count nonblock | write i buf nonblock =>
    obtain ⟨⟨hidle, -⟩, hstep⟩ := ite_none_right_eq_some.mp hstep
    cases hstep
    exact h.enter hidle
  | next i => exact h.next hs hthorough hstep

omit [DecidableEq τ] in
theorem Initial.seen (h : Initial s) : Seen s := by
  refine ⟨⟨fun side u => ?_, fun side => ?_⟩, fun side => ⟨fun _ u hu => ?_, fun _ u hu => ?_⟩⟩
  · rw [h.queue, h.phase]
    exact iff_of_false not_mem_nil id
  · rw [h.queue]
    exact nodup_nil
  all_goals
    rw [h.phase] at hu
    exact hu.elim

/-- In a run in which a call that has been woken up leaves nothing to others, no call is suspended
that could go on. -/
theorem reachable_settled (s : RtPipe τ)
    (h : Reachable Initial (Within (fun s a t => exec s a = some t) Thorough) s) : s.Settled := by
  have hgood : Sound s ∧ Seen s := by
    refine h.invariant (I := fun s => Sound s ∧ Seen s) (fun s h₀ => ⟨h₀.sound, h₀.seen⟩) ?_
    rintro s a t - ⟨hs, hseen⟩ ⟨hthorough, hstep⟩
    refine ⟨(hs.step hstep fun access pool ha => ?_).1, hseen.step hs hthorough hstep⟩
    rw [ha] at hthorough
    exact hthorough
  exact Guarded.settled hgood.2.guarded

instance (phase : Phase) : Decidable phase.Quiet :=
  match phase with
  | .idle | .enters _ | .waits _ | .suspended _ => .isTrue trivial
  | .rechecks _ | .wakes _ _ | .woken _ | .closes | .closesWriters => .isFalse id

instance (side : Side) (phase : Phase) : Decidable (phase.On side) :=
  match phase with
  | .suspended c => inferInstanceAs (Decidable (c.side = side))
  | .idle | .enters _ | .rechecks _ | .wakes _ _ | .waits _ | .woken _ | .closes | .closesWriters =>
    .isFalse id

instance (side : Side) (phase : Phase) : Decidable (phase.About side) :=
  match phase with
  | .wakes c none | .waits c => inferInstanceAs (Decidable (c.side = side))
  | .idle | .enters _ | .rechecks _ | .wakes _ (some _) | .suspended _ | .woken _ | .closes
  | .closesWriters => .isFalse id

instance (openers : Side → Nat) (side : Side) (phase : Phase) :
    Decidable (phase.Helps openers side) :=
  match phase with
  | .woken c | .rechecks c => inferInstanceAs (Decidable (c.side = side))
  | .wakes c _ => inferInstanceAs (Decidable (c.side.other = side))
  | .closes => inferInstanceAs (Decidable (openers side.other = 0))
  | .closesWriters => inferInstanceAs (Decidable (side = .writer ∧ openers .reader = 0))
  | .idle | .enters _ | .waits _ | .suspended _ => .isFalse id

instance [Fintype τ] (s : RtPipe τ) (i : τ) (side : Side) : Decidable (s.Covered i side) :=
  inferInstanceAs (Decidable (∀ u, u ≠ i →
    ((s.phase u).On side → ∃ v, v ≠ i ∧ (s.phase v).Helps s.openers side) ∧
    ((s.phase u).About side →
      (s.queue side).flag = true ∨ ∃ v, v ≠ i ∧ (s.phase v).Helps s.openers side)))

instance (s : RtPipe τ) (c : Call) : Decidable (s.Leaves c) :=
  inferInstanceAs (Decidable (s.openers c.side.other = 0 ∨ c.amount < s.available c.side))

instance [Fintype τ] (s : RtPipe τ) (a : Act τ) : Decidable (s.Thorough a) :=
  match a with
  | .openFile _ _ => inferInstanceAs (Decidable (s.refCount < 255))
  | .next t =>
    match hphase : s.phase t with
    | .enters c => decidable_of_iff (s.Fits c) (by simp [Thorough, hphase])
    | .rechecks c => decidable_of_iff (s.Fits c ∧ (s.Leaves c → s.Covered t c.side))
        (by simp [Thorough, hphase])
    | .idle | .wakes _ _ | .waits _ | .suspended _ | .woken _ | .closes | .closesWriters =>
      .isTrue (by simp [Thorough, hphase])
  | .closeFile _ _ | .read _ _ _ | .write _ _ _ => .isTrue trivial

/-- The pipe is opened, and two readers wait. -/
def readersWait : List (Act (Fin 3)) :=
  opens ++ ([.read 0 1 false, .next 0, .next 0, .next 0, .read 1 1 false, .next 1, .next 1, .next 1] :
    List (Act (Fin 3)))

/-- One of two readers takes all that has been written, so that the other one has to wait. -/
theorem reachable_settled_oneByte : ∃ s : RtPipe (Fin 3), (∀ t, (s.phase t).Quiet) ∧
    s.phase 1 = .suspended (.read 1 false) ∧ s.returned = [1] ∧ ¬ s.Ready .reader := by
  have hrun : ∃ s ∈ runWithin exec Thorough start (readersWait ++ ([.write 2 [1] false, .next 2,
      .next 2, .next 0, .next 0, .next 0] : List (Act (Fin 3)))),
      (∀ t, (s.phase t).Quiet) ∧ s.phase 1 = .suspended (.read 1 false) ∧
      s.returned = [1] := by decide +kernel
  obtain ⟨s, hs, hquiet, hphase, hreturned⟩ := Reachable.of_runWithin start_initial hrun
  have hsettled := reachable_settled s hs
  exact ⟨s, hquiet, hphase, hreturned, hsettled hquiet 1 _ hphase⟩

/-- Two readers wait. When two bytes are written one of them takes one byte, and when the last writer
closes the pipe one of them returns; the other one stays suspended. -/
theorem readersWait_not_settled :
    (∃ s : RtPipe (Fin 3), Reachable Initial (fun s a t => exec s a = some t) s ∧
      (∀ t, (s.phase t).Quiet) ∧ s.phase 1 = .suspended (.read 1 false) ∧ s.dataLen = 1 ∧
      ¬ s.Settled) ∧
    ∃ s : RtPipe (Fin 3), Reachable Initial (fun s a t => exec s a = some t) s ∧
      (∀ t, (s.phase t).Quiet) ∧ s.phase 1 = .suspended (.read 1 false) ∧ s.openers .writer = 0 ∧
      ¬ s.Settled := by
  constructor
  · have hrun : ∃ s ∈ runAll exec start (readersWait ++ ([.write 2 [1, 2] false, .next 2, .next 2,
        .next 0, .next 0, .next 0] : List (Act (Fin 3)))),
        (∀ t, (s.phase t).Quiet) ∧ s.phase 1 = .suspended (.read 1 false) ∧ s.dataLen = 1 := by
      decide +kernel
    obtain ⟨s, hs, hquiet, hphase, hleft⟩ := hrun
    refine ⟨s, (Reachable.start start_initial).runAll hs, hquiet, hphase, hleft, fun hsettled => ?_⟩
    refine hsettled hquiet 1 _ hphase (.inl ?_)
    show s.dataLen ≠ 0
    rw [hleft]
    decide
  · have hrun : ∃ s ∈ runAll exec start (readersWait ++ ([.closeFile 2 .wronly, .next 2, .next 2,
        .next 0, .next 0] : List (Act (Fin 3)))),
        (∀ t, (s.phase t).Quiet) ∧ s.phase 1 = .suspended (.read 1 false) ∧ s.openers .writer = 0 := by
      decide +kernel
    obtain ⟨s, hs, hquiet, hphase, hnobody⟩ := hrun
    refine ⟨s, (Reachable.start start_initial).runAll hs, hquiet, hphase, hnobody, fun hsettled => ?_⟩
    exact hsettled hquiet 1 _ hphase (.inr hnobody)

end RtPipe

end RtKernel.Pipe

import RtKernel.Drivers.ByteQueue
import RtKernel.Drivers.Pipe

/-!
# The stream of a pipe

What has been read from a pipe is a prefix of what has been written to it. That a read
returns no byte at the end only, and that no call waits that could transfer bytes, holds
where lengths keep their value in 16 bits and where the last writer leaves no byte.
-/

open List Option

namespace RtKernel.Pipe

open RingBuffer Function

/-- A thread that keeps the lock until its next step. -/
def Phase.Holding : Phase → Prop
  | .closes | .closesWriters | .wakes (.read _ _) (some _) => True
  | _ => False

/-- A file that is being closed is still counted. -/
def Phase.closing : Phase → Nat
  | .closes | .closesWriters => 1
  | _ => 0

/-- A read that has got bytes returns them. -/
def Phase.Proper : Phase → Prop
  | .wakes (.read _ _) (some (.bytes len)) => 0 < len
  | _ => True

theorem Phase.closing_eq_zero {phase : Phase} (h : ¬ phase.Holding) : phase.closing = 0 := by
  cases phase with
  | closes | closesWriters => exact absurd trivial h
  | idle | enters | rechecks | wakes | waits | suspended | woken => rfl

/-- A read ends when no writer has the pipe open and every accepted byte has been returned, and a
call waits when it can transfer nothing. -/
def Event.Right : Event → Prop
  | .returns .reader (.bytes 0) writers left => writers = 0 ∧ left = 0
  | .blocks available => available = 0
  | _ => True

namespace RtPipe

variable {τ : Type*} {s s' t : RtPipe τ} {i : τ}

/-- How many open files read, or write. -/
def files (opened : Access → Nat) : Side → Nat
  | .reader => opened .rdonly + opened .rdwr
  | .writer => opened .wronly + opened .rdwr

def allFiles (opened : Access → Nat) : Nat :=
  opened .rdonly + opened .wronly + opened .rdwr + opened .other

section

variable (opened : Access → Nat)
include opened

theorem files_le (side : Side) : files opened side ≤ allFiles opened := by
  cases side <;> simp only [files, allFiles] <;> omega

theorem files_add (access : Access) (side : Side) :
    files (update opened access (opened access + 1)) side =
      files opened side + access.counts side := by
  cases access <;> cases side <;> simp [files, Access.counts, update] <;> omega

theorem allFiles_add (access : Access) :
    allFiles (update opened access (opened access + 1)) = allFiles opened + 1 := by
  cases access <;> simp [allFiles, update] <;> omega

end

section

variable {opened : Access → Nat} {access : Access} (h : 0 < opened access)
include h

theorem files_sub (side : Side) :
    files (update opened access (opened access - 1)) side + access.counts side =
      files opened side := by
  cases access <;> cases side <;> simp [files, Access.counts, update] <;> omega

theorem allFiles_sub :
    allFiles (update opened access (opened access - 1)) + 1 = allFiles opened := by
  cases access <;> simp [allFiles, update] <;> omega

end

/-- The buffer, what has been transferred and the open files are as they were. -/
structure Same (s s' : RtPipe τ) : Prop where
  fifo : s'.fifo = s.fifo
  bufsz : s'.bufsz = s.bufsz
  openers : s'.openers = s.openers
  refCount : s'.refCount = s.refCount
  opened : s'.opened = s.opened
  accepted : s'.accepted = s.accepted
  returned : s'.returned = s.returned

/-- The buffer agrees with what has been transferred. -/
inductive Contents (s : RtPipe τ) : Prop
  | closed (hcount : s.refCount = 0) (hfifo : s.fifo = none) (haccepted : s.accepted = [])
      (hreturned : s.returned = [])
  | held {n rb q} (hcount : 0 < s.refCount) (hfifo : s.fifo = some rb) (hholds : Holds n rb q)
      (hsize : 0 < n) (hstream : s.accepted = s.returned ++ q)

theorem Contents.same (h : Contents s) (hs : Same s s') : Contents s' := by
  cases h with
  | closed hcount hfifo haccepted hreturned =>
    apply Contents.closed
    · rw [hs.refCount, hcount]
    · rw [hs.fifo, hfifo]
    · rw [hs.accepted, haccepted]
    · rw [hs.returned, hreturned]
  | held hcount hfifo hholds hsize hstream =>
    refine Contents.held ?_ (hs.fifo.trans hfifo) hholds hsize ?_
    · rw [hs.refCount]
      exact hcount
    · rw [hs.accepted, hs.returned]
      exact hstream

/-- Whether somebody closes the pipe. -/
def closing (s : RtPipe τ) : Nat := s.lock.elim 0 fun t => (s.phase t).closing

/-- The counts are those of the open files. -/
structure Counted (s : RtPipe τ) : Prop where
  openers : ∀ side, s.openers side = files s.opened side
  refCount : s.refCount = allFiles s.opened + s.closing
  small : s.refCount < 2 ^ 8
  holder : ∀ t, (s.phase t).Holding → s.lock = some t

/-- While the lock is free nobody closes the pipe. -/
theorem Counted.free (h : Counted s) (hlock : s.lock = none) :
    s.refCount = allFiles s.opened ∧ ∀ t, ¬ (s.phase t).Holding := by
  constructor
  · rw [h.refCount, closing, hlock]
    rfl
  · intro t ht
    have hheld := h.holder t ht
    rw [hlock] at hheld
    cases hheld

/-- Threads go on that neither take nor release the lock. -/
theorem Counted.phases (h : Counted s) (hs : Same s s') (hlock : s'.lock = s.lock)
    (hphase : ∀ u, ((s'.phase u).Holding → (s.phase u).Holding) ∧
      (s'.phase u).closing = (s.phase u).closing) : Counted s' := by
  have hclosing : s'.closing = s.closing := by
    unfold closing
    rw [hlock]
    cases s.lock with
    | none => rfl
    | some u => exact (hphase u).2
  constructor
  · intro side
    rw [hs.openers, hs.opened]
    exact h.openers side
  · rw [hs.refCount, hs.opened, hclosing]
    exact h.refCount
  · rw [hs.refCount]
    exact h.small
  · intro u hu
    rw [hlock]
    exact h.holder u ((hphase u).1 hu)

/-- What holds in every run in which no count wraps. -/
structure Sound (s : RtPipe τ) : Prop where
  counted : Counted s
  contents : Contents s
  bufsz : s.bufsz < 2 ^ 16
  proper : ∀ t, (s.phase t).Proper

variable [DecidableEq τ]

theorem same_setPhase {phase : Phase} : Same s (s.setPhase i phase) :=
  ⟨rfl, rfl, rfl, rfl, rfl, rfl, rfl⟩

theorem setPhase_phase (phase : Phase) (u : τ) :
    (s.setPhase i phase).phase u = if u = i then phase else s.phase u := by
  by_cases hu : u = i
  · rw [if_pos hu, hu]
    exact update_self i _ _
  · rw [if_neg hu]
    exact update_of_ne hu _ _

/-- A wake-up touches the queue, and the thread that is resumed. -/
theorem wakeup_spec (side : Side) : Same s (s.wakeup side) ∧ (s.wakeup side).lock = s.lock ∧
    (s.wakeup side).history = s.history ∧ ∀ u, (s.wakeup side).phase u = s.phase u ∨
      ∃ c, s.phase u = .suspended c ∧ (s.wakeup side).phase u = .woken c := by
  unfold wakeup
  rcases rtWqueueWakeup (s.queue side) with ⟨queue, _ | entry⟩
  · exact ⟨⟨rfl, rfl, rfl, rfl, rfl, rfl, rfl⟩, rfl, rfl, fun _ => .inl rfl⟩
  · refine ⟨⟨rfl, rfl, rfl, rfl, rfl, rfl, rfl⟩, rfl, rfl, fun u => ?_⟩
    rw [setPhase_phase]
    split_ifs with hu
    · subst hu
      cases hphase : s.phase u with
      | suspended c => exact .inr ⟨c, rfl, rfl⟩
      | idle | enters | rechecks | wakes | waits | woken | closes | closesWriters => exact .inl rfl
    · exact .inl rfl

theorem Sound.wakeup (h : Sound s) (side : Side) : Sound (s.wakeup side) := by
  obtain ⟨hsame, hlock, -, hphase⟩ := wakeup_spec (s := s) side
  refine ⟨h.counted.phases hsame hlock fun u => ?_, h.contents.same hsame, hsame.bufsz ▸ h.bufsz,
    fun u => ?_⟩
  · rcases hphase u with heq | ⟨c, hbefore, hafter⟩
    · rw [heq]
      exact ⟨id, rfl⟩
    · rw [hbefore, hafter]
      exact ⟨id, rfl⟩
  · rcases hphase u with heq | ⟨c, -, hafter⟩
    · rw [heq]
      exact h.proper u
    · rw [hafter]
      trivial

/-- A thread goes on that neither takes nor releases the lock. -/
theorem Sound.goOn (h : Sound s) (phase : Phase) (hs : Same s s') (hlock : s'.lock = s.lock)
    (hphase : s'.phase = update s.phase i phase)
    (hholding : phase.Holding → (s.phase i).Holding) (hclosing : phase.closing = (s.phase i).closing)
    (hproper : phase.Proper) : Sound s' := by
  refine ⟨h.counted.phases hs hlock fun u => ?_, h.contents.same hs, hs.bufsz ▸ h.bufsz, fun u => ?_⟩
  · rw [hphase]
    by_cases hu : u = i
    · subst hu
      rw [update_self]
      exact ⟨hholding, hclosing⟩
    · rw [update_of_ne hu]
      exact ⟨id, rfl⟩
  · rw [hphase]
    by_cases hu : u = i
    · subst hu
      rw [update_self]
      exact hproper
    · rw [update_of_ne hu]
      exact h.proper u

theorem Sound.setPhase (h : Sound s) (phase : Phase) (hs : Same s s') (hlock : s'.lock = s.lock)
    (hphase : s'.phase = update s.phase i phase) (hbefore : ¬ (s.phase i).Holding)
    (hafter : ¬ phase.Holding) (hproper : phase.Proper) : Sound s' :=
  h.goOn phase hs hlock hphase (fun hheld => absurd hheld hafter)
    ((Phase.closing_eq_zero hafter).trans (Phase.closing_eq_zero hbefore).symm) hproper

/-- Whether a blocking call transfers what it can before it waits. -/
def Fits (s : RtPipe τ) : Call → Prop
  | .read count nonblock =>
    s.openers .writer ≠ 0 → nonblock = false → count % 2 ^ 16 = 0 → s.dataLen = 0
  | .write pbuf _ nonblock =>
    s.openers .reader ≠ 0 → nonblock = false →
      pbuf.length < 2 ^ 16 ∨ s.spaceLen ≤ pbuf.length % 2 ^ 16

/-- Whether there is nothing left to read for a read that ends. -/
def Ended (s : RtPipe τ) : Call → Prop
  | .read _ _ => s.openers .writer = 0 → s.dataLen = 0
  | .write _ _ _ => True

/-- What a step adds to the history. -/
def Adds (s t : RtPipe τ) (right : Prop) : Prop :=
  ∃ events, t.history = s.history ++ events ∧ ((∀ e ∈ events, e.Right) ↔ right)

section

omit [DecidableEq τ]

theorem adds_nil {right : Prop} (h : t.history = s.history) (hright : right) : Adds s t right :=
  ⟨[], h.trans (append_nil _).symm, iff_of_true (by simp) hright⟩

theorem adds_one {e : Event} {right : Prop} (h : t.history = s.history ++ [e])
    (hright : e.Right ↔ right) : Adds s t right := by
  refine ⟨[e], h, ?_⟩
  rw [forall_mem_singleton]
  exact hright

/-- The bytes that have not been returned are those in the buffer. -/
theorem Contents.left (h : Contents s) : s.accepted.length - s.returned.length = s.dataLen := by
  cases h with
  | closed _ hfifo haccepted hreturned =>
    rw [dataLen, hfifo, haccepted, hreturned]
    rfl
  | held _ hfifo hholds _ hstream =>
    rw [dataLen, hfifo, hstream, length_append, Nat.add_sub_cancel_left]
    exact hholds.rtRingbufferDataLen_eq.symm

/-- The bytes in the buffer and the room for more are those of the queue. -/
theorem lengths {n : Nat} {rb : RtRingbuffer} {q : List UInt8} (hfifo : s.fifo = some rb)
    (hholds : Holds n rb q) : s.dataLen = q.length ∧ s.spaceLen = n - q.length := by
  unfold dataLen spaceLen
  rw [hfifo]
  exact ⟨hholds.rtRingbufferDataLen_eq, hholds.rtRingbufferSpaceLen_eq⟩

/-- There is a buffer while somebody has the pipe open. -/
theorem Sound.held {side : Side} (h : Sound s) (hlock : s.lock = none) (hopen : s.openers side ≠ 0) :
    ∃ n rb q, s.fifo = some rb ∧ Holds n rb q ∧ 0 < n ∧ s.accepted = s.returned ++ q ∧
      0 < s.refCount := by
  have hpos : 0 < s.refCount := by
    rw [(h.counted.free hlock).1]
    rw [h.counted.openers] at hopen
    exact (Nat.pos_of_ne_zero hopen).trans_le (files_le _ _)
  cases h.contents with
  | closed hcount => exact absurd hcount hpos.ne'
  | held _ hfifo hholds hsize hstream => exact ⟨_, _, _, hfifo, hholds, hsize, hstream, hpos⟩

end

theorem Counted.take (h : Counted s) (phase : Phase) (hlock : s.lock = none)
    (hlock' : t.lock = some i) (hphase : t.phase = update s.phase i phase)
    (hopeners : ∀ side, t.openers side = files t.opened side)
    (hrefCount : t.refCount = allFiles t.opened + phase.closing) (hsmall : t.refCount < 2 ^ 8) :
    Counted t := by
  have hclosing : t.closing = phase.closing := by
    unfold closing
    rw [hlock', hphase]
    exact congrArg Phase.closing (update_self i _ _)
  refine ⟨hopeners, hclosing ▸ hrefCount, hsmall, fun u hu => ?_⟩
  rw [hlock']
  by_cases hui : u = i
  · rw [hui]
  · rw [hphase, update_of_ne hui] at hu
    exact absurd hu ((h.free hlock).2 u)

section

variable (h : Sound s) {c : Call}
include h

theorem Sound.proper_update (phase : Phase) (hproper : phase.Proper)
    (hphase : t.phase = update s.phase i phase) (u : τ) : (t.phase u).Proper := by
  rw [hphase]
  by_cases hu : u = i
  · rw [hu, update_self]
    exact hproper
  · rw [update_of_ne hu]
    exact h.proper u

omit [DecidableEq τ] in
theorem Sound.refill {fifo : Option RtRingbuffer} {accepted returned : List UInt8}
    (hcontents : Contents { s with fifo := fifo, accepted := accepted, returned := returned }) :
    Sound { s with fifo := fifo, accepted := accepted, returned := returned } :=
  ⟨⟨h.counted.openers, h.counted.refCount, h.counted.small, h.counted.holder⟩, hcontents, h.bufsz,
    h.proper⟩

theorem Sound.finish {side : Side} {result : Result} (hphase : ¬ (s.phase i).Holding) :
    Sound (s.finish i side result) :=
  h.setPhase .idle ⟨rfl, rfl, rfl, rfl, rfl, rfl, rfl⟩ rfl rfl hphase id trivial

theorem Sound.enter (hphase : ¬ (s.phase i).Holding) :
    Sound (s.enter i c) ∧ Adds s (s.enter i c) (s.Ended c) := by
  have henters : Sound (s.setPhase i (.enters c)) :=
    h.setPhase _ (same_setPhase) rfl rfl hphase id trivial
  cases c with
  | read count nonblock =>
    unfold RtPipe.enter
    by_cases hopen : s.openers .writer = 0
    · simp only [if_pos hopen]
      refine ⟨h.finish hphase, adds_one rfl ?_⟩
      rw [h.contents.left]
      simp [Event.Right, Ended, hopen]
    · simp only [if_neg hopen]
      exact ⟨henters, adds_nil rfl fun hnone => absurd hnone hopen⟩
  | write pbuf ret nonblock =>
    unfold RtPipe.enter
    by_cases hopen : s.openers .reader = 0
    · simp only [if_pos hopen]
      exact ⟨h.finish hphase, adds_one rfl (by simp [Event.Right, Ended])⟩
    · simp only [if_neg hopen]
      exact ⟨henters, adds_nil rfl trivial⟩

theorem Sound.read {count : Nat} {nonblock : Bool} (hlock : s.lock = none)
    (hread : s.pipeFopsRead i count nonblock = some t) :
    Sound t ∧ Adds s t (s.Ended (.read count nonblock) ∧ s.Fits (.read count nonblock)) := by
  have hphase := (h.counted.free hlock).2 i
  unfold pipeFopsRead at hread
  by_cases hopen : s.openers .writer = 0
  · rw [if_pos hopen] at hread
    cases hread
    refine ⟨h.finish hphase, adds_one rfl ?_⟩
    rw [h.contents.left]
    simp [Event.Right, Ended, Fits, hopen]
  · rw [if_neg hopen] at hread
    obtain ⟨n, rb, q, hfifo, hholds, hsize, hstream, hpos⟩ := h.held hlock hopen
    obtain ⟨rb', hget, hholds'⟩ := hholds.get (count % 2 ^ 16)
    have hdata := (lengths hfifo hholds).1
    rw [hfifo, bind_some, hget, map_some, some_inj] at hread
    dsimp only at hread
    by_cases hlen : 0 < min (count % 2 ^ 16) q.length
    · rw [if_pos hlen] at hread
      subst hread
      have hproper : (Phase.wakes (.read count nonblock)
          (some (.bytes (min (count % 2 ^ 16) q.length)))).Proper := hlen
      refine ⟨⟨?_, ?_, h.bufsz, h.proper_update _ hproper rfl⟩, adds_nil rfl ?_⟩
      · exact h.counted.take _ hlock rfl rfl h.counted.openers (h.counted.free hlock).1 h.counted.small
      · refine .held hpos rfl hholds' hsize ?_
        rw [append_assoc, take_append_drop]
        exact hstream
      · refine ⟨fun hnone => absurd hnone hopen, fun _ _ hzero => ?_⟩
        rw [hzero] at hlen
        exact absurd hlen (lt_irrefl 0)
    · rw [if_neg hlen] at hread
      have hnothing : q.drop (count % 2 ^ 16) = q := by
        rcases Nat.eq_zero_or_pos (count % 2 ^ 16) with hzero | hcount
        · rw [hzero, drop_zero]
        · have hnil : q = [] := length_eq_zero_iff.mp (by omega)
          rw [hnil, drop_nil]
      rw [hnothing] at hholds'
      have hrefill : Sound { s with fifo := some rb' } :=
        h.refill (.held hpos rfl hholds' hsize hstream)
      by_cases hnonblock : nonblock = true
      · rw [if_pos hnonblock] at hread
        subst hread
        refine ⟨hrefill.finish hphase, adds_one rfl (iff_of_true trivial ?_)⟩
        exact ⟨fun hnone => absurd hnone hopen, fun _ hfalse =>
          absurd (hnonblock.symm.trans hfalse) (by decide)⟩
      · rw [if_neg hnonblock] at hread
        subst hread
        refine ⟨hrefill.setPhase (.wakes _ none) ⟨rfl, rfl, rfl, rfl, rfl, rfl, rfl⟩ rfl rfl
          hphase id trivial, adds_one rfl ?_⟩
        show rtRingbufferDataLen rb' = 0 ↔ _
        rw [hholds'.rtRingbufferDataLen_eq, ← hdata]
        constructor
        · exact fun hzero => ⟨fun _ => hzero, fun _ _ _ => hzero⟩
        · rintro ⟨-, hfits⟩
          by_contra hdata'
          exact hdata' (hdata ▸ hfits hopen (Bool.eq_false_iff.mpr hnonblock) (by omega))

theorem Sound.write {pbuf : List UInt8} {ret : Nat} {nonblock again : Bool}
    (hlock : s.lock = none) (hwrite : s.pipeFopsWrite i pbuf ret nonblock again = some t) :
    Sound t ∧ Adds s t (s.Fits (.write pbuf ret nonblock)) := by
  have hphase := (h.counted.free hlock).2 i
  unfold pipeFopsWrite at hwrite
  by_cases hopen : s.openers .reader = 0
  · have hfits : s.Fits (.write pbuf ret nonblock) := fun hreaders => absurd hopen hreaders
    simp only [if_pos hopen] at hwrite
    split_ifs at hwrite
    all_goals cases hwrite
    · exact ⟨h.setPhase _ (same_setPhase) rfl rfl hphase id trivial, adds_nil rfl hfits⟩
    · exact ⟨h.setPhase _ (same_setPhase) rfl rfl hphase id trivial, adds_nil rfl hfits⟩
    all_goals exact ⟨h.finish hphase, adds_one rfl (iff_of_true trivial hfits)⟩
  · rw [if_neg hopen] at hwrite
    obtain ⟨n, rb, q, hfifo, hholds, hsize, hstream, hpos⟩ := h.held hlock hopen
    obtain ⟨rb', hput, hholds'⟩ := hholds.put (pbuf.take (pbuf.length % 2 ^ 16))
    have hspace := (lengths hfifo hholds).2
    rw [hfifo, bind_some, hput, map_some, some_inj] at hwrite
    dsimp only at hwrite
    have htaken : (pbuf.take (pbuf.length % 2 ^ 16)).length = pbuf.length % 2 ^ 16 := by
      rw [length_take]
      exact Nat.min_eq_left (Nat.mod_le _ _)
    rw [htaken] at hwrite
    rw [take_take, Nat.min_comm] at hholds'
    generalize hL : min (pbuf.length % 2 ^ 16) (n - q.length) = L at hwrite hholds'
    have hrefill : Sound { s with fifo := some rb', accepted := s.accepted ++ pbuf.take L } := by
      refine h.refill (.held hpos rfl hholds' hsize ?_)
      rw [hstream, append_assoc]
    by_cases hdone : pbuf.drop L = []
    · rw [if_pos hdone] at hwrite
      subst hwrite
      refine ⟨hrefill.setPhase _ (same_setPhase) rfl rfl hphase id trivial, adds_nil rfl ?_⟩
      intro _ _
      have hle := drop_eq_nil_iff.mp hdone
      exact .inl (by omega)
    · rw [if_neg hdone] at hwrite
      by_cases hnonblock : nonblock = true
      · rw [if_pos hnonblock] at hwrite
        subst hwrite
        refine ⟨hrefill.setPhase _ (same_setPhase) rfl rfl hphase id trivial, adds_nil rfl ?_⟩
        exact fun _ hfalse => absurd (hnonblock.symm.trans hfalse) (by decide)
      · rw [if_neg hnonblock] at hwrite
        subst hwrite
        refine ⟨hrefill.setPhase (.wakes _ none) ⟨rfl, rfl, rfl, rfl, rfl, rfl, rfl⟩ rfl rfl
          hphase id trivial, adds_one rfl ?_⟩
        show rtRingbufferSpaceLen rb' = 0 ↔ _
        have hlt : L < pbuf.length := by
          rw [drop_eq_nil_iff] at hdone
          omega
        have hlength : (pbuf.take L).length = L := by
          rw [length_take]
          exact Nat.min_eq_left hlt.le
        rw [hholds'.rtRingbufferSpaceLen_eq, length_append]
        constructor
        · intro hzero _ _
          exact .inr (by omega)
        · intro hfits
          have hroom := hfits hopen (Bool.eq_false_iff.mpr hnonblock)
          omega

theorem Sound.access {again : Bool} (haccess : s.access i c again = some t) :
    Sound t ∧ Adds s t (s.Ended c ∧ s.Fits c) := by
  obtain ⟨hlock, haccess⟩ := ite_none_right_eq_some.mp haccess
  cases c with
  | read count nonblock => exact h.read hlock haccess
  | write pbuf ret nonblock =>
    obtain ⟨hsound, events, hevents, hright⟩ := h.write hlock haccess
    exact ⟨hsound, events, hevents, hright.trans ⟨fun h => ⟨trivial, h⟩, And.right⟩⟩

end

omit [DecidableEq τ] in
/-- A lock that is released by its holder is held by nobody. -/
theorem Counted.release (h : Counted s) (hheld : s.lock = some i) (hlock : t.lock = none)
    (hphase : ∀ u, u ≠ i → t.phase u = s.phase u) (hi : ¬ (t.phase i).Holding)
    (hopeners : t.openers = s.openers) (hopened : t.opened = s.opened)
    (hrefCount : t.refCount = allFiles s.opened) : Counted t := by
  refine ⟨fun side => ?_, ?_, ?_, fun u hu => ?_⟩
  · rw [hopeners, hopened]
    exact h.openers side
  · rw [hrefCount, hopened, closing, hlock]
    rfl
  · have hsmall := h.small
    rw [h.refCount] at hsmall
    omega
  · by_cases hui : u = i
    · exact absurd (hui ▸ hu) hi
    · rw [hphase u hui] at hu
      exact absurd (some.inj ((h.holder u hu).symm.trans hheld)) hui

section

variable (h : Sound s) {c : Call}
include h

/-- The end of a call that has woken up the other side. -/
theorem Sound.afterWakeup {result : Option Result} (hphase : s.phase i = .wakes c result) :
    Sound (s.afterWakeup i c result) ∧ Adds s (s.afterWakeup i c result) True := by
  have hproper := h.proper i
  rw [hphase] at hproper
  cases result with
  | none =>
    refine ⟨h.setPhase (.waits c) (same_setPhase) rfl rfl ?_ id trivial, adds_nil rfl trivial⟩
    rw [hphase]
    cases c <;> exact id
  | some result =>
    cases c with
    | read count nonblock =>
      have hheld := h.counted.holder i (by rw [hphase]; trivial)
      have hclosing : s.closing = 0 := by
        unfold closing
        rw [hheld]
        exact congrArg Phase.closing hphase
      have hrefCount := h.counted.refCount
      rw [hclosing] at hrefCount
      refine ⟨⟨?_, h.contents.same ⟨rfl, rfl, rfl, rfl, rfl, rfl, rfl⟩, h.bufsz,
        h.proper_update .idle trivial rfl⟩, adds_one rfl (iff_of_true ?_ trivial)⟩
      · apply h.counted.release hheld
        · rfl
        · exact fun u hu => update_of_ne hu _ _
        · show ¬ (update s.phase i .idle i).Holding
          rw [update_self]
          exact id
        · rfl
        · rfl
        · exact hrefCount
      · cases result with
        | bytes len =>
          cases len with
          | zero => exact absurd hproper (lt_irrefl 0)
          | succ len => trivial
        | eagain => trivial
        | epipe => trivial
    | write pbuf ret nonblock =>
      refine ⟨h.finish ?_, adds_one rfl (iff_of_true trivial trivial)⟩
      rw [hphase]
      exact id

theorem Sound.wait (hphase : ¬ (s.phase i).Holding) :
    Sound (s.wait i c) ∧ Adds s (s.wait i c) True := by
  unfold RtPipe.wait
  rcases rtWqueueWait (s.queue c.side) i with ⟨queue, _ | _⟩
  · exact ⟨h.setPhase (.rechecks c) ⟨rfl, rfl, rfl, rfl, rfl, rfl, rfl⟩ rfl rfl hphase id
      trivial, adds_nil rfl trivial⟩
  · exact ⟨h.setPhase (.suspended c) ⟨rfl, rfl, rfl, rfl, rfl, rfl, rfl⟩ rfl rfl hphase id
      trivial, adds_nil rfl trivial⟩

/-- A thread that closes the pipe may wake up another one. -/
theorem Sound.wakeupIf (side : Side) (p : Prop) [Decidable p]
    (hphase : (s.phase i).closing = 1) : Sound (if p then s.wakeup side else s) ∧
      (if p then s.wakeup side else s).history = s.history ∧
      (if p then s.wakeup side else s).phase i = s.phase i := by
  split_ifs
  · obtain ⟨-, -, hhistory, hphases⟩ := wakeup_spec (s := s) side
    refine ⟨h.wakeup side, hhistory, ?_⟩
    rcases hphases i with heq | ⟨c, hbefore, -⟩
    · exact heq
    · rw [hbefore] at hphase
      cases hphase
  · exact ⟨h, rfl, rfl⟩

theorem Sound.release (hphase : s.phase i = .closesWriters) :
    Sound (s.release.setPhase i .idle) := by
  have hheld := h.counted.holder i (by rw [hphase]; trivial)
  have hclosing : s.closing = 1 := by
    unfold closing
    rw [hheld]
    exact congrArg Phase.closing hphase
  have hrefCount := h.counted.refCount
  have hsmall := h.counted.small
  have hcount : (s.refCount + 2 ^ 8 - 1) % 2 ^ 8 = allFiles s.opened := by omega
  have hidle : ¬ (update s.phase i .idle i).Holding := by
    rw [update_self]
    exact id
  have hproper : ∀ u, (update s.phase i .idle u).Proper :=
    h.proper_update (t := s.setPhase i .idle) .idle trivial rfl
  unfold RtPipe.release
  by_cases hlast : s.refCount = 1
  · simp only [if_pos hlast]
    refine ⟨?_, .closed ?_ rfl rfl rfl, h.bufsz, hproper⟩
    · exact h.counted.release hheld rfl (fun u hu => update_of_ne hu _ _) hidle rfl rfl hcount
    · show (s.refCount + 2 ^ 8 - 1) % 2 ^ 8 = 0
      omega
  · simp only [if_neg hlast]
    refine ⟨?_, ?_, h.bufsz, hproper⟩
    · exact h.counted.release hheld rfl (fun u hu => update_of_ne hu _ _) hidle rfl rfl hcount
    · cases h.contents with
      | closed hzero => omega
      | held hpos hfifo hholds hsize hstream =>
        refine .held ?_ hfifo hholds hsize hstream
        show 0 < (s.refCount + 2 ^ 8 - 1) % 2 ^ 8
        omega

theorem Sound.next (hnext : s.next i = some t) : Sound t ∧ Adds s t (match s.phase i with
      | .enters c | .rechecks c => s.Ended c ∧ s.Fits c
      | _ => True) := by
  unfold RtPipe.next at hnext
  cases hphase : s.phase i with
  | idle | suspended =>
    rw [hphase] at hnext
    cases hnext
  | enters | rechecks =>
    rw [hphase] at hnext
    exact h.access hnext
  | wakes c result =>
    rw [hphase] at hnext
    cases hnext
    obtain ⟨-, -, hhistory, hphases⟩ := wakeup_spec (s := s) c.side.other
    have hstill : (s.wakeup c.side.other).phase i = .wakes c result := by
      rcases hphases i with heq | ⟨c', hbefore, -⟩
      · rw [heq, hphase]
      · rw [hphase] at hbefore
        cases hbefore
    obtain ⟨hsound, events, hevents, hright⟩ := (h.wakeup c.side.other).afterWakeup hstill
    exact ⟨hsound, events, hhistory ▸ hevents, hright⟩
  | waits c =>
    rw [hphase] at hnext
    cases hnext
    exact h.wait (by rw [hphase]; exact id)
  | woken c =>
    rw [hphase] at hnext
    cases hnext
    refine ⟨h.setPhase (.rechecks c) ⟨rfl, rfl, rfl, rfl, rfl, rfl, rfl⟩ rfl rfl ?_ id trivial,
      adds_nil rfl trivial⟩
    rw [hphase]
    exact id
  | closes =>
    rw [hphase] at hnext
    cases hnext
    obtain ⟨hsound, hhistory, hstill⟩ := h.wakeupIf (i := i) .reader
      (s.openers .writer = 0) (by rw [hphase]; rfl)
    rw [hphase] at hstill
    refine ⟨hsound.goOn .closesWriters (same_setPhase) rfl rfl ?_ ?_ trivial, adds_nil hhistory trivial⟩
    · rw [hstill]
      exact id
    · rw [hstill]
      rfl
  | closesWriters =>
    rw [hphase] at hnext
    cases hnext
    obtain ⟨hsound, hhistory, hstill⟩ := h.wakeupIf (i := i) .writer
      (s.openers .reader = 0) (by rw [hphase]; rfl)
    rw [hphase] at hstill
    refine ⟨hsound.release hstill, adds_nil ?_ trivial⟩
    rw [← hhistory]
    unfold RtPipe.release
    split_ifs <;> rfl

end

section

omit [DecidableEq τ]

variable {pool : Option (Nat → UInt8)} {access : Access}

theorem rtRingbufferCreate_holds {size : Nat} {rb : RtRingbuffer}
    (hsize : size < 2 ^ 16) (h : rtRingbufferCreate size pool = some (some rb)) :
    ∃ n, Holds n rb [] ∧ 0 < n := by
  have halign : rtAlignDown size = size / 4 * 4 := rtAlignDown_eq (by omega)
  unfold rtRingbufferCreate at h
  split_ifs at h with hzero
  cases pool with
  | none => cases h
  | some pool =>
    dsimp only at h
    split_ifs at h with hnothing hsmall
    · cases h
    · have hmin : 4 ≤ rtAlignDown size := by omega
      obtain ⟨rb', hinit, hholds⟩ := rtRingbufferInit_holds pool hmin (by omega)
      rw [hinit, map_some, some_inj, some_inj] at h
      subst h
      exact ⟨_, hholds, hholds.spans.read.pos⟩

theorem Sound.opens {fifo : Option RtRingbuffer} (h : Sound s) (hlock : s.lock = none)
    (hcount : s.refCount < 255)
    (hfifo : ∃ n rb q, fifo = some rb ∧ Holds n rb q ∧ 0 < n ∧ s.accepted = s.returned ++ q) :
    Sound { s with
      fifo := fifo
      openers := fun side => (s.openers side + access.counts side) % 2 ^ 8
      refCount := (s.refCount + 1) % 2 ^ 8
      opened := update s.opened access (s.opened access + 1) } := by
  obtain ⟨hrefCount, hfree⟩ := h.counted.free hlock
  obtain ⟨n, rb, q, rfl, hholds, hsize, hstream⟩ := hfifo
  refine ⟨⟨fun side => ?_, ?_, Nat.mod_lt _ (by decide), fun u hu => absurd hu (hfree u)⟩,
    .held ?_ rfl hholds hsize hstream, h.bufsz, h.proper⟩
  · have hle := files_le s.opened side
    have hone : access.counts side ≤ 1 := by
      cases access <;> cases side <;> simp [Access.counts]
    rw [files_add]
    dsimp only
    rw [h.counted.openers]
    omega
  · unfold closing
    dsimp only
    rw [allFiles_add, hlock, elim_none]
    omega
  · show 0 < (s.refCount + 1) % 2 ^ 8
    omega

theorem Sound.openFile (h : Sound s) (hlock : s.lock = none) (hcount : s.refCount < 255)
    (hopen : s.pipeFopsOpen access pool = some t) : Sound t ∧ t.history = s.history := by
  unfold pipeFopsOpen at hopen
  split_ifs at hopen with hzero
  · obtain ⟨_ | fifo, hcreate, rfl⟩ := map_eq_some_iff.mp hopen
    · exact ⟨h, rfl⟩
    · obtain ⟨n, hholds, hsize⟩ := rtRingbufferCreate_holds h.bufsz hcreate
      refine ⟨h.opens hlock hcount ⟨n, fifo, [], rfl, hholds, hsize, ?_⟩, rfl⟩
      cases h.contents with
      | closed _ _ haccepted hreturned => rw [haccepted, hreturned]; rfl
      | held hpos => exact absurd hzero hpos.ne'
  · cases hopen
    cases h.contents with
    | closed hnone => exact absurd hnone hzero
    | held _ hfifo hholds hsize hstream =>
      exact ⟨h.opens hlock hcount ⟨_, _, _, hfifo, hholds, hsize, hstream⟩, rfl⟩

end

theorem Sound.closeFile {access : Access} (h : Sound s) (hlock : s.lock = none)
    (hopened : 0 < s.opened access) : Sound (s.pipeFopsClose i access) := by
  obtain ⟨hrefCount, -⟩ := h.counted.free hlock
  have hall := allFiles_sub hopened
  have hsmall := h.counted.small
  refine ⟨h.counted.take .closes hlock rfl rfl (fun side => ?_) ?_ hsmall, ?_, h.bufsz,
    h.proper_update .closes trivial rfl⟩
  · have hfiles := files_sub hopened side
    have hle := files_le s.opened side
    show (s.openers side + 2 ^ 8 - access.counts side) % 2 ^ 8 =
      files (update s.opened access (s.opened access - 1)) side
    rw [h.counted.openers]
    omega
  · show s.refCount = allFiles (update s.opened access (s.opened access - 1)) + 1
    omega
  · exact match h.contents with
      | .closed hcount hfifo haccepted hreturned => .closed hcount hfifo haccepted hreturned
      | .held hcount hfifo hholds hsize hstream => .held hcount hfifo hholds hsize hstream

/-- What has been returned is a prefix of what has been accepted, and all that happened to calls
is right. -/
structure Kept (s : RtPipe τ) : Prop where
  stream : s.returned <+: s.accepted
  history : ∀ e ∈ s.history, e.Right

/-- No count wraps, nothing is left to read when a read ends, and a blocking call transfers what it
can before it waits. -/
def Careful (s : RtPipe τ) : Act τ → Prop
  | .openFile _ _ => s.refCount < 255
  | .read _ count nonblock => s.Ended (.read count nonblock)
  | .next t =>
    match s.phase t with
    | .enters c | .rechecks c => s.Ended c ∧ s.Fits c
    | _ => True
  | .closeFile _ _ | .write _ _ _ => True

omit [DecidableEq τ] in
theorem Sound.stream (h : Sound s) : s.returned <+: s.accepted := by
  cases h.contents with
  | closed _ _ haccepted hreturned => simp only [haccepted, hreturned, prefix_refl]
  | held _ _ _ _ hstream => exact ⟨_, hstream.symm⟩

theorem Sound.step {a : Act τ} (h : Sound s) (hstep : s.exec a = some t)
    (hopen : ∀ access pool, a = .openFile access pool → s.refCount < 255) :
    Sound t ∧ ((∃ access pool, a = .openFile access pool) ∧ t.history = s.history ∨
      Adds s t (s.Careful a)) := by
  cases a with
  | openFile access pool =>
    obtain ⟨hlock, hstep⟩ := ite_none_right_eq_some.mp hstep
    obtain ⟨hsound, hhistory⟩ := h.openFile hlock (hopen access pool rfl) hstep
    exact ⟨hsound, .inl ⟨⟨access, pool, rfl⟩, hhistory⟩⟩
  | closeFile i access =>
    obtain ⟨⟨hlock, -, hopened⟩, hstep⟩ := ite_none_right_eq_some.mp hstep
    cases hstep
    exact ⟨h.closeFile hlock hopened, .inr (adds_nil rfl trivial)⟩
  | read i count nonblock =>
    obtain ⟨⟨hidle, -⟩, hstep⟩ := ite_none_right_eq_some.mp hstep
    cases hstep
    obtain ⟨hsound, hadds⟩ := h.enter (c := .read count nonblock) (by rw [hidle]; exact id)
    exact ⟨hsound, .inr hadds⟩
  | write i buf nonblock =>
    obtain ⟨⟨hidle, -⟩, hstep⟩ := ite_none_right_eq_some.mp hstep
    cases hstep
    obtain ⟨hsound, hadds⟩ := h.enter (c := .write buf 0 nonblock) (by rw [hidle]; exact id)
    exact ⟨hsound, .inr hadds⟩
  | next i =>
    obtain ⟨hsound, hadds⟩ := h.next hstep
    exact ⟨hsound, .inr hadds⟩

omit [DecidableEq τ] in
theorem Initial.sound (h : Initial s) : Sound s := by
  obtain ⟨haccepted, hreturned, -⟩ := h.ghost
  refine ⟨⟨fun side => ?_, ?_, ?_, fun u hu => ?_⟩,
    .closed h.refCount h.fifo haccepted hreturned, h.bufsz, fun u => ?_⟩
  · rw [h.openers]
    cases side <;> simp [files, h.opened]
  · rw [h.refCount, closing, h.lock]
    simp [allFiles, h.opened]
  · rw [h.refCount]
    decide
  · rw [h.phase] at hu
    exact hu.elim
  · rw [h.phase]
    trivial

/-- In a run of careful steps the bytes that have been read are a prefix of those that have been
written, a read ends when no byte is left, and no call waits that could transfer bytes; a step
other than the opening of a file keeps this if and only if it is careful. -/
theorem reachable_streamKept (s : RtPipe τ)
    (h : Reachable Initial (Within (fun s a t => exec s a = some t) Careful) s) :
    Kept s ∧ ∀ a t, (∀ access pool, a ≠ .openFile access pool) → s.exec a = some t →
      (Kept t ↔ s.Careful a) := by
  have hopen : ∀ (s : RtPipe τ) a, s.Careful a →
      ∀ access pool, a = .openFile access pool → s.refCount < 255 := by
    rintro s a hcareful access pool rfl
    exact hcareful
  have hgood : Sound s ∧ Kept s := by
    refine h.invariant (I := fun s => Sound s ∧ Kept s) (fun s h₀ => ?_) fun s a t _ ih hstep => ?_
    · refine ⟨h₀.sound, h₀.sound.stream, ?_⟩
      rw [h₀.ghost.2.2]
      simp
    · obtain ⟨hsound, ⟨-, hhistory⟩ | ⟨events, hhistory, hright⟩⟩ :=
        ih.1.step hstep.2 (hopen s a hstep.1)
      · exact ⟨hsound, hsound.stream, hhistory ▸ ih.2.history⟩
      · refine ⟨hsound, hsound.stream, fun e he => ?_⟩
        rw [hhistory, List.mem_append] at he
        exact he.elim (ih.2.history e) (hright.mpr hstep.1 e)
  refine ⟨hgood.2, fun a t ha hstep => ?_⟩
  obtain ⟨hsound, ⟨⟨access, pool, hother⟩, -⟩ | ⟨events, hhistory, hright⟩⟩ :=
    hgood.1.step hstep fun access pool heq => absurd heq (ha access pool)
  · exact absurd hother (ha access pool)
  · constructor
    · intro hkept
      refine hright.mp fun e he => hkept.history e ?_
      rw [hhistory]
      exact List.mem_append_right _ he
    · intro hcareful
      refine ⟨hsound.stream, fun e he => ?_⟩
      rw [hhistory, List.mem_append] at he
      exact he.elim (hgood.2.history e) (hright.mpr hcareful e)

instance (s : RtPipe τ) (c : Call) : Decidable (s.Ended c) :=
  match c with
  | .read _ _ => inferInstanceAs (Decidable (s.openers .writer = 0 → s.dataLen = 0))
  | .write _ _ _ => .isTrue trivial

instance (s : RtPipe τ) (c : Call) : Decidable (s.Fits c) :=
  match c with
  | .read count nonblock => inferInstanceAs (Decidable (s.openers .writer ≠ 0 → nonblock = false →
      count % 2 ^ 16 = 0 → s.dataLen = 0))
  | .write pbuf _ nonblock => inferInstanceAs (Decidable (s.openers .reader ≠ 0 → nonblock = false →
      pbuf.length < 2 ^ 16 ∨ s.spaceLen ≤ pbuf.length % 2 ^ 16))

instance (s : RtPipe τ) (a : Act τ) : Decidable (s.Careful a) :=
  match a with
  | .openFile _ _ => inferInstanceAs (Decidable (s.refCount < 255))
  | .read _ count nonblock => inferInstanceAs (Decidable (s.Ended (.read count nonblock)))
  | .next t =>
    match hphase : s.phase t with
    | .enters c | .rechecks c => decidable_of_iff (s.Ended c ∧ s.Fits c) (by simp [Careful, hphase])
    | .idle | .wakes _ _ | .waits _ | .suspended _ | .woken _ | .closes | .closesWriters =>
      .isTrue (by simp [Careful, hphase])
  | .closeFile _ _ | .write _ _ _ => .isTrue trivial

/-- A pipe of four bytes that is open for nobody. -/
def start : RtPipe (Fin 3) where
  fifo := none
  bufsz := 4
  openers := fun _ => 0
  refCount := 0
  queue := fun _ => { flag := false, waitingList := [] }
  lock := none
  phase := fun _ => .idle
  opened := fun _ => 0
  accepted := []
  returned := []
  history := []

theorem start_initial : Initial start :=
  ⟨rfl, by decide, fun _ => rfl, rfl, fun _ => rfl, rfl, fun _ => rfl, fun _ => rfl, rfl, rfl, rfl⟩

/-- The pipe is opened for reading and for writing. -/
def opens : List (Act (Fin 3)) :=
  [.openFile .rdonly (some fun _ => 0), .openFile .wronly (some fun _ => 0)]

/-- A reader waits for the bytes that a writer then writes. -/
theorem reachable_streamKept_waiting : ∃ s : RtPipe (Fin 3), s.accepted = [1, 2, 3] ∧
    s.returned = [1, 2] ∧ Kept s ∧ ∀ a t, (∀ access pool, a ≠ .openFile access pool) →
      s.exec a = some t → (Kept t ↔ s.Careful a) := by
  have hrun : ∃ s ∈ runWithin exec Careful start (opens ++ ([.read 0 2 false, .next 0, .next 0,
      .next 0, .write 1 [1, 2, 3] false, .next 1, .next 1, .next 0, .next 0,
      .next 0] : List (Act (Fin 3)))),
      s.accepted = [1, 2, 3] ∧ s.returned = [1, 2] := by decide +kernel
  obtain ⟨s, hs, haccepted, hreturned⟩ := Reachable.of_runWithin start_initial hrun
  exact ⟨s, haccepted, hreturned,
    reachable_streamKept s hs⟩

/-- A read returns nothing though three bytes have not been read, and a read of 65536 bytes waits
though there are three. -/
theorem readEnds_not_kept :
    (∃ s : RtPipe (Fin 3), Reachable Initial (fun s a t => exec s a = some t) s ∧
      s.history = [.returns .writer (.bytes 3) 1 3, .returns .reader (.bytes 0) 0 3] ∧ ¬ Kept s) ∧
    ∃ s : RtPipe (Fin 3), Reachable Initial (fun s a t => exec s a = some t) s ∧
      s.history = [.returns .writer (.bytes 3) 1 3, .blocks 3, .blocks 3] ∧
      s.phase 0 = .suspended (.read 65536 false) ∧ ¬ Kept s := by
  constructor
  · have hrun : ∃ s ∈ runAll exec start (opens ++ ([.write 1 [1, 2, 3] false, .next 1, .next 1,
        .closeFile 1 .wronly, .next 1, .next 1, .read 0 3 false] : List (Act (Fin 3)))),
        s.history = [.returns .writer (.bytes 3) 1 3, .returns .reader (.bytes 0) 0 3] := by
      decide +kernel
    obtain ⟨s, hs, hhistory⟩ := hrun
    refine ⟨s, (Reachable.start start_initial).runAll hs, hhistory, fun hkept => ?_⟩
    have hright := hkept.history (.returns .reader (.bytes 0) 0 3) (by rw [hhistory]; simp)
    exact absurd hright.2 (by decide)
  · have hrun : ∃ s ∈ runAll exec start (opens ++ ([.write 1 [1, 2, 3] false, .next 1, .next 1,
        .read 0 65536 false, .next 0, .next 0, .next 0, .next 0, .next 0, .next 0] :
          List (Act (Fin 3)))), s.history = [.returns .writer (.bytes 3) 1 3, .blocks 3, .blocks 3] ∧
        s.phase 0 = .suspended (.read 65536 false) := by
      decide +kernel
    obtain ⟨s, hs, hhistory, hphase⟩ := hrun
    refine ⟨s, (Reachable.start start_initial).runAll hs, hhistory, hphase, fun hkept => ?_⟩
    have hright : 3 = 0 := hkept.history (.blocks 3) (by rw [hhistory]; simp)
    cases hright

end RtPipe

end RtKernel.Pipe

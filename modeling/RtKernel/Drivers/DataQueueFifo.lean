import RtKernel.Core.Run
import RtKernel.Drivers.DataQueue

/-!
# Data queues as bounded queues

Threads push and pop with a timeout, and wait in two lists. The indices have 15 bits, so
that a queue of up to 2 ^ 15 buffers answers as a bounded queue of its size; a larger one is
full when it holds 2 ^ 15.
-/

open List

namespace RtKernel.DataQueue

variable {τ β : Type*}

/-- How a turn of a call ends: it returns, or the thread is suspended. -/
inductive Answer
  | eok
  | etimeout
  | waits
  deriving DecidableEq

/-- A data queue, with the threads that wait for a buffer to take. -/
structure Waited (τ β : Type*) where
  queue : RtDataQueue τ β
  suspendedPopList : List τ

namespace Waited

/-- A turn of `rt_data_queue_push`; the first thread that waits for a buffer is resumed. -/
def push (w : Waited τ β) (thread : τ) (data : β) (timeout : Int) : Waited τ β × Answer :=
  if w.queue.isFull = true ∧ timeout = 0 then (w, .etimeout)
  else
    let (queue, stored) := rtDataQueuePush w.queue thread data
    if stored then ({ queue := queue, suspendedPopList := w.suspendedPopList.tail }, .eok)
    else ({ w with queue := queue }, .waits)

/-- A turn of `rt_data_queue_pop`, with the buffer that is taken. -/
def pop (w : Waited τ β) (thread : τ) (timeout : Int) : Waited τ β × Option β × Answer :=
  if w.queue.isEmpty = true then
    if timeout = 0 then (w, none, .etimeout)
    else ({ w with suspendedPopList := w.suspendedPopList ++ [thread] }, none, .waits)
  else
    let (queue, data, _) := rtDataQueuePop w.queue
    ({ w with queue := queue }, data, .eok)

/-- `rt_data_queue_reset`: the queue is empty, and all threads are resumed. -/
def reset (w : Waited τ β) : Waited τ β :=
  { queue :=
      { w.queue with
        getIndex := 0, putIndex := 0, isEmpty := true, isFull := false, suspendedPushList := [] }
    suspendedPopList := [] }

/-- The timeout of a thread takes it out of the lists. -/
def expire [DecidableEq τ] (w : Waited τ β) (thread : τ) : Waited τ β :=
  { queue :=
      { w.queue with suspendedPushList := w.queue.suspendedPushList.filter (· ≠ thread) }
    suspendedPopList := w.suspendedPopList.filter (· ≠ thread) }

end Waited

/-- A data queue, with the buffers that a bounded queue would hold after the same answers. -/
structure Sys (τ β : Type*) where
  waited : Waited τ β
  held : List β

inductive Act (τ β : Type*)
  | push (thread : τ) (data : β) (timeout : Int)
  | pop (thread : τ) (timeout : Int)
  | peek
  | reset
  | expire (thread : τ)

variable [DecidableEq τ]

namespace Sys

def exec (s : Sys τ β) : Act τ β → Sys τ β
  | .push thread data timeout =>
      let (waited, answer) := s.waited.push thread data timeout
      { waited := waited, held := if answer = .eok then s.held ++ [data] else s.held }
  | .pop thread timeout =>
      let (waited, _, answer) := s.waited.pop thread timeout
      { waited := waited, held := if answer = .eok then s.held.tail else s.held }
  | .peek => s
  | .reset => { waited := s.waited.reset, held := [] }
  | .expire thread => { s with waited := s.waited.expire thread }

def Step (s : Sys τ β) (a : Act τ β) (s' : Sys τ β) : Prop := s' = s.exec a

/-- After `rt_data_queue_init`. -/
def Initial (size : Nat) (s : Sys τ β) : Prop :=
  ∃ cells lwm, s = { waited := { queue := rtDataQueueInit cells size lwm, suspendedPopList := [] }
                     held := [] }

/-- The queue answers as a bounded queue of the size. -/
structure Refines (size : Nat) (s : Sys τ β) : Prop where
  push : ∀ thread data timeout,
    (s.waited.push thread data timeout).2 = .eok ↔ s.held.length < size
  pop : ∀ thread timeout, (s.waited.pop thread timeout).2.1 = s.held.head?
  peek : rtDataQueuePeek s.waited.queue = s.held.head?
  len : rtDataQueueLen s.waited.queue = s.held.length
  flags : ¬ (s.waited.queue.isEmpty = true ∧ s.waited.queue.isFull = true)

end Sys

variable {n : Nat} {queue : RtDataQueue τ β} {q : List β}

omit [DecidableEq τ] in
theorem Holds.withPushList (h : Holds n queue q) (threads : List τ) :
    Holds n { queue with suspendedPushList := threads } q :=
  ⟨h.size, h.small, h.get_lt, h.put_eq, h.length_le, h.items, h.isEmpty, h.isFull⟩

omit [DecidableEq τ] in
theorem Holds.len (h : Holds n queue q) : rtDataQueueLen queue = q.length := by
  have hget := h.get_lt
  have hle := h.length_le
  unfold rtDataQueueLen
  by_cases hempty : q = []
  · rw [if_pos (h.isEmpty.mpr hempty), hempty, length_nil]
  · have hpos : 0 < q.length := length_pos_iff.mpr hempty
    have hput := h.put_eq
    rw [ring_forward hget hle] at hput
    rw [if_neg fun he => hempty (h.isEmpty.mp he), h.size]
    split at hput
    · rw [if_pos (by omega)]
      omega
    · rw [if_neg (by omega)]
      omega

namespace Waited

variable {w : Waited τ β}

omit [DecidableEq τ] in
/-- A push is answered by the number of buffers held. -/
theorem push_spec (h : Holds n w.queue q) (thread : τ) (data : β) (timeout : Int) :
    ((w.push thread data timeout).2 = .eok ↔ q.length < n) ∧
      Holds n (w.push thread data timeout).1.queue
        (if (w.push thread data timeout).2 = .eok then q ++ [data] else q) := by
  by_cases hroom : q.length < n
  · obtain ⟨queue', hpush, hholds, -⟩ := h.push hroom thread data
    have hnotfull : ¬ (w.queue.isFull = true ∧ timeout = 0) := fun hfull =>
      Nat.ne_of_lt hroom (h.isFull.mp hfull.1)
    unfold push
    rw [if_neg hnotfull, hpush]
    exact ⟨iff_of_true rfl hroom, hholds⟩
  · have hfull : q.length = n := Nat.le_antisymm h.length_le (Nat.le_of_not_lt hroom)
    unfold push
    by_cases hzero : timeout = 0
    · rw [if_pos ⟨h.isFull.mpr hfull, hzero⟩]
      exact ⟨iff_of_false nofun hroom, h⟩
    · rw [if_neg fun hno => hzero hno.2, h.push_full hfull]
      exact ⟨iff_of_false nofun hroom, h.withPushList _⟩

omit [DecidableEq τ] in
theorem pop_spec (h : Holds n w.queue q) (thread : τ) (timeout : Int) :
    (w.pop thread timeout).2.1 = q.head? ∧
      Holds n (w.pop thread timeout).1.queue
        (if (w.pop thread timeout).2.2 = .eok then q.tail else q) := by
  unfold pop
  cases q with
  | nil =>
    rw [if_pos (h.isEmpty.mpr rfl)]
    by_cases hzero : timeout = 0
    · rw [if_pos hzero]
      exact ⟨rfl, h⟩
    · rw [if_neg hzero]
      exact ⟨rfl, h⟩
  | cons data rest =>
    obtain ⟨queue', resumed, hpop, hholds, -⟩ := h.pop
    rw [if_neg fun he => cons_ne_nil _ _ (h.isEmpty.mp he), hpop]
    exact ⟨rfl, hholds⟩

end Waited

namespace Sys

variable {s s' : Sys τ β} {a : Act τ β} {size : Nat}

theorem holds_exec (h : Holds n s.waited.queue s.held) (a : Act τ β) :
    Holds n (s.exec a).waited.queue (s.exec a).held := by
  cases a with
  | push thread data timeout => exact (Waited.push_spec h thread data timeout).2
  | pop thread timeout => exact (Waited.pop_spec h thread timeout).2
  | peek => exact h
  | reset =>
    have hpos := Nat.zero_lt_of_lt h.get_lt
    exact ⟨h.size, h.small, hpos, (Nat.zero_mod n).symm, Nat.zero_le n, rfl,
      iff_of_true rfl rfl, iff_of_false nofun hpos.ne⟩
  | expire thread => exact h.withPushList _

theorem reachable_holds (hpos : 0 < size) (hsmall : size ≤ 2 ^ 15)
    (h : Reachable (Initial size) Step s) : Holds size s.waited.queue s.held := by
  apply h.invariant
  · rintro _ ⟨cells, lwm, rfl⟩
    exact holds_init hpos hsmall
  · rintro s a _ - hholds rfl
    exact holds_exec hholds a

omit [DecidableEq τ] in
theorem refines_of_holds (hpos : 0 < size) (h : Holds size s.waited.queue s.held) :
    s.Refines size where
  push thread data timeout := (Waited.push_spec h thread data timeout).1
  pop thread timeout := (Waited.pop_spec h thread timeout).1
  peek := h.peek
  len := h.len
  flags := by
    rintro ⟨hempty, hfull⟩
    have hlength := h.isFull.mp hfull
    rw [h.isEmpty.mp hempty] at hlength
    exact hpos.ne hlength

/-- While buffers are pushed, the put index counts up to 2 ^ 15. -/
theorem filled (thread : τ) (data : β) (hlarge : 2 ^ 15 < size) {k : Nat} (hk : k ≤ 2 ^ 15) :
    ∃ s : Sys τ β, Reachable (Initial size) Step s ∧ s.held.length = k ∧
      s.waited.queue.size = size ∧ s.waited.queue.getIndex = 0 ∧
      s.waited.queue.putIndex = index15 k ∧
      (s.waited.queue.isFull = true ↔ k = 2 ^ 15) := by
  induction k with
  | zero =>
    refine ⟨_, .start ⟨fun _ => data, 0, rfl⟩, rfl, rfl, rfl, rfl, ?_⟩
    exact iff_of_false nofun (by decide)
  | succ k ih =>
    obtain ⟨s, hreach, hlength, hsize, hget, hput, hfull⟩ := ih (Nat.le_of_succ_le hk)
    have hnotfull : ¬ s.waited.queue.isFull = true := fun he => by
      have heq := hfull.mp he
      omega
    have hnext : index15 (index15 k + 1) = index15 (k + 1) := by
      unfold index15
      omega
    have hne : index15 (k + 1) ≠ size := by
      unfold index15
      omega
    have hexec : s.exec (.push thread data 0) =
        { waited :=
            { queue :=
                { s.waited.queue with
                  queue := Function.update s.waited.queue.queue (index15 k) data
                  putIndex := index15 (k + 1)
                  isEmpty := false
                  isFull := if index15 (k + 1) = 0 then true else s.waited.queue.isFull }
              suspendedPopList := s.waited.suspendedPopList.tail }
          held := s.held ++ [data] } := by
      unfold exec Waited.push rtDataQueuePush
      dsimp only
      rw [if_neg fun he => hnotfull he.1, if_neg hnotfull]
      simp only [hput, hnext, hsize, hget, if_neg hne]
      rfl
    have hzero : index15 (k + 1) = 0 ↔ k + 1 = 2 ^ 15 := by
      unfold index15
      omega
    refine ⟨_, hreach.next hexec.symm, ?_, hsize, hget, rfl, ?_⟩
    · rw [length_append, hlength, length_singleton]
    · dsimp only
      by_cases hend : k + 1 = 2 ^ 15
      · rw [if_pos (hzero.mpr hend)]
        exact iff_of_true rfl hend
      · rw [if_neg fun he => hend (hzero.mp he)]
        exact iff_of_false hnotfull hend

/-- A queue of a larger size does not take its last buffers. -/
theorem not_refines_of_large (thread : τ) (data : β) (hlarge : 2 ^ 15 < size) :
    ∃ s : Sys τ β, Reachable (Initial size) Step s ∧ ¬ s.Refines size := by
  obtain ⟨s, hreach, hlength, -, -, -, hfull⟩ := filled thread data hlarge le_rfl
  refine ⟨s, hreach, fun hrefines => ?_⟩
  have hanswer := (hrefines.push thread data 0).mpr (hlength ▸ hlarge)
  unfold Waited.push at hanswer
  rw [if_pos ⟨hfull.mpr rfl, rfl⟩] at hanswer
  cases hanswer

/-- A data queue answers as a bounded queue of its size in every run just when the size is at
most 2 ^ 15. -/
theorem reachable_refines_iff (thread : τ) (data : β) (hpos : 0 < size) :
    (∀ s : Sys τ β, Reachable (Initial size) Step s → s.Refines size) ↔ size ≤ 2 ^ 15 := by
  constructor
  · intro hall
    by_contra hlarge
    obtain ⟨s, hreach, hnot⟩ := not_refines_of_large thread data (Nat.lt_of_not_le hlarge)
    exact hnot (hall s hreach)
  · intro hsmall s hreach
    exact refines_of_holds hpos (reachable_holds hpos hsmall hreach)

/-- A queue of three items. -/
theorem reachable_refines_iff_three :
    (∀ s : Sys Unit Nat, Reachable (Initial 3) Step s → s.Refines 3) ↔ 3 ≤ 2 ^ 15 :=
  reachable_refines_iff () 0 (by decide)

/-- A queue for 40000 buffers is full with 32768. -/
theorem large_not_refines :
    ¬ ∀ s : Sys Unit Nat, Reachable (Initial 40000) Step s → s.Refines 40000 := by
  intro hall
  obtain ⟨s, hreach, hnot⟩ :=
    not_refines_of_large () 0 (show 2 ^ 15 < 40000 by decide)
  exact hnot (hall s hreach)

end Sys

end RtKernel.DataQueue

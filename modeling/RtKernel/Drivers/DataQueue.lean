import RtKernel.Core.Ring

/-!
# Data queues

A queue of buffers. Threads that find it full wait in a list, of which the first one
is resumed when a buffer has been taken and no more than the low water mark are left.
-/

open List

namespace RtKernel.DataQueue

variable {τ β : Type*}

/-- `struct rt_data_queue`; nobody waits for a buffer to take. -/
structure RtDataQueue (τ β : Type*) where
  size : Nat
  lwm : Nat
  getIndex : Nat
  isEmpty : Bool
  putIndex : Nat
  isFull : Bool
  queue : Nat → β
  suspendedPushList : List τ

/-- What an index holds. -/
def index15 (x : Nat) : Nat := x % 2 ^ 15

/-- `rt_data_queue_init`. -/
def rtDataQueueInit (queue : Nat → β) (size lwm : Nat) : RtDataQueue τ β :=
  { size := size, lwm := lwm, getIndex := 0, isEmpty := true, putIndex := 0, isFull := false
    queue := queue, suspendedPushList := [] }

/-- `rt_data_queue_len`. -/
def rtDataQueueLen (queue : RtDataQueue τ β) : Nat :=
  if queue.isEmpty = true then 0
  else if queue.putIndex > queue.getIndex then queue.putIndex - queue.getIndex
  else queue.size + queue.putIndex - queue.getIndex

/-- One turn of `rt_data_queue_push` by a thread that waits forever: the buffer is stored, or the
thread is suspended. -/
def rtDataQueuePush (queue : RtDataQueue τ β) (thread : τ) (data : β) : RtDataQueue τ β × Bool :=
  if queue.isFull = true then
    ({ queue with suspendedPushList := queue.suspendedPushList ++ [thread] }, false)
  else
    let putIndex := index15 (queue.putIndex + 1)
    let putIndex := if putIndex = queue.size then 0 else putIndex
    ({ queue with
      queue := Function.update queue.queue queue.putIndex data
      putIndex := putIndex
      isEmpty := false
      isFull := if putIndex = queue.getIndex then true else queue.isFull }, true)

/-- The end of `rt_data_queue_pop`, with the thread that is resumed. -/
def popResume (queue : RtDataQueue τ β) : RtDataQueue τ β × Option τ :=
  if rtDataQueueLen queue ≤ queue.lwm then
    match queue.suspendedPushList with
    | thread :: rest => ({ queue with suspendedPushList := rest }, some thread)
    | [] => (queue, none)
  else (queue, none)

/-- `rt_data_queue_pop` with timeout zero: the buffer, if there is one, and the thread that is
resumed. -/
def rtDataQueuePop (queue : RtDataQueue τ β) : RtDataQueue τ β × Option β × Option τ :=
  if queue.isEmpty = true then (queue, none, none)
  else
    let data := queue.queue queue.getIndex
    let getIndex := index15 (queue.getIndex + 1)
    let getIndex := if getIndex = queue.size then 0 else getIndex
    let (queue, resumed) := popResume { queue with
      getIndex := getIndex
      isFull := false
      isEmpty := if queue.putIndex = getIndex then true else queue.isEmpty }
    (queue, some data, resumed)

/-- `rt_data_queue_peek`. -/
def rtDataQueuePeek (queue : RtDataQueue τ β) : Option β :=
  if queue.isEmpty = true then none else some (queue.queue queue.getIndex)

/-- The buffers held, the oldest one first. -/
structure Holds (n : Nat) (queue : RtDataQueue τ β) (q : List β) : Prop where
  size : queue.size = n
  small : n ≤ 2 ^ 15
  get_lt : queue.getIndex < n
  put_eq : queue.putIndex = (queue.getIndex + q.length) % n
  length_le : q.length ≤ n
  items : ringItems queue.queue n queue.getIndex q.length = q
  isEmpty : queue.isEmpty = true ↔ q = []
  isFull : queue.isFull = true ↔ q.length = n

variable {n : Nat} {queue : RtDataQueue τ β} {q : List β}

theorem holds_init {cells : Nat → β} {lwm : Nat} (hpos : 0 < n) (hsmall : n ≤ 2 ^ 15) :
    Holds n (rtDataQueueInit cells n lwm : RtDataQueue τ β) [] where
  size := rfl
  small := hsmall
  get_lt := hpos
  put_eq := (Nat.zero_mod n).symm
  length_le := Nat.zero_le n
  items := rfl
  isEmpty := ⟨fun _ => rfl, fun _ => rfl⟩
  isFull := ⟨fun hno => absurd hno Bool.false_ne_true, fun hno => absurd hno hpos.ne⟩

/-- An index goes on at zero after the last position. -/
theorem index15_next {x : Nat} (hx : x < n) (hn : n ≤ 2 ^ 15) :
    (if index15 (x + 1) = n then 0 else index15 (x + 1)) = (x + 1) % n := by
  rw [index15]
  by_cases hend : x + 1 = n
  · rw [hend, Nat.mod_self]
    rcases Nat.lt_or_eq_of_le hn with hlt | heq
    · rw [Nat.mod_eq_of_lt hlt, if_pos rfl]
    · rw [heq, Nat.mod_self, if_neg (by decide)]
  · rw [Nat.mod_eq_of_lt (by omega : x + 1 < 2 ^ 15), if_neg hend, Nat.mod_eq_of_lt (by omega)]

section

variable (h : Holds n queue q)
include h

theorem Holds.put_lt : queue.putIndex < n := by
  rw [h.put_eq]
  exact Nat.mod_lt _ (Nat.zero_lt_of_lt h.get_lt)

/-- A thread that finds the queue full is suspended. -/
theorem Holds.push_full (hfull : q.length = n) (thread : τ) (data : β) :
    rtDataQueuePush queue thread data =
      ({ queue with suspendedPushList := queue.suspendedPushList ++ [thread] }, false) := by
  rw [rtDataQueuePush, if_pos (h.isFull.mpr hfull)]

theorem Holds.push (hroom : q.length < n) (thread : τ) (data : β) :
    ∃ queue', rtDataQueuePush queue thread data = (queue', true) ∧ Holds n queue' (q ++ [data]) ∧
      queue'.suspendedPushList = queue.suspendedPushList := by
  have hget := h.get_lt
  have hnotfull : ¬ queue.isFull = true := fun hfull => absurd (h.isFull.mp hfull) hroom.ne
  have hnext := index15_next h.put_lt h.small
  have hlength : (q ++ [data]).length = q.length + 1 := by simp
  have hput : (queue.putIndex + 1) % n = (queue.getIndex + (q.length + 1)) % n := by
    rw [h.put_eq, Nat.mod_add_mod, Nat.add_assoc]
  unfold rtDataQueuePush
  rw [if_neg hnotfull]
  simp only [h.size, hnext]
  refine ⟨_, rfl, ⟨rfl, h.small, hget, ?_, ?_, ?_, ?_, ?_⟩, rfl⟩
  · rw [hlength]
    exact hput
  · rw [hlength]
    exact hroom
  · rw [hlength]
    rw [h.put_eq, ringItems_back hroom, h.items]
  · simp
  · dsimp only
    rw [hlength, hput]
    by_cases hlast : q.length + 1 = n
    · rw [hlast, Nat.add_mod_right, Nat.mod_eq_of_lt hget]
      simp
    · have hne : (queue.getIndex + (q.length + 1)) % n ≠ queue.getIndex := by
        rw [ring_forward hget (by omega : q.length + 1 ≤ n)]
        split <;> omega
      rw [if_neg hne]
      exact ⟨fun hfull => absurd hfull hnotfull, fun hno => absurd hno hlast⟩

theorem Holds.popResume :
    ∃ queue' resumed, DataQueue.popResume queue = (queue', resumed) ∧ Holds n queue' q ∧
      queue.suspendedPushList = resumed.toList ++ queue'.suspendedPushList := by
  unfold DataQueue.popResume
  split
  · cases hlist : queue.suspendedPushList with
    | nil => exact ⟨queue, none, rfl, h, hlist.symm⟩
    | cons thread rest =>
      exact ⟨_, some thread, rfl, ⟨h.size, h.small, h.get_lt, h.put_eq, h.length_le, h.items, h.isEmpty,
        h.isFull⟩, rfl⟩
  · exact ⟨queue, none, rfl, h, rfl⟩

end

/-- The oldest buffer is taken, and the first thread that waits may be resumed. -/
theorem Holds.pop {data : β} {rest : List β} (h : Holds n queue (data :: rest)) :
    ∃ queue' resumed, rtDataQueuePop queue = (queue', some data, resumed) ∧ Holds n queue' rest ∧
      queue.suspendedPushList = resumed.toList ++ queue'.suspendedPushList := by
  have hget := h.get_lt
  have hlength := h.length_le
  rw [length_cons] at hlength
  have hnotempty : ¬ queue.isEmpty = true := fun hempty => absurd (h.isEmpty.mp hempty) (cons_ne_nil _ _)
  have hnext := index15_next hget h.small
  have hitems := h.items
  rw [length_cons, ringItems_succ, Nat.mod_eq_of_lt hget] at hitems
  obtain ⟨hdata, hrest⟩ := List.cons.inj hitems
  have hput : queue.putIndex = ((queue.getIndex + 1) % n + rest.length) % n := by
    rw [h.put_eq, Nat.mod_add_mod, length_cons, Nat.add_assoc, Nat.add_comm rest.length]
  have hlt := Nat.mod_lt (queue.getIndex + 1) (Nat.zero_lt_of_lt hget)
  have hholds : Holds n ({ queue with
      getIndex := (queue.getIndex + 1) % n
      isFull := false
      isEmpty := if queue.putIndex = (queue.getIndex + 1) % n then true else queue.isEmpty } :
        RtDataQueue τ β) rest := by
    refine ⟨h.size, h.small, hlt, hput, by omega, ?_, ?_, ?_⟩
    · show ringItems queue.queue n ((queue.getIndex + 1) % n) rest.length = rest
      rw [ringItems_mod]
      exact hrest
    · dsimp only
      constructor
      · intro hempty
        by_cases hmeet : queue.putIndex = (queue.getIndex + 1) % n
        · rw [hput, ring_forward hlt (by omega : rest.length ≤ n)] at hmeet
          apply length_eq_zero_iff.mp
          split at hmeet <;> omega
        · rw [if_neg hmeet] at hempty
          exact absurd hempty hnotempty
      · rintro rfl
        rw [if_pos (by rw [hput, length_nil, Nat.add_zero, Nat.mod_mod])]
    · exact ⟨fun hno => absurd hno Bool.false_ne_true, fun hno => by omega⟩
  obtain ⟨queue', resumed, hresume, hholds', hlist⟩ := hholds.popResume
  unfold rtDataQueuePop
  rw [if_neg hnotempty]
  simp only [h.size, hnext, hdata]
  rw [h.size] at hresume
  rw [hresume]
  exact ⟨queue', resumed, rfl, hholds', hlist⟩

theorem Holds.peek (h : Holds n queue q) : rtDataQueuePeek queue = q.head? := by
  unfold rtDataQueuePeek
  cases q with
  | nil => rw [if_pos (h.isEmpty.mpr rfl), List.head?_nil]
  | cons data rest =>
    have hitems := h.items
    rw [length_cons, ringItems_succ, Nat.mod_eq_of_lt h.get_lt] at hitems
    rw [if_neg (fun hempty => cons_ne_nil _ _ (h.isEmpty.mp hempty)),
      (List.cons.inj hitems).1, List.head?_cons]

end RtKernel.DataQueue

import RtKernel.Core.Fifo
import RtKernel.Core.Ring
import RtKernel.Core.Run
import RtKernel.Link.Frames

/-!
# The receive buffer of rt-link

Bytes are written behind the last one and wrap at the end of the buffer. Only two pointers
say what the buffer holds, and with equal pointers it is empty: a write that leaves no
cell free loses all that is in it.
-/

open Option
open Nat (mod_eq_of_lt)

open List

namespace RtKernel.Link

namespace Rx

/-- What `rt_link_hw_buffer_write` returns. -/
def hwBufferCount (rx : Rx) (bytes : List UInt8) : Nat :=
  if rx.readPoint ≤ rx.writePoint then
    min bytes.length (receiveBufferLength - (rx.writePoint - rx.readPoint))
  else min bytes.length (rx.readPoint - rx.writePoint)

/-- `rt_link_hw_write_cb`. -/
def hwWriteCb (rx : Rx) (bytes : List UInt8) : Option (Rx × Nat) :=
  (rx.hwBufferWrite bytes).map fun after => (after, rx.hwBufferCount bytes)

variable {rx : Rx} {bytes : List UInt8}

theorem copyIn_eq (data : Nat → UInt8) {dst : Nat}
    (h : dst + bytes.length ≤ receiveBufferLength) : copyIn data dst bytes = some (storeAt data dst bytes) := by
  rw [copyIn, if_pos h, some_inj]
  funext i
  unfold storeAt
  by_cases hlow : i < dst
  · rw [if_pos hlow, if_neg (by omega)]
  · by_cases hin : i < dst + bytes.length
    · rw [if_neg hlow, if_pos ⟨by omega, hin⟩, getD_eq_getElem _ _ (by omega),
        getD_eq_getElem _ _ (by omega)]
    · rw [if_neg hlow, if_neg (by omega), getD_eq_default _ _ (by omega)]

section

variable (h : Inside rx) {length : Nat}
include h

theorem Inside.recvLen_lt : rx.recvLen < receiveBufferLength := by
  have hwrite := h.writePoint
  unfold recvLen
  split_ifs <;> omega

theorem Inside.writePoint_eq :
    rx.writePoint = (rx.readPoint + rx.recvLen) % receiveBufferLength := by
  have hread := h.readPoint
  have hwrite := h.writePoint
  unfold recvLen
  split_ifs with horder
  · rw [Nat.add_sub_cancel' horder, mod_eq_of_lt hwrite]
  · have hsum : rx.readPoint + (receiveBufferLength - (rx.readPoint - rx.writePoint)) =
        rx.writePoint + receiveBufferLength := by omega
    rw [hsum, Nat.add_mod_right, mod_eq_of_lt hwrite]

theorem Inside.recvLen_eq (hlength : length < receiveBufferLength)
    (hpoint : rx.writePoint = (rx.readPoint + length) % receiveBufferLength) : rx.recvLen = length := by
  have hread := h.readPoint
  have hwrap : (rx.readPoint + length) % receiveBufferLength =
      if receiveBufferLength - rx.readPoint > length then rx.readPoint + length
      else length - (receiveBufferLength - rx.readPoint) := ring_forward hread hlength.le
  rw [hwrap] at hpoint
  unfold recvLen
  split_ifs at hpoint ⊢ <;> omega

/-- Bytes are written up to the room that is left. -/
theorem Inside.hwBufferWrite_eq (bytes : List UInt8) : rx.hwBufferWrite bytes = some { rx with
      data := ringStore rx.data receiveBufferLength rx.writePoint
        (bytes.take (receiveBufferLength - rx.recvLen))
      writePoint := (rx.writePoint + (bytes.take (receiveBufferLength - rx.recvLen)).length) %
        receiveBufferLength } := by
  have hread := h.readPoint
  have hwrite := h.writePoint
  unfold Rx.hwBufferWrite recvLen
  dsimp only
  by_cases horder : rx.readPoint ≤ rx.writePoint
  · rw [if_pos horder, if_pos horder]
    have hlen := length_take_le (receiveBufferLength - (rx.writePoint - rx.readPoint)) bytes
    generalize bytes.take (receiveBufferLength - (rx.writePoint - rx.readPoint)) = bytes at hlen
    by_cases hend : receiveBufferLength - rx.writePoint ≤ bytes.length
    · have hfirst : (bytes.take (receiveBufferLength - rx.writePoint)).length =
          receiveBufferLength - rx.writePoint := length_take_of_le hend
      have hsecond : (bytes.drop (receiveBufferLength - rx.writePoint)).length =
          bytes.length - (receiveBufferLength - rx.writePoint) := length_drop
      have hwrap : rx.writePoint + bytes.length =
          bytes.length - (receiveBufferLength - rx.writePoint) + receiveBufferLength := by omega
      rw [if_pos hend, copyIn_eq _ (by omega), bind_some, copyIn_eq _ (by omega), map_some,
        storeAt_storeAt rx.data bytes hwrite (by omega) hend, hwrap, Nat.add_mod_right,
        mod_eq_of_lt (by omega)]
    · rw [if_neg hend, copyIn_eq _ (by omega), map_some, storeAt_eq (n := receiveBufferLength) (by omega),
        mod_eq_of_lt (by omega)]
  · have hroom : receiveBufferLength - (receiveBufferLength - (rx.readPoint - rx.writePoint)) =
        rx.readPoint - rx.writePoint := by omega
    have hlen := length_take_le (rx.readPoint - rx.writePoint) bytes
    rw [if_neg horder, if_neg horder, hroom, copyIn_eq _ (by omega), map_some,
      storeAt_eq (n := receiveBufferLength) (by omega), mod_eq_of_lt (by omega)]

/-- As many bytes are accepted as there is room for. -/
theorem Inside.hwBufferCount_eq (bytes : List UInt8) :
    rx.hwBufferCount bytes = min bytes.length (receiveBufferLength - rx.recvLen) := by
  have hread := h.readPoint
  unfold hwBufferCount recvLen
  split_ifs <;> omega

theorem Inside.hwCopy_eq {count : Nat} (hcount : count ≤ receiveBufferLength) :
    rx.hwCopy rx.readPoint count = ringItems rx.data receiveBufferLength rx.readPoint count := by
  have hread := h.readPoint
  apply map_congr_left
  intro i hi
  have hi := mem_range.mp hi
  split_ifs with hend
  · rw [mod_eq_of_lt hend]
  · rw [Nat.mod_eq_sub_mod (by omega), mod_eq_of_lt (by omega)]

theorem Inside.shift_eq (hlength : length ≤ rx.recvLen) :
    rx.shift rx.readPoint length = (rx.readPoint + length) % receiveBufferLength := by
  have hread := h.readPoint
  have hwrite := h.writePoint
  unfold recvLen at hlength
  unfold Rx.shift
  split_ifs at hlength ⊢ with horder hall hend hrest
  · rw [mod_eq_of_lt (by omega)]
    omega
  · rw [mod_eq_of_lt (by omega)]
  · rw [Nat.mod_eq_sub_mod hend, mod_eq_of_lt (by omega)]
    omega
  · rw [Nat.mod_eq_sub_mod hend, mod_eq_of_lt (by omega)]
  · rw [mod_eq_of_lt (by omega)]

theorem Inside.recvLen_skip (length : Nat) : (rx.skip length).recvLen = rx.recvLen - length := by
  have hwrite := h.writePoint
  unfold Rx.skip recvLen Rx.shift
  dsimp only
  split_ifs <;> omega

end

end Rx

/-- The receive buffer, with the bytes accepted and not yet consumed, and what has happened. -/
structure ReceiveBuffer where
  rx : Rx
  queue : List UInt8
  trace : List (FifoEvent UInt8 × FifoAnswer UInt8)

namespace ReceiveBuffer

/-- What may happen. -/
inductive Act
  | writeCb (bytes : List UInt8)
  /-- Bytes are copied from the read pointer, which is shifted. -/
  | consume (length : Nat)

def writeCb (s : ReceiveBuffer) (bytes : List UInt8) : Option ReceiveBuffer :=
  (s.rx.hwWriteCb bytes).map fun r =>
    { rx := r.1
      queue := s.queue ++ bytes.take r.2
      trace := s.trace ++ [(.put bytes, { count := r.2, items := [] })] }

/-- The caller consumes no more than `rt_link_hw_recv_len`. -/
def consume (s : ReceiveBuffer) (length : Nat) : Option ReceiveBuffer :=
  if length ≤ s.rx.recvLen then
    some
      { rx := s.rx.skip length
        queue := s.queue.drop length
        trace := s.trace ++
          [(.get length, { count := length, items := s.rx.hwCopy s.rx.readPoint length })] }
  else none

def exec (s : ReceiveBuffer) : Act → Option ReceiveBuffer
  | .writeCb bytes => s.writeCb bytes
  | .consume length => s.consume length

/-- `rt_link_hw_buffer_init`. -/
def Initial (s : ReceiveBuffer) : Prop :=
  s.rx.readPoint = 0 ∧ s.rx.writePoint = 0 ∧ s.queue = [] ∧ s.trace = []

/-- The buffer is a queue of at most `RT_LINK_RECEIVE_BUFFER_LENGTH` bytes. -/
structure Refines (s : ReceiveBuffer) : Prop where
  inside : s.rx.Inside
  answers : Fifo.Answers receiveBufferLength s.trace s.queue
  recvLen : s.rx.recvLen = s.queue.length
  copy : ∀ count ≤ s.rx.recvLen, s.rx.hwCopy s.rx.readPoint count = s.queue.take count

/-- Where a step may be trusted: a write leaves a cell free. -/
def Careful (s : ReceiveBuffer) : Act → Prop
  | .writeCb bytes => s.rx.recvLen + bytes.length < receiveBufferLength
  | .consume length => length ≤ s.rx.recvLen

variable {s : ReceiveBuffer}

/-- The bytes of the queue lie in the buffer from the read pointer on. -/
theorem Refines.items (h : Refines s) :
    ringItems s.rx.data receiveBufferLength s.rx.readPoint s.queue.length = s.queue := by
  have hlt := h.inside.recvLen_lt
  have hcopy := h.copy s.rx.recvLen le_rfl
  rw [h.inside.hwCopy_eq hlt.le, h.recvLen, take_length] at hcopy
  exact hcopy

theorem refines_of_items {s : ReceiveBuffer} (hinside : s.rx.Inside)
    (hanswers : Fifo.Answers receiveBufferLength s.trace s.queue)
    (hlen : s.rx.recvLen = s.queue.length)
    (hitems : ringItems s.rx.data receiveBufferLength s.rx.readPoint s.queue.length = s.queue) :
    Refines s := by
  refine ⟨hinside, hanswers, hlen, fun count hcount => ?_⟩
  have hlt := hinside.recvLen_lt
  rw [hinside.hwCopy_eq (by omega), ← take_ringItems (hlen ▸ hcount), hitems]

section

variable (h : Refines s)
include h

theorem Refines.writeCb_eq (bytes : List UInt8) : let room := receiveBufferLength - s.queue.length
    ∃ rx, s.writeCb bytes = some
      { rx := rx
        queue := s.queue ++ bytes.take room
        trace := s.trace ++ [(.put bytes, { count := min bytes.length room, items := [] })] } ∧
      rx.Inside ∧ rx.readPoint = s.rx.readPoint ∧
      rx.writePoint = (rx.readPoint + (s.queue.length + (bytes.take room).length)) % receiveBufferLength ∧
      rx.data = ringStore s.rx.data receiveBufferLength (s.rx.readPoint + s.queue.length)
        (bytes.take room) := by
  intro room
  have hread := h.inside.readPoint
  have hwrite := h.inside.hwBufferWrite_eq bytes
  have hpoint := h.inside.writePoint_eq
  rw [h.recvLen] at hwrite hpoint
  refine ⟨{ s.rx with
    data := ringStore s.rx.data receiveBufferLength s.rx.writePoint (bytes.take room)
    writePoint := (s.rx.writePoint + (bytes.take room).length) % receiveBufferLength },
    ?_, ⟨hread, Nat.mod_lt _ (by omega)⟩, rfl, ?_, ?_⟩
  · unfold writeCb Rx.hwWriteCb
    rw [hwrite, h.inside.hwBufferCount_eq, h.recvLen, map_some, map_some,
      Nat.min_comm, ← take_take, take_length]
  · dsimp only
    rw [hpoint, Nat.mod_add_mod, Nat.add_assoc]
  · dsimp only
    rw [hpoint, ringStore_mod]

theorem Refines.writeCb (hfree : s.rx.recvLen + bytes.length < receiveBufferLength) :
    ∃ t, s.writeCb bytes = some t ∧ Refines t := by
  obtain ⟨rx, hwrite, hinside, hread, hpoint, hdata⟩ := h.writeCb_eq bytes
  have hlen := h.recvLen
  have hall : bytes.take (receiveBufferLength - s.queue.length) = bytes := take_of_length_le (by omega)
  rw [hall] at hwrite hpoint hdata
  have hqueue : (s.queue ++ bytes).length = s.queue.length + bytes.length := length_append
  refine ⟨_, hwrite, refines_of_items hinside ?_ ?_ ?_⟩
  · have hserves := Fifo.Serves.put (n := receiveBufferLength) (q := s.queue) bytes
    rw [hall] at hserves
    exact h.answers.next hserves
  · dsimp only
    rw [hqueue]
    exact hinside.recvLen_eq (by omega) hpoint
  · dsimp only
    rw [hqueue, hdata, hread]
    have hstore := ringItems_store s.rx.data bytes (o := s.rx.readPoint) (n := receiveBufferLength) (d := 0)
      (show s.queue.length ≤ receiveBufferLength by omega) (by omega) (by omega) (Nat.zero_le _)
    rw [h.items] at hstore
    exact hstore

theorem Refines.consume {length : Nat} (hlength : length ≤ s.rx.recvLen) :
    ∃ t, s.consume length = some t ∧ Refines t := by
  have hlen := h.recvLen
  have hcopy := h.copy length hlength
  refine ⟨_, if_pos hlength, refines_of_items (h.inside.skip length) ?_ ?_ ?_⟩
  · have hserves := Fifo.Serves.get (n := receiveBufferLength) (q := s.queue) length
    rw [Nat.min_eq_left (by omega), ← hcopy] at hserves
    exact h.answers.next hserves
  · dsimp only
    rw [h.inside.recvLen_skip, hlen, length_drop]
  · have hpoint : (s.rx.skip length).readPoint = (s.rx.readPoint + length) % receiveBufferLength :=
      h.inside.shift_eq hlength
    rw [hpoint, ringItems_mod, length_drop, ← drop_ringItems]
    exact congrArg (List.drop length) h.items

/-- A write that leaves no cell free empties the buffer. -/
theorem Refines.not_refines {t : ReceiveBuffer}
    (hfull : receiveBufferLength ≤ s.rx.recvLen + bytes.length) (hwrite : s.writeCb bytes = some t) :
    ¬ Refines t := by
  obtain ⟨rx, heq, hinside, hread, hpoint, -⟩ := h.writeCb_eq bytes
  have hlen := h.recvLen
  have hlt := h.inside.recvLen_lt
  rw [hwrite, some_inj] at heq
  subst heq
  intro hrefines
  have hempty := hrefines.recvLen
  have htake : (bytes.take (receiveBufferLength - s.queue.length)).length =
      receiveBufferLength - s.queue.length := length_take_of_le (by omega)
  rw [htake, Nat.add_sub_cancel' (by omega), Nat.add_mod_right] at hpoint
  have hzero : rx.recvLen = 0 := hinside.recvLen_eq (by omega) hpoint
  simp only [hzero, length_append, htake] at hempty
  omega

end

/-- While every write leaves a cell free, the buffer is a queue; and a step keeps that just where it
meets the condition. -/
theorem reachable_queueKept (s : ReceiveBuffer)
    (h : Reachable Initial (Within (fun s a t => exec s a = some t) Careful) s) :
    Refines s ∧ ∀ a, (∃ t, s.exec a = some t ∧ Refines t) ↔ Careful s a := by
  have hstep : ∀ s, Refines s → ∀ a, Careful s a → ∃ t, s.exec a = some t ∧ Refines t := by
    intro s hrefines a hcareful
    cases a with
    | writeCb bytes => exact hrefines.writeCb hcareful
    | consume length => exact hrefines.consume hcareful
  have hrefines : Refines s := by
    refine h.invariant (fun s h₀ => ?_) fun s a t _ ih hlast => ?_
    · obtain ⟨hread, hwrite, hqueue, htrace⟩ := h₀
      have hlen : s.rx.recvLen = 0 := by
        unfold Rx.recvLen
        rw [hread, hwrite, if_pos le_rfl]
      refine refines_of_items ⟨by rw [hread]; decide, by rw [hwrite]; decide⟩ ?_ ?_ ?_
      · rw [htrace, hqueue]
        exact .start
      · rw [hlen, hqueue, List.length_nil]
      · rw [hqueue, List.length_nil, ringItems_zero]
    · obtain ⟨t', hexec, hafter⟩ := hstep s ih a hlast.1
      rw [hlast.2, Option.some_inj] at hexec
      exact hexec ▸ hafter
  refine ⟨hrefines, fun a => ⟨?_, hstep s hrefines a⟩⟩
  rintro ⟨t, hexec, hafter⟩
  cases a with
  | writeCb bytes =>
    by_contra hfull
    exact hrefines.not_refines (Nat.le_of_not_lt hfull) hexec hafter
  | consume length => exact (Option.ite_none_right_eq_some.mp hexec).1

instance decidableCareful (s : ReceiveBuffer) (a : Act) : Decidable (Careful s a) :=
  match a with
  | .writeCb bytes => inferInstanceAs (Decidable (s.rx.recvLen + bytes.length < receiveBufferLength))
  | .consume length => inferInstanceAs (Decidable (length ≤ s.rx.recvLen))

/-- An empty buffer. -/
def empty : ReceiveBuffer where
  rx :=
    { data := fun _ => 0
      readPoint := 0
      writePoint := 0
      analysisStatus := .findFrameHead
      receiveFrame := Frame.init
      point := 0
      buffLen := headLength }
  queue := []
  trace := []

theorem empty_initial : Initial empty := ⟨rfl, rfl, rfl, rfl⟩

/-- Bytes are written and consumed around the end of the buffer. -/
def around : List Act :=
  [.writeCb (List.replicate 3079 1), .consume 3078, .writeCb [2, 3, 4], .consume 2]

/-- The write pointer has passed the end of the buffer. -/
theorem reachable_queueKept_around : ∃ s : ReceiveBuffer, s.queue = [3, 4] ∧ s.rx.readPoint = 0 ∧
    s.rx.writePoint = 2 ∧ (Refines s ∧ ∀ a, (∃ t, s.exec a = some t ∧ Refines t) ↔ Careful s a) := by
  have hrun : ∃ s ∈ runWithin exec Careful empty around, s.queue = [3, 4] ∧ s.rx.readPoint = 0 ∧
      s.rx.writePoint = 2 := by decide +kernel
  obtain ⟨s, hs, heq⟩ := Reachable.of_runWithin empty_initial hrun
  exact ⟨s, heq.1, heq.2.1, heq.2.2, reachable_queueKept s hs⟩

/-- All bytes of a write that fills the buffer are accepted, and then none of them is there. -/
theorem filled_not_refines : ∃ s : ReceiveBuffer,
    Reachable Initial (fun s a t => exec s a = some t) s ∧
    s.queue.length = 3080 ∧ s.rx.recvLen = 0 ∧ ¬ Refines s := by
  have hrun : ∃ s ∈ runAll exec empty [.writeCb (List.replicate 3080 1)], s.queue.length = 3080 ∧
      s.rx.recvLen = 0 := by decide +kernel
  obtain ⟨s, hs, heq⟩ := Reachable.of_runAll empty_initial hrun
  refine ⟨s, hs, heq.1, heq.2, fun hrefines => ?_⟩
  have hlen := hrefines.recvLen
  omega

end ReceiveBuffer

end RtKernel.Link

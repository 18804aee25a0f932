import Mathlib.Data.List.Basic

/-!
# Bounded queues

A queue holds at most `n` items. What it has no room for is dropped, or takes the
place of the oldest items when it is forced in.
-/

open List

namespace RtKernel

/-- What is asked of a queue. -/
inductive FifoEvent (β : Type*)
  | put (items : List β)
  | putForce (items : List β)
  | get (length : Nat)
  | peek
  | reset

/-- How many items have been put or taken, and those that have been taken. -/
structure FifoAnswer (β : Type*) where
  count : Nat
  items : List β

namespace Fifo

variable {β : Type*} {n : Nat}

/-- What an event does to the queue `q` of at most `n` items. -/
inductive Serves (n : Nat) (q : List β) : FifoEvent β → List β → FifoAnswer β → Prop
  /-- The longest prefix that there is room for is appended. -/
  | put (items) : Serves n q (.put items) (q ++ items.take (n - q.length))
      { count := min items.length (n - q.length), items := [] }
  /-- All items are appended, and the last `n` are kept. -/
  | putForce (items) : Serves n q (.putForce items)
      ((q ++ items).drop (q.length + items.length - n))
      { count := min items.length n, items := [] }
  | get (length) : Serves n q (.get length) (q.drop length)
      { count := min length q.length, items := q.take length }
  /-- Some of the oldest items are taken, one at least if there is any. -/
  | peek {out rest} (hq : q = out ++ rest) (hout : q ≠ [] → out ≠ []) :
      Serves n q .peek rest { count := out.length, items := out }
  | reset : Serves n q .reset [] { count := 0, items := [] }

/-- A history with its answers, and the queue after it. -/
inductive Answers (n : Nat) : List (FifoEvent β × FifoAnswer β) → List β → Prop
  | start : Answers n [] []
  | next {trace q q' e answer} (h : Answers n trace q) (hserves : Serves n q e q' answer) :
      Answers n (trace ++ [(e, answer)]) q'

theorem Answers.last {trace : List (FifoEvent β × FifoAnswer β)} {q' : List β}
    {e : FifoEvent β} {answer : FifoAnswer β} (h : Answers n (trace ++ [(e, answer)]) q') :
    ∃ q, Answers n trace q ∧ Serves n q e q' answer := by
  generalize htrace : trace ++ [(e, answer)] = whole at h
  cases h with
  | start => exact absurd htrace (append_ne_nil_of_right_ne_nil _ (cons_ne_nil _ _))
  | next hbefore hserves =>
    obtain ⟨rfl, hlast⟩ := append_inj' htrace rfl
    cases hlast
    exact ⟨_, hbefore, hserves⟩

/-- Of more than `n` items only the last `n` matter. -/
theorem putForce_drop (q items : List β) : (q ++ items.drop (items.length - n)).drop
        (q.length + (items.drop (items.length - n)).length - n) =
      (q ++ items).drop (q.length + items.length - n) := by
  by_cases h : items.length ≤ n
  · rw [Nat.sub_eq_zero_of_le h, drop_zero]
  · have hlength : (items.drop (items.length - n)).length = n := by
      rw [length_drop]
      omega
    have hsub : q.length + items.length - n = q.length + (items.length - n) := by omega
    rw [hlength, Nat.add_sub_cancel, drop_left, hsub, ← drop_drop, drop_left]

end Fifo

end RtKernel

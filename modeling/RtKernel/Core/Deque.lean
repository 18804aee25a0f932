import Mathlib.Data.List.Basic

/-!
# Histories of a queue with two ends

Items come in at the back, or at the front when they are urgent, and go out at
the front. A history tells what the queue holds and what has been taken out. A
queue with a bound refuses what it has no room for, and answers every event.
-/

namespace RtKernel

/-- What happens to a queue. -/
inductive QueueEvent (π : Type*)
  | back (item : π)
  | front (item : π)
  | take
  | reset

/-- The items of a queue, and those taken out so far, in order. -/
structure Deque (π : Type*) where
  items : List π
  taken : List π

namespace Deque

variable {π : Type*}

/-- One event; from an empty queue nothing can be taken. -/
def step (q : Deque π) : QueueEvent π → Option (Deque π)
  | .back item => some { q with items := q.items ++ [item] }
  | .front item => some { q with items := item :: q.items }
  | .take =>
      match q.items with
      | [] => none
      | item :: rest => some { items := rest, taken := q.taken ++ [item] }
  | .reset => some { q with items := [] }

/-- A history from the empty queue. -/
def replay (history : List (QueueEvent π)) : Option (Deque π) :=
  history.foldlM step { items := [], taken := [] }

theorem replay_concat {history : List (QueueEvent π)} {q : Deque π} (h : replay history = some q)
    (e : QueueEvent π) : replay (history ++ [e]) = q.step e := by
  unfold replay at h ⊢
  rw [List.foldlM_append, h]
  simp

end Deque

/-- What a queue answers. -/
inductive QueueAnswer (π : Type*)
  | accepted
  | refused
  | item (item : π)

namespace BoundedDeque

variable {π : Type*}

/-- An event at a queue of at most `n` items, and the answer. -/
def step (n : Nat) (q : List π) : QueueEvent π → List π × QueueAnswer π
  | .back item => if q.length = n then (q, .refused) else (q ++ [item], .accepted)
  | .front item => if q.length = n then (q, .refused) else (item :: q, .accepted)
  | .take =>
      match q with
      | [] => ([], .refused)
      | item :: rest => (rest, .item item)
  | .reset => ([], .accepted)

/-- A history with its answers, and the queue after it. -/
inductive Answers (n : Nat) : List (QueueEvent π × QueueAnswer π) → List π → Prop
  | start : Answers n [] []
  | next {trace : List (QueueEvent π × QueueAnswer π)} {q : List π} (h : Answers n trace q)
      (e : QueueEvent π) : Answers n (trace ++ [(e, (step n q e).2)]) (step n q e).1

end BoundedDeque

end RtKernel

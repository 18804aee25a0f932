import Mathlib.Data.List.Nodup

/-!
# Singly linked lists

The nodes of a pool are linked by one pointer each. A pointer leads to a list
when following the links from it visits just its members.
-/

open List

namespace RtKernel

variable {ν : Type*}

/-- Following the links from `p` visits the nodes of the list and ends. -/
def Linked (next : ν → Option ν) : Option ν → List ν → Prop
  | p, [] => p = none
  | p, n :: rest => p = some n ∧ Linked next (next n) rest

namespace Linked

variable {next next' : ν → Option ν} {p : Option ν} {l : List ν} {n : ν}

theorem nil_iff (h : Linked next p l) : p = none ↔ l = [] := by
  cases l with
  | nil => exact iff_of_true h rfl
  | cons n rest => simp [h.1]

/-- The node that a pointer leads to is the first one. -/
theorem pop (h : Linked next (some n) l) : ∃ rest, l = n :: rest ∧ Linked next (next n) rest := by
  cases l with
  | nil => cases h
  | cons m rest =>
    obtain ⟨hm, hrest⟩ := h
    cases hm
    exact ⟨rest, rfl, hrest⟩

theorem congr (h : Linked next p l) (hnext : ∀ m ∈ l, next' m = next m) : Linked next' p l := by
  induction l generalizing p with
  | nil => exact h
  | cons m rest ih =>
    refine ⟨h.1, ih ?_ fun x hx => hnext x (mem_cons_of_mem m hx)⟩
    rw [hnext m (.head _)]
    exact h.2

variable [DecidableEq ν]

section

variable (h : Linked next p l)
include h

/-- A node that is not in the list is linked to something else. -/
theorem update (hn : n ∉ l) (q : Option ν) : Linked (Function.update next n q) p l := by
  apply h.congr
  rintro m hm
  apply Function.update_of_ne
  rintro rfl
  exact hn hm

theorem push (hn : n ∉ l) : Linked (Function.update next n p) (some n) (n :: l) := by
  refine ⟨rfl, ?_⟩
  rw [Function.update_self]
  exact h.update hn p

theorem append {last : ν} (hlast : l.getLast? = some last)
    (hnodup : l.Nodup) (hn : n ∉ l) (hnext : next n = none) :
    Linked (Function.update next last (some n)) p (l ++ [n]) := by
  induction l generalizing p with
  | nil => cases hlast
  | cons m rest ih =>
    obtain ⟨hm, hrest⟩ := h
    obtain ⟨hmrest, hnodup⟩ := nodup_cons.mp hnodup
    refine ⟨hm, ?_⟩
    cases rest with
    | nil =>
      obtain rfl : m = last := Option.some.inj hlast
      have hnm : n ≠ m := fun he => hn (he ▸ mem_cons_self)
      rw [Function.update_self]
      refine ⟨rfl, ?_⟩
      rw [Function.update_of_ne hnm]
      exact hnext
    | cons x rest =>
      have hml : m ≠ last := fun he => hmrest (he ▸ mem_of_getLast? hlast)
      rw [Function.update_of_ne hml]
      exact ih hrest hlast hnodup fun hc => hn (mem_cons_of_mem m hc)

end

theorem unlink {front back : List ν} (h : Linked next p (front ++ n :: back)) {last : ν}
    (hlast : front.getLast? = some last) (hnodup : (front ++ n :: back).Nodup) :
    Linked (Function.update next last (next n)) p (front ++ back) := by
  induction front generalizing p with
  | nil => cases hlast
  | cons m rest ih =>
    obtain ⟨hm, hrest⟩ := h
    obtain ⟨hmrest, hnodup⟩ := nodup_cons.mp hnodup
    refine ⟨hm, ?_⟩
    cases rest with
    | nil =>
      obtain rfl : m = last := Option.some.inj hlast
      rw [Function.update_self]
      exact hrest.2.update (fun hc => hmrest (mem_cons_of_mem n hc)) _
    | cons x rest =>
      have hml : m ≠ last := fun he =>
        hmrest (he ▸ mem_append_left _ (mem_of_getLast? hlast))
      rw [Function.update_of_ne hml]
      exact ih hrest hlast hnodup

end Linked

/-- What the pointer to the last node becomes when the first one is taken. -/
theorem getLast?_pop [DecidableEq ν] {n : ν} {rest : List ν} (hn : n ∉ rest) :
    (if (n :: rest).getLast? = some n then none else (n :: rest).getLast?) = rest.getLast? := by
  cases rest with
  | nil => exact if_pos rfl
  | cons m rest =>
    rw [List.getLast?_cons_cons, if_neg]
    intro hc
    exact hn (mem_of_getLast? hc)

end RtKernel

import RtKernel.Core.DoublyLinked

/-!
# Several rings of linked nodes

The nodes of one heap are linked into rings, each of which starts from a head that stays
where it is, or are linked to themselves. Putting a node into a ring or taking it out is
the same few assignments of links whatever the ring, and leaves the other rings alone.
-/

namespace RtKernel

open Function List

/-- The links of all nodes. -/
structure Links (ν : Type*) where
  next : ν → ν
  prev : ν → ν

namespace Links

variable {ν ι : Type*} {s : Links ν} {r n : ν} {l t k : List ν}

/-- A node that is linked to itself. -/
def Loose (s : Links ν) (n : ν) : Prop := s.next n = n ∧ s.prev n = n

theorem Loose.ring (h : s.Loose r) : Ring s.next s.prev r [] :=
  isChain_cons_cons.mpr ⟨h, isChain_singleton r⟩

theorem ring_nil (h : Ring s.next s.prev r []) : s.Loose r := (isChain_cons_cons.mp h).1

variable [DecidableEq ν]

/-- `rt_list_init`. -/
def init (s : Links ν) (l : ν) : Links ν where
  next := update s.next l l
  prev := update s.prev l l

/-- `rt_list_insert_before`. -/
def insertBefore (s : Links ν) (l n : ν) : Links ν :=
  let s := { s with next := update s.next (s.prev l) n }
  let s := { s with prev := update s.prev n (s.prev l) }
  let s := { s with prev := update s.prev l n }
  { s with next := update s.next n l }

/-- `rt_list_remove`. -/
def remove (s : Links ν) (n : ν) : Links ν :=
  let s := { s with prev := update s.prev (s.next n) (s.prev n) }
  let s := { s with next := update s.next (s.prev n) (s.next n) }
  { next := update s.next n n, prev := update s.prev n n }

theorem init_of_loose (h : s.Loose n) : s.init n = s := by
  obtain ⟨hnext, hprev⟩ := h
  have hnext' := update_eq_self n s.next
  have hprev' := update_eq_self n s.prev
  rw [hnext] at hnext'
  rw [hprev] at hprev'
  unfold init
  rw [hnext', hprev']

theorem remove_eq (s : Links ν) (n : ν) : s.remove n =
    { next := update (update s.next (s.prev n) (s.next n)) n n
      prev := update (update s.prev (s.next n) (s.prev n)) n n } := by
  have hprev : update s.prev (s.next n) (s.prev n) n = s.prev n := by
    by_cases h : n = s.next n
    · rw [← h, update_self]
    · rw [update_of_ne h]
  unfold remove
  dsimp only
  rw [hprev]

theorem remove_loose (s : Links ν) (n : ν) : (s.remove n).Loose n := by
  exact ⟨update_self _ _ _, update_self _ _ _⟩

theorem remove_of_loose (h : s.Loose n) : s.remove n = s := by
  obtain ⟨hnext, hprev⟩ := h
  rw [remove_eq, hnext, hprev, update_idem, update_idem]
  exact init_of_loose ⟨hnext, hprev⟩

variable {x : ν}

/-- A node that is neither taken out nor next to one keeps its links. -/
theorem remove_of_ne (hn : x ≠ n) (hnext : x ≠ s.prev n) : (s.remove n).next x = s.next x := by
  rw [remove_eq]
  exact (update_of_ne hn _ _).trans (update_of_ne hnext _ _)

theorem remove_prev_of_ne (hn : x ≠ n) (hprev : x ≠ s.next n) : (s.remove n).prev x = s.prev x := by
  exact (update_of_ne hn _ _).trans (update_of_ne hprev _ _)

omit [DecidableEq ν] in
theorem neighbours_ne (h : Ring s.next s.prev r (t ++ n :: k)) (hnodup : (r :: (t ++ n :: k)).Nodup) :
    s.prev n ≠ n ∧ s.next n ≠ n := by
  obtain ⟨hr, htn⟩ := nodup_cons.mp hnodup
  obtain ⟨-, hnk, hdisj⟩ := nodup_append.mp htn
  have hrn : r ≠ n := by
    rintro rfl
    exact hr (mem_append_right t (.head _))
  constructor
  · -- the node in front
    obtain ⟨f, a, hf⟩ := (eq_nil_or_concat' (r :: t)).resolve_left (cons_ne_nil r t)
    have hsplit : r :: (t ++ n :: k) = f ++ a :: (n :: k) := by
      rw [← cons_append, hf, append_assoc, singleton_append]
    rw [(h.link hsplit rfl).2]
    have ha : a ∈ r :: t := hf ▸ mem_append_right f (mem_singleton_self a)
    rcases mem_cons.mp ha with rfl | ha
    · exact hrn
    · exact hdisj a ha n (.head _)
  · -- the node behind
    cases k with
    | nil =>
      have hsplit : r :: (t ++ [n]) = (r :: t) ++ n :: [] := rfl
      rw [(h.link hsplit rfl).1]
      exact hrn
    | cons b k =>
      have hsplit : r :: (t ++ n :: b :: k) = (r :: t) ++ n :: b :: k := rfl
      rw [(h.link hsplit rfl).1]
      rintro rfl
      exact (nodup_cons.mp hnk).1 (.head _)

theorem ring_remove (h : Ring s.next s.prev r (t ++ n :: k)) (hnodup : (r :: (t ++ n :: k)).Nodup) :
    Ring (s.remove n).next (s.remove n).prev r (t ++ k) := by
  obtain ⟨hprev, hnext⟩ := neighbours_ne h hnodup
  have hout : ∀ x ∈ r :: (t ++ k), x ≠ n := by
    have hmiddle : (r :: t ++ n :: k).Perm (n :: (r :: t ++ k)) := perm_middle
    have hperm : (n :: (r :: (t ++ k))).Nodup := hmiddle.nodup_iff.mp hnodup
    rintro x hx rfl
    exact (nodup_cons.mp hperm).1 hx
  refine h.remove hnodup ?_ ?_ (fun x hx hne => remove_of_ne (hout x hx) hne)
    fun x hx hne => remove_prev_of_ne (hout x hx) hne
  · rw [remove_eq]
    exact (update_of_ne hprev _ _).trans (update_self _ _ _)
  · rw [remove_eq]
    exact (update_of_ne hnext _ _).trans (update_self _ _ _)

theorem insertBefore_next (s : Links ν) (r n : ν) : (s.insertBefore r n).next =
    update (update s.next (s.prev r) n) n r := rfl

theorem insertBefore_prev (s : Links ν) (r n : ν) : (s.insertBefore r n).prev =
    update (update s.prev n (s.prev r)) r n := rfl

theorem ring_insertBefore (h : Ring s.next s.prev r l) (hnodup : (r :: l).Nodup) (hn : n ∉ r :: l) :
    Ring (s.insertBefore r n).next (s.insertBefore r n).prev r (l ++ [n]) := by
  obtain ⟨f, a, hlast⟩ := (eq_nil_or_concat' (r :: l)).resolve_left (cons_ne_nil r l)
  obtain ⟨hnext, hprev⟩ := h.link (k := []) (g := []) hlast rfl
  have hrn : r ≠ n := fun heq => hn (heq ▸ mem_cons_self)
  have han : a ≠ n := by
    rintro rfl
    exact hn (hlast ▸ mem_append_right f (mem_singleton_self a))
  have hout : ∀ x ∈ r :: (l ++ []), x ≠ n := by
    rw [append_nil]
    rintro x hx rfl
    exact hn hx
  rw [← append_nil l] at h hnodup
  refine h.insert hnodup hlast ?_ ?_ ?_ ?_ (fun x hx hne => ?_) fun x hx hne => ?_
  · rw [insertBefore_next, hprev, update_of_ne han, update_self]
  · rw [insertBefore_prev, update_of_ne hrn.symm, update_self, hprev]
  · rw [insertBefore_next, update_self, hnext]
  · rw [insertBefore_prev, hnext, update_self]
  · rw [insertBefore_next, hprev, update_of_ne (hout x hx), update_of_ne hne]
  · rw [hnext] at hne
    rw [insertBefore_prev, update_of_ne hne, update_of_ne (hout x hx)]

/-- Each head starts the ring of its list; no node is in two rings. -/
structure Rings (s : Links ν) (head : ι → ν) (lists : ι → List ν) : Prop where
  ring : ∀ i, Ring s.next s.prev (head i) (lists i)
  nodup : ∀ i, (head i :: lists i).Nodup
  apart : ∀ i j, i ≠ j → ∀ x ∈ head i :: lists i, x ∉ head j :: lists j

namespace Rings

variable {head : ι → ν} {lists : ι → List ν} {i : ι}

omit [DecidableEq ν] in
theorem neighbours (h : Rings s head lists) {j : ι} (hx : x ∈ head j :: lists j) :
    s.next x ∈ head j :: lists j ∧ s.prev x ∈ head j :: lists j :=
  ⟨((h.ring j).next_spec hx).1, ((h.ring j).prev_spec hx).1⟩

omit [DecidableEq ν] in
theorem loose_notMem (h : Rings s head lists) (hn : s.Loose n) (hhead : ∀ j, n ≠ head j) :
    n ∉ head i :: lists i := by
  intro hin
  rcases mem_cons.mp hin with heq | hin
  · exact hhead i heq
  · obtain ⟨t, k, hsplit⟩ := append_of_mem hin
    have hring := h.ring i
    have hnodup := h.nodup i
    rw [hsplit] at hring hnodup
    exact (neighbours_ne hring hnodup).2 hn.1

variable [DecidableEq ι]

section

variable (h : Rings s head lists)
include h

theorem remove (hlist : lists i = t ++ n :: k) :
    Rings (s.remove n) head (update lists i (t ++ k)) := by
  have hn : n ∈ head i :: lists i := by
    rw [hlist]
    exact .tail _ (mem_append_right t (.head _))
  have hsub : ∀ j, ∀ x ∈ head j :: update lists i (t ++ k) j, x ∈ head j :: lists j := by
    intro j x hx
    by_cases hj : j = i
    · subst hj
      rw [update_self] at hx
      rw [hlist]
      rcases mem_cons.mp hx with rfl | hx
      · exact .head _
      · refine .tail _ ?_
        rcases mem_append.mp hx with hx | hx
        · exact mem_append_left _ hx
        · exact mem_append_right t (mem_cons_of_mem n hx)
    · rw [update_of_ne hj] at hx
      exact hx
  refine ⟨fun j => ?_, fun j => ?_, fun j j' hne x hx hx' => h.apart j j' hne x (hsub j x hx) (hsub j' x hx')⟩
  · by_cases hj : j = i
    · subst hj
      rw [update_self]
      have hring := h.ring j
      have hnodup := h.nodup j
      rw [hlist] at hring hnodup
      exact ring_remove hring hnodup
    · -- the neighbours of the node are in its own ring
      rw [update_of_ne hj]
      obtain ⟨hnext, hprev⟩ := h.neighbours hn
      refine (h.ring j).congr (fun x hx => ?_) fun x hx => ?_
      · refine remove_of_ne ?_ ?_
        · rintro rfl
          exact h.apart j i hj x hx hn
        · rintro rfl
          exact h.apart j i hj _ hx hprev
      · refine remove_prev_of_ne ?_ ?_
        · rintro rfl
          exact h.apart j i hj x hx hn
        · rintro rfl
          exact h.apart j i hj _ hx hnext
  · by_cases hj : j = i
    · subst hj
      rw [update_self]
      have hnodup := h.nodup j
      rw [hlist] at hnodup
      exact hnodup.sublist (((sublist_cons_self n k).append_left t).cons_cons _)
    · rw [update_of_ne hj]
      exact h.nodup j

theorem insertBefore (hn : ∀ j, n ∉ head j :: lists j) :
    Rings (s.insertBefore (head i) n) head (update lists i (lists i ++ [n])) := by
  have hmem : ∀ j, ∀ x ∈ head j :: update lists i (lists i ++ [n]) j,
      x ∈ head j :: lists j ∨ j = i ∧ x = n := by
    intro j x hx
    by_cases hj : j = i
    · subst hj
      rw [update_self, ← cons_append] at hx
      rcases mem_append.mp hx with hx | hx
      · exact .inl hx
      · exact .inr ⟨rfl, mem_singleton.mp hx⟩
    · rw [update_of_ne hj] at hx
      exact .inl hx
  refine ⟨fun j => ?_, fun j => ?_, fun j j' hne x hx hx' => ?_⟩
  · by_cases hj : j = i
    · subst hj
      rw [update_self]
      exact ring_insertBefore (h.ring j) (h.nodup j) (hn j)
    · rw [update_of_ne hj]
      have hhead : head i ∈ head i :: lists i := mem_cons_self
      have hprev := (h.neighbours hhead).2
      refine (h.ring j).congr (fun x hx => ?_) fun x hx => ?_
      · rw [insertBefore_next, update_of_ne, update_of_ne]
        · rintro rfl
          exact h.apart j i hj _ hx hprev
        · rintro rfl
          exact hn j hx
      · rw [insertBefore_prev, update_of_ne, update_of_ne]
        · rintro rfl
          exact hn j hx
        · rintro rfl
          exact h.apart j i hj _ hx hhead
  · by_cases hj : j = i
    · subst hj
      rw [update_self]
      exact nodup_append.mpr ⟨h.nodup j, nodup_singleton n, by
        rintro x hx y hy rfl
        exact hn j (mem_singleton.mp hy ▸ hx)⟩
    · rw [update_of_ne hj]
      exact h.nodup j
  · rcases hmem j x hx with hin | ⟨rfl, rfl⟩ <;> rcases hmem j' x hx' with hin' | ⟨rfl, heq⟩
    · exact h.apart j j' hne x hin hin'
    · exact hn j (heq ▸ hin)
    · exact hn j' hin'
    · exact hne rfl

omit [DecidableEq ι] in
theorem loose_remove (hn : n ∈ head i :: lists i) (hx : s.Loose x)
    (hne : x ≠ n) (hhead : ∀ j, x ≠ head j) : (s.remove n).Loose x := by
  have hout := h.loose_notMem (i := i) hx hhead
  obtain ⟨hnext, hprev⟩ := h.neighbours hn
  constructor
  · rw [remove_of_ne hne fun heq => hout (heq ▸ hprev)]
    exact hx.1
  · rw [remove_prev_of_ne hne fun heq => hout (heq ▸ hnext)]
    exact hx.2

omit [DecidableEq ι] in
theorem loose_insertBefore (hx : s.Loose x) (hne : x ≠ n)
    (hhead : ∀ j, x ≠ head j) : (s.insertBefore (head i) n).Loose x := by
  have hout := h.loose_notMem (i := i) hx hhead
  have hprev := (h.neighbours (mem_cons_self (a := head i) (l := lists i))).2
  have hne' : x ≠ s.prev (head i) := fun heq => hout (heq ▸ hprev)
  constructor
  · rw [insertBefore_next, update_of_ne hne, update_of_ne hne']
    exact hx.1
  · rw [insertBefore_prev, update_of_ne (hhead i), update_of_ne hne]
    exact hx.2

end

end Rings

end Links

end RtKernel

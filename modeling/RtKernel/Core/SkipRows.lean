import RtKernel.Core.RtList

/-!
# Rows of a skip list

The rows run from the shortest to the full one, each a part of the next in the
same order. A search goes along a row up to the first element that stops it and
drops to the next row where it stands; a position is the element that was passed
last, or none at the head. Where every row has what does not stop the search in
front of what does, the search ends between the two in every row.
-/

open List

namespace RtKernel.SkipRows

variable {α : Type*} [DecidableEq α]

/-- The elements behind a position. -/
def after : Option α → List α → List α
  | none, l => l
  | some _, [] => []
  | some p, q :: l => if q = p then l else after (some p) l

/-- Put an element in at a position. -/
def insertAfter (a : α) : Option α → List α → List α
  | none, l => a :: l
  | some _, [] => []
  | some p, q :: l => if q = p then q :: a :: l else q :: insertAfter a (some p) l

section

variable (stops : α → Prop) [DecidablePred stops]

omit [DecidableEq α] in
/-- Go on from a position until an element stops the search. -/
def walk : Option α → List α → Option α
  | pos, [] => pos
  | pos, q :: l => if stops q then pos else walk (some q) l

/-- Where the search stands in the row `i`. -/
def rowHead (row : Nat → List α) : Nat → Option α
  | 0 => walk stops none (row 0)
  | i + 1 => walk stops (rowHead row i) (after (rowHead row i) (row (i + 1)))

/-- The row with an element put in behind what does not stop the search. -/
def place (a : α) (l : List α) : List α :=
  l.filter (fun x => ¬ stops x) ++ a :: l.filter fun x => stops x

/-- What stops the search comes last. -/
def Parted (l : List α) : Prop := l.Pairwise fun x y => stops x → stops y

end

@[simp] theorem after_none (l : List α) : after none l = l := by
  rw [after]

@[simp] theorem insertAfter_none (a : α) (l : List α) : insertAfter a none l = a :: l := by
  rw [insertAfter]

section

variable {stops : α → Prop} [DecidablePred stops] {a : α} {l pre post : List α}

theorem after_append {p : α} (hp : p ∉ pre) : after (some p) (pre ++ p :: post) = post := by
  induction pre with
  | nil => exact if_pos rfl
  | cons q pre ih =>
    have hq : q ≠ p := fun he => hp (he ▸ mem_cons_self)
    exact (if_neg hq).trans (ih fun hmem => hp (mem_cons_of_mem q hmem))

theorem insertAfter_append {p : α} (hp : p ∉ pre) :
    insertAfter a (some p) (pre ++ p :: post) = pre ++ p :: a :: post := by
  induction pre with
  | nil => exact if_pos rfl
  | cons q pre ih =>
    have hq : q ≠ p := fun he => hp (he ▸ mem_cons_self)
    exact (if_neg hq).trans (congrArg (q :: ·) (ih fun hmem => hp (mem_cons_of_mem q hmem)))

/-- Putting an element in behind the last of the front part. -/
theorem insertAfter_getLast (hnodup : (pre ++ post).Nodup) :
    insertAfter a pre.getLast? (pre ++ post) = pre ++ a :: post := by
  rcases eq_nil_or_concat pre with rfl | ⟨front, p, rfl⟩
  · exact insertAfter_none a post
  · rw [concat_eq_append] at hnodup ⊢
    have hp : p ∉ front := by
      rw [append_assoc] at hnodup
      intro hmem
      exact (nodup_append.mp hnodup).2.2 p hmem p (by simp) rfl
    rw [List.getLast?_append_of_ne_nil _ (cons_ne_nil p []), List.getLast?_singleton,
      append_assoc, append_assoc]
    exact insertAfter_append hp

omit [DecidableEq α] in
theorem walk_append (hpre : ∀ x ∈ pre, ¬ stops x) (hpost : ∀ x ∈ post, stops x) (pos : Option α) :
    walk stops pos (pre ++ post) = pre.getLast?.or pos := by
  induction pre generalizing pos with
  | nil =>
    cases post with
    | nil => rfl
    | cons q post => exact if_pos (hpost q (.head _))
  | cons q pre ih =>
    have hrest := ih (fun x hx => hpre x (mem_cons_of_mem q hx)) (some q)
    rw [cons_append, walk, if_neg (hpre q (.head _)), hrest, List.getLast?_cons]
    cases pre.getLast? <;> rfl

/-- From the head or from an element of the front part the search ends behind the front part. -/
theorem walk_after (hnodup : (pre ++ post).Nodup) (hpre : ∀ x ∈ pre, ¬ stops x)
    (hpost : ∀ x ∈ post, stops x) {pos : Option α} (hpos : ∀ p ∈ pos, p ∈ pre) :
    walk stops pos (after pos (pre ++ post)) = pre.getLast? := by
  cases pos with
  | none =>
    rw [after_none, walk_append hpre hpost]
    cases pre.getLast? <;> rfl
  | some p =>
    obtain ⟨front, back, rfl⟩ := append_of_mem (hpos p rfl)
    have hp : p ∉ front := by
      rw [append_assoc] at hnodup
      intro hmem
      exact (nodup_append.mp hnodup).2.2 p hmem p (by simp) rfl
    have hback : ∀ x ∈ back, ¬ stops x := fun x hx =>
      hpre x (mem_append_right front (mem_cons_of_mem p hx))
    rw [append_assoc, cons_append, after_append hp, walk_append hback hpost,
      List.getLast?_append_of_ne_nil _ (cons_ne_nil p back), List.getLast?_cons]
    cases back.getLast? <;> rfl

omit [DecidableEq α] in
theorem Parted.eq_append (h : Parted stops l) :
    l = l.filter (fun x => ¬ stops x) ++ l.filter fun x => stops x := by
  induction l with
  | nil => rfl
  | cons q l ih =>
    obtain ⟨hq, hl⟩ := pairwise_cons.mp h
    by_cases hs : stops q
    · have hnone : l.filter (fun x => ¬ stops x) = [] :=
        filter_eq_nil_iff.mpr fun x hx => by simpa using hq x hx hs
      have hall : l.filter (fun x => stops x) = l :=
        filter_eq_self.mpr fun x hx => decide_eq_true (hq x hx hs)
      rw [filter_cons_of_neg (by simpa using hs), filter_cons_of_pos (by simpa using hs),
        hnone, hall]
      rfl
    · rw [filter_cons_of_pos (by simpa using hs), filter_cons_of_neg (by simpa using hs),
        cons_append, ← ih hl]

omit [DecidableEq α] [DecidablePred stops] in
theorem Parted.sublist (h : Parted stops l) {l' : List α} (hsub : l'.Sublist l) : Parted stops l' :=
  List.Pairwise.sublist hsub h

section

omit [DecidableEq α]

theorem mem_place {x : α} : x ∈ place stops a l ↔ x = a ∨ x ∈ l := by
  simp only [place, mem_append, mem_cons, mem_filter, decide_eq_true_eq]
  tauto

theorem place_congr {stops' : α → Prop} [DecidablePred stops'] (h : ∀ x ∈ l, stops x ↔ stops' x) :
    place stops a l = place stops' a l := by
  have hstop : l.filter (fun x => stops x) = l.filter fun x => stops' x :=
    filter_congr fun x hx => decide_eq_decide.mpr (h x hx)
  have hpass : l.filter (fun x => ¬ stops x) = l.filter fun x => ¬ stops' x :=
    filter_congr fun x hx => decide_eq_decide.mpr (not_congr (h x hx))
  rw [place, place, hstop, hpass]

theorem place_perm : (place stops a l).Perm (a :: l) := by
  have hsplit := filter_append_perm (fun x => decide (¬ stops x)) l
  simp only [decide_not, Bool.not_not] at hsplit
  refine perm_middle.trans (List.Perm.cons a ?_)
  simpa only [decide_not] using hsplit

theorem sublist_place (h : Parted stops l) : l.Sublist (place stops a l) := by
  have hsub : (l.filter (fun x => ¬ stops x) ++ l.filter fun x => stops x).Sublist
      (place stops a l) := (List.Sublist.refl _).append (sublist_cons_self a _)
  rwa [← h.eq_append] at hsub

theorem place_sublist {l' : List α} (h : l.Sublist l') :
    (place stops a l).Sublist (place stops a l') :=
  (h.filter _).append ((h.filter _).cons_cons a)

variable {r : α → α → Prop}

/-- An ordered row stays ordered when the search stops at what is after the new element. -/
theorem pairwise_place (h : l.Pairwise r) (hfront : ∀ x ∈ l, ¬ stops x → r x a)
    (hback : ∀ x ∈ l, stops x → r a x) (hparted : ∀ x ∈ l, ∀ y ∈ l, ¬ stops x → stops y → r x y) :
    (place stops a l).Pairwise r := by
  refine pairwise_append.mpr ⟨h.sublist filter_sublist, ?_, ?_⟩
  · refine pairwise_cons.mpr ⟨fun x hx => ?_, h.sublist filter_sublist⟩
    obtain ⟨hmem, hs⟩ := mem_filter.mp hx
    exact hback x hmem (of_decide_eq_true hs)
  · intro x hx y hy
    obtain ⟨hmem, hs⟩ := mem_filter.mp hx
    have hs : ¬ stops x := of_decide_eq_true hs
    rcases mem_cons.mp hy with rfl | hy
    · exact hfront x hmem hs
    · obtain ⟨hmemy, hsy⟩ := mem_filter.mp hy
      exact hparted x hmem y hmemy hs (of_decide_eq_true hsy)

end

end

section

variable {stops : α → Prop} [DecidablePred stops] {row : Nat → List α} {bottom : Nat}

/-- Every row up to the full one is a part of the next, and the full row has no repetition. -/
structure Nested (row : Nat → List α) (bottom : Nat) : Prop where
  sublist : ∀ i < bottom, (row i).Sublist (row (i + 1))
  nodup : (row bottom).Nodup

section

variable (h : Nested row bottom) {i : Nat}
include h

omit [DecidableEq α] in
theorem Nested.sublist_bottom (hi : i ≤ bottom) : (row i).Sublist (row bottom) := by
  induction hi using Nat.decreasingInduction with
  | self => exact .refl _
  | of_succ i hi ih => exact (h.sublist i hi).trans ih

omit [DecidableEq α] in
theorem Nested.row_nodup (hi : i ≤ bottom) : (row i).Nodup :=
  h.nodup.sublist (h.sublist_bottom hi)

theorem Nested.remove (a : α) : Nested (fun i => rtListRemove (row i) a) bottom where
  sublist i hi := (h.sublist i hi).filter _
  nodup := h.nodup.sublist (rtListRemove_sublist _)

section

variable (hparted : Parted stops (row bottom)) {i : Nat}
include hparted

omit [DecidableEq α] in
/-- The rows stay parts of each other when an element goes into all rows from some row on. -/
theorem Nested.grow {a : α} (ha : a ∉ row bottom) {k : Nat} (hk : k ≤ bottom) {row' : Nat → List α}
    (hrow : ∀ i ≤ bottom, row' i = if k ≤ i then place stops a (row i) else row i) :
    Nested row' bottom where
  sublist i hi := by
    rw [hrow i (by omega), hrow (i + 1) (by omega)]
    by_cases hki : k ≤ i
    · rw [if_pos hki, if_pos (by omega)]
      exact place_sublist (h.sublist i hi)
    · rw [if_neg hki]
      by_cases hki' : k ≤ i + 1
      · rw [if_pos hki']
        exact (h.sublist i hi).trans (sublist_place (hparted.sublist (h.sublist_bottom (by omega))))
      · rw [if_neg hki']
        exact h.sublist i hi
  nodup := by
    rw [hrow bottom (Nat.le_refl _), if_pos hk]
    exact place_perm.nodup_iff.mpr (nodup_cons.mpr ⟨ha, h.nodup⟩)

/-- In every row the search ends behind all that does not stop it. -/
theorem Nested.rowHead_eq
    (hi : i ≤ bottom) : rowHead stops row i = ((row i).filter fun x => ¬ stops x).getLast? := by
  induction i with
  | zero =>
    have hrow := (hparted.sublist (h.sublist_bottom hi)).eq_append
    have hnodup := h.row_nodup hi
    rw [hrow] at hnodup
    have hwalk := walk_after hnodup (fun x hx => of_decide_eq_true (mem_filter.mp hx).2)
      (fun x hx => of_decide_eq_true (mem_filter.mp hx).2) fun p hp =>
        absurd hp (Option.not_mem_none p)
    rwa [← hrow, after_none] at hwalk
  | succ i ih =>
    have hpos := ih (by omega)
    have hrow := (hparted.sublist (h.sublist_bottom hi)).eq_append
    have hnodup := h.row_nodup hi
    rw [hrow] at hnodup
    have hwalk := walk_after hnodup (fun x hx => of_decide_eq_true (mem_filter.mp hx).2)
      (fun x hx => of_decide_eq_true (mem_filter.mp hx).2) fun p hp =>
        ((h.sublist i (by omega)).filter _).subset (mem_of_getLast? (hpos ▸ hp))
    rwa [← hrow] at hwalk

theorem Nested.insertAfter_rowHead (hi : i ≤ bottom) (a : α) :
    insertAfter a (rowHead stops row i) (row i) = place stops a (row i) := by
  have hrow := (hparted.sublist (h.sublist_bottom hi)).eq_append
  have hnodup := h.row_nodup hi
  rw [hrow] at hnodup
  rw [h.rowHead_eq hparted hi]
  exact (congrArg _ hrow).trans (insertAfter_getLast hnodup)

end

end

end

end RtKernel.SkipRows

import Mathlib.Data.List.Basic

/-!
# Paths

A path is cut at its separators. Of its components the empty ones and the single dots are dropped,
and two dots cancel the name before them, or climb above the root.
-/

open List

namespace RtKernel.Paths

variable {α : Type*} [DecidableEq α] {sep dot : α} {c path : List α} {x : α}

/-- The names that a walk has come to, the last one first, and how often it has climbed. -/
structure Walk (α : Type*) where
  names : List (List α)
  climbs : Nat
  deriving DecidableEq

namespace Walk

/-- Walk on by a component. -/
def step (dot : α) (w : Walk α) (c : List α) : Walk α :=
  if c = [] ∨ c = [dot] then w
  else if c = [dot, dot] then
    match w.names with
    | [] => { w with climbs := w.climbs + 1 }
    | _ :: names => { w with names := names }
  else { w with names := c :: w.names }

/-- A walk along components. -/
def along (dot : α) (w : Walk α) (comps : List (List α)) : Walk α := comps.foldl (step dot) w

/-- The walk that has not gone anywhere. -/
def root : Walk α := { names := [], climbs := 0 }

end Walk

/-- The walk along a path. -/
def resolve (sep dot : α) (path : List α) : Walk α := Walk.root.along dot (path.splitOn sep)

/-- The path to some names, which has a separator before each of them. -/
def canonical (sep : α) (names : List (List α)) : List α :=
  if names = [] then [sep] else names.flatMap (sep :: ·)

/-- What can be a name. -/
structure Proper (sep dot : α) (c : List α) : Prop where
  ne_nil : c ≠ []
  ne_dot : c ≠ [dot]
  ne_dots : c ≠ [dot, dot]
  sep_free : sep ∉ c

theorem sep_free_of_mem_splitOn (h : c ∈ path.splitOn sep) : sep ∉ c := by
  induction path generalizing c with
  | nil =>
    rw [splitOn_nil, mem_singleton] at h
    rw [h]
    exact not_mem_nil
  | cons x path ih =>
    rw [splitOn_cons_eq_if_modifyHead] at h
    split_ifs at h with hsep
    · rcases mem_cons.mp h with rfl | h
      · exact not_mem_nil
      · exact ih h
    · obtain ⟨d, ds, hd⟩ := exists_cons_of_ne_nil (splitOn_ne_nil sep path)
      rw [hd] at h ih
      rcases mem_cons.mp h with rfl | h
      · intro hmem
        rcases mem_cons.mp hmem with rfl | hmem
        · exact hsep (beq_self_eq_true _)
        · exact ih (.head _) hmem
      · exact ih (.tail _ h)

theorem mem_of_mem_splitOn (h : c ∈ path.splitOn sep) (hx : x ∈ c) :
    x ∈ path := by
  have hpath : [sep].intercalate (path.splitOn sep) = path := intercalate_splitOn sep
  rw [← hpath]
  generalize path.splitOn sep = comps at h
  induction comps with
  | nil => exact absurd h not_mem_nil
  | cons d comps ih =>
    cases comps with
    | nil =>
      rw [mem_singleton.mp h] at hx
      rwa [intercalate_singleton]
    | cons e comps =>
      rcases mem_cons.mp h with rfl | h
      · exact mem_append_left _ hx
      · exact mem_append_right _ (mem_append_right _ (ih h))

namespace Walk

variable {w : Walk α} {c : List α}

theorem along_cons (c : List α) (comps : List (List α)) :
    w.along dot (c :: comps) = (w.step dot c).along dot comps := rfl

theorem step_nil : w.step dot [] = w := if_pos (.inl rfl)

theorem step_dot : w.step dot [dot] = w := if_pos (.inr rfl)

theorem step_proper (h : Proper sep dot c) :
    w.step dot c = { w with names := c :: w.names } := by
  unfold step
  rw [if_neg (not_or.mpr ⟨h.ne_nil, h.ne_dot⟩), if_neg h.ne_dots]

variable {names : List (List α)} {n : List α} {comps : List (List α)}

theorem step_dots_cons {k : Nat} :
    step dot ⟨n :: names, k⟩ [dot, dot] = ⟨names, k⟩ := by
  simp [step]

/-- A component is dropped, or cancels a name, or is one. -/
theorem step_names (h : ∀ n ∈ w.names, Proper sep dot n) (hc : sep ∉ c) :
    ∀ n ∈ (w.step dot c).names, Proper sep dot n := by
  obtain ⟨names, k⟩ := w
  unfold step
  split_ifs with hdropped hdots
  · exact h
  · cases names with
    | nil => exact h
    | cons n names => exact fun m hm => h m (.tail _ hm)
  · intro n hn
    rcases mem_cons.mp hn with rfl | hn
    · exact ⟨fun hno => hdropped (.inl hno), fun hno => hdropped (.inr hno), hdots, hc⟩
    · exact h n hn

theorem climbs_le_step (c : List α) : w.climbs ≤ (w.step dot c).climbs := by
  obtain ⟨names, k⟩ := w
  unfold step
  split_ifs
  · exact Nat.le_refl _
  · cases names with
    | nil => exact Nat.le_succ _
    | cons n names => exact Nat.le_refl _
  · exact Nat.le_refl _

theorem climbs_le_along (comps : List (List α)) : w.climbs ≤ (w.along dot comps).climbs := by
  induction comps generalizing w with
  | nil => exact Nat.le_refl _
  | cons c comps ih => exact Nat.le_trans (climbs_le_step c) ih

theorem along_names (h : ∀ n ∈ w.names, Proper sep dot n)
    (hcomps : ∀ c ∈ comps, sep ∉ c) : ∀ n ∈ (w.along dot comps).names, Proper sep dot n := by
  induction comps generalizing w with
  | nil => exact h
  | cons c comps ih =>
    exact ih (step_names h (hcomps c (.head _))) fun d hd =>
      hcomps d (.tail _ hd)

/-- The names of a walk are some of the components. -/
theorem mem_along (h : n ∈ (w.along dot comps).names) :
    n ∈ w.names ∨ n ∈ comps := by
  induction comps generalizing w with
  | nil => exact .inl h
  | cons c comps ih =>
    rcases ih h with hstep | hmore
    · obtain ⟨names, k⟩ := w
      unfold step at hstep
      split_ifs at hstep
      · exact .inl hstep
      · cases names with
        | nil => exact .inl hstep
        | cons m names => exact .inl (.tail _ hstep)
      · rcases mem_cons.mp hstep with rfl | hold
        · exact .inr (.head _)
        · exact .inl hold
    · exact .inr (.tail _ hmore)

theorem along_proper (h : ∀ n ∈ names, Proper sep dot n) :
    w.along dot names = { w with names := names.reverse ++ w.names } := by
  induction names generalizing w with
  | nil => rfl
  | cons n names ih =>
    rw [along_cons, step_proper (h n (.head _)),
      ih fun m hm => h m (.tail _ hm), reverse_cons, append_assoc]
    rfl

end Walk

theorem resolve_names (sep dot : α) (path : List α) :
    ∀ n ∈ (resolve sep dot path).names, Proper sep dot n :=
  Walk.along_names (fun _ hn => absurd hn not_mem_nil) fun _ => sep_free_of_mem_splitOn

theorem mem_of_mem_resolve {path n : List α} (hn : n ∈ (resolve sep dot path).names)
    (hx : x ∈ n) : x ∈ path := by
  rcases Walk.mem_along hn with hroot | hcomp
  · exact absurd hroot not_mem_nil
  · exact mem_of_mem_splitOn hcomp hx

omit [DecidableEq α] in
theorem mem_canonical (h : x ∈ canonical sep names) : x = sep ∨ ∃ n ∈ names, x ∈ n := by
  unfold canonical at h
  split_ifs at h
  · exact .inl (mem_singleton.mp h)
  · obtain ⟨n, hn, hx⟩ := mem_flatMap.mp h
    rcases mem_cons.mp hx with hsep | hmem
    · exact .inl hsep
    · exact .inr ⟨n, hn, hmem⟩

omit [DecidableEq α] in
theorem flatMap_eq_intercalate (h : names ≠ []) :
    names.flatMap (sep :: ·) = [sep].intercalate ([] :: names) := by
  induction names with
  | nil => exact absurd rfl h
  | cons n names ih =>
    cases names with
    | nil => simp
    | cons m names =>
      rw [flatMap_cons, ih (cons_ne_nil _ _)]
      simp

theorem canonical_splitOn (h : ∀ n ∈ names, sep ∉ n) :
    (canonical sep names).splitOn sep = [] :: if names = [] then [[]] else names := by
  have hcanonical :
      canonical sep names = [sep].intercalate ([] :: if names = [] then [[]] else names) := by
    unfold canonical
    split_ifs with hnil
    · simp
    · exact flatMap_eq_intercalate hnil
  rw [hcanonical]
  refine splitOn_intercalate sep (fun l hl => ?_) (cons_ne_nil _ _)
  rcases mem_cons.mp hl with rfl | hl
  · exact not_mem_nil
  · split_ifs at hl with hnil
    · rw [mem_singleton.mp hl]
      exact not_mem_nil
    · exact h l hl

/-- A canonical path leads to its names, and does not climb. -/
theorem resolve_canonical (h : ∀ n ∈ names, Proper sep dot n) :
    resolve sep dot (canonical sep names) = { names := names.reverse, climbs := 0 } := by
  unfold resolve
  rw [canonical_splitOn fun n hn => (h n hn).sep_free, Walk.along_cons, Walk.step_nil]
  split_ifs with hnil
  · rw [hnil]
    rfl
  · rw [Walk.along_proper h]
    simp [Walk.root]

end RtKernel.Paths

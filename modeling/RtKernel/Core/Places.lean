import Mathlib.Data.List.Nodup
import Mathlib.Data.List.Perm.Subperm

/-!
# Numbered things in a list or in somebody's hands

A pool numbers its things from zero. Each of them is in a list, once, or in the hands
of one member of `τ`, who has at most one.
-/

open List

namespace RtKernel

variable {τ : Type*} {size : Nat} {list list' : List Nat} {held held' : τ → Option Nat}

/-- Every thing is in the list or in somebody's hands. -/
structure Placed (size : Nat) (list : List Nat) (held : τ → Option Nat) : Prop where
  nodup : list.Nodup
  apart : ∀ t n, held t = some n → n ∉ list ∧ ∀ u, held u = some n → u = t
  all : ∀ n, n < size ↔ n ∈ list ∨ ∃ t, held t = some n

namespace Placed

theorem range (h : ∀ t, held t = none) : Placed size (List.range size) held := by
  refine ⟨nodup_range, fun t n hn => ?_, fun n => ?_⟩
  · rw [h] at hn
    cases hn
  · simp [h]

section

variable (h : Placed size list held)
include h

theorem perm (hlist : list'.Perm list) (hheld : ∀ u, held' u = held u) :
    Placed size list' held' := by
  refine ⟨hlist.nodup_iff.mpr h.nodup, fun u n hn => ?_, fun n => ?_⟩
  · rw [hheld] at hn
    obtain ⟨hout, hone⟩ := h.apart u n hn
    refine ⟨fun hin => hout (hlist.mem_iff.mp hin), fun v hv => hone v ?_⟩
    rw [← hheld]
    exact hv
  · rw [h.all, hlist.mem_iff]
    simp only [hheld]

/-- Those in the list are among the first `size` numbers. -/
theorem length_le : list.length ≤ size := by
  have hsub : list ⊆ List.range size := by
    intro n hn
    rw [mem_range, h.all]
    exact .inl hn
  have hlen := (subperm_of_subset h.nodup hsub).length_le
  rwa [length_range] at hlen

theorem length_lt {t : τ} {n : Nat} (hn : held t = some n) : list.length < size := by
  have hnodup : (n :: list).Nodup := nodup_cons.mpr ⟨(h.apart t n hn).1, h.nodup⟩
  have hsub : n :: list ⊆ List.range size := by
    intro k hk
    rw [mem_range, h.all]
    rcases mem_cons.mp hk with rfl | hk
    · exact .inr ⟨t, hn⟩
    · exact .inl hk
  have hlen := (subperm_of_subset hnodup hsub).length_le
  rwa [length_cons, length_range] at hlen

/-- Where nobody has any, all of them are in the list. -/
theorem perm_range (hnone : ∀ t, held t = none) : list.Perm (List.range size) := by
  refine (perm_ext_iff_of_nodup h.nodup nodup_range).mpr fun n => ?_
  rw [mem_range, h.all]
  simp [hnone]

end

variable [DecidableEq τ] {u : τ} {n : Nat}

theorem take (h : Placed size list held) (hlist : list.Perm (n :: list')) (hfree : held u = none)
    (hheld : ∀ v, held' v = if v = u then some n else held v) : Placed size list' held' := by
  have hnodup := hlist.nodup_iff.mp h.nodup
  have hn : n ∈ list := hlist.mem_iff.mpr (.head _)
  refine ⟨(nodup_cons.mp hnodup).2, fun v k hk => ?_, fun k => ?_⟩
  · rw [hheld] at hk
    by_cases hv : v = u
    · obtain rfl : n = k := by simpa [hv] using hk
      refine ⟨(nodup_cons.mp hnodup).1, fun w hw => ?_⟩
      by_contra hne
      rw [hheld, if_neg (hv ▸ hne)] at hw
      exact (h.apart w n hw).1 hn
    · rw [if_neg hv] at hk
      obtain ⟨hout, hone⟩ := h.apart v k hk
      refine ⟨fun hin => hout (hlist.mem_iff.mpr (.tail _ hin)), fun w hw => ?_⟩
      rw [hheld] at hw
      by_cases hwu : w = u
      · obtain rfl : n = k := by simpa [hwu] using hw
        exact absurd hn hout
      · rw [if_neg hwu] at hw
        exact hone w hw
  · rw [h.all, hlist.mem_iff, mem_cons]
    constructor
    · rintro ((rfl | hin) | ⟨v, hv⟩)
      · exact .inr ⟨u, by rw [hheld, if_pos rfl]⟩
      · exact .inl hin
      · refine .inr ⟨v, ?_⟩
        rw [hheld, if_neg, hv]
        rintro rfl
        rw [hfree] at hv
        cases hv
    · rintro (hin | ⟨v, hv⟩)
      · exact .inl (.inr hin)
      · rw [hheld] at hv
        by_cases hvu : v = u
        · exact .inl (.inl (by simpa [hvu] using hv.symm))
        · rw [if_neg hvu] at hv
          exact .inr ⟨v, hv⟩

theorem put (h : Placed size list held) (hlist : list'.Perm (n :: list)) (hu : held u = some n)
    (hheld : ∀ v, held' v = if v = u then none else held v) : Placed size list' held' := by
  obtain ⟨hout, hone⟩ := h.apart u n hu
  refine ⟨hlist.nodup_iff.mpr (nodup_cons.mpr ⟨hout, h.nodup⟩), fun v k hk => ?_, fun k => ?_⟩
  · rw [hheld] at hk
    by_cases hv : v = u
    · simp [hv] at hk
    · rw [if_neg hv] at hk
      obtain ⟨hkout, hkone⟩ := h.apart v k hk
      refine ⟨fun hin => ?_, fun w hw => ?_⟩
      · rcases mem_cons.mp (hlist.mem_iff.mp hin) with rfl | hin
        · exact hv (hone v hk)
        · exact hkout hin
      · rw [hheld] at hw
        by_cases hwu : w = u
        · simp [hwu] at hw
        · rw [if_neg hwu] at hw
          exact hkone w hw
  · rw [h.all, hlist.mem_iff, mem_cons]
    constructor
    · rintro (hin | ⟨v, hv⟩)
      · exact .inl (.inr hin)
      · by_cases hvu : v = u
        · rw [hvu, hu] at hv
          exact .inl (.inl (Option.some.inj hv).symm)
        · exact .inr ⟨v, by rw [hheld, if_neg hvu, hv]⟩
    · rintro ((rfl | hin) | ⟨v, hv⟩)
      · exact .inr ⟨u, hu⟩
      · exact .inl hin
      · rw [hheld] at hv
        by_cases hvu : v = u
        · simp [hvu] at hv
        · rw [if_neg hvu] at hv
          exact .inr ⟨v, hv⟩

end Placed

end RtKernel

import Mathlib.Data.List.Chain
import Mathlib.Data.List.Nodup

/-!
# Circular doubly linked lists

A ring starts from a node that is never taken out. Each node is linked to the next
one, which is linked back, and the last one to the first. A node is put in or taken
out by changing the links of its neighbours, whatever else is stored there.
-/

open List

namespace RtKernel

variable {ν : Type*} {next prev next' prev' : ν → ν} {r a n : ν} {l l' f k : List ν}

/-- Two nodes are linked both ways. -/
def Link (next prev : ν → ν) (a b : ν) : Prop := next a = b ∧ prev b = a

/-- The nodes of `l` follow `r` in this order, and `r` follows the last one. -/
def Ring (next prev : ν → ν) (r : ν) (l : List ν) : Prop :=
  (r :: l ++ [r]).IsChain (Link next prev)

theorem chain_congr (h : l.IsChain (Link next prev)) (hnext : ∀ x ∈ l.dropLast, next' x = next x)
    (hprev : ∀ x ∈ l.tail, prev' x = prev x) : l.IsChain (Link next' prev') := by
  induction l with
  | nil => exact .nil
  | cons x rest ih =>
    cases rest with
    | nil => exact .singleton x
    | cons y rest =>
      rw [isChain_cons_cons] at h ⊢
      constructor
      · constructor
        · rw [hnext x (.head _), h.1.1]
        · rw [hprev y (.head _), h.1.2]
      · apply ih h.2
        · intro z hz
          exact hnext z (mem_cons_of_mem x hz)
        · intro z hz
          exact hprev z (mem_cons_of_mem y hz)

/-- The last node before a place and the first one after it. -/
private theorem exists_ends (r : ν) (l₁ l₂ : List ν) :
    ∃ f a b k, r :: l₁ = f ++ [a] ∧ l₂ ++ [r] = b :: k := by
  obtain ⟨f, a, hf⟩ := (eq_nil_or_concat' (r :: l₁)).resolve_left (cons_ne_nil r l₁)
  cases l₂ with
  | nil => exact ⟨f, a, r, [], hf, rfl⟩
  | cons b k => exact ⟨f, a, b, k ++ [r], hf, rfl⟩

namespace Ring

section

variable (h : Ring next prev r l)
include h

theorem congr (hnext : ∀ x ∈ r :: l, next' x = next x)
    (hprev : ∀ x ∈ r :: l, prev' x = prev x) : Ring next' prev' r l := by
  apply chain_congr h
  · intro x hx
    rw [dropLast_concat] at hx
    exact hnext x hx
  · intro x hx
    apply hprev
    simp only [cons_append, tail_cons, mem_append, mem_singleton] at hx
    rw [mem_cons]
    exact hx.symm

theorem link {b : ν} {g : List ν} (hsplit : r :: l = f ++ a :: k)
    (hk : k ++ [r] = b :: g) : Link next prev a b := by
  rw [Ring, hsplit, append_assoc, cons_append, hk, isChain_append_cons_cons] at h
  exact h.2.1

theorem next_spec (ha : a ∈ r :: l) : next a ∈ r :: l ∧ prev (next a) = a := by
  obtain ⟨f, k, hsplit⟩ := append_of_mem ha
  obtain ⟨-, -, b, g, -, hk⟩ := exists_ends r [] k
  obtain ⟨hnext, hprev⟩ := h.link hsplit hk
  have hb : b ∈ k ++ [r] := hk ▸ mem_cons_self
  rw [hnext]
  refine ⟨?_, hprev⟩
  rcases mem_append.mp hb with hb | hb
  · rw [hsplit]
    exact mem_append_right f (mem_cons_of_mem a hb)
  · exact mem_singleton.mp hb ▸ mem_cons_self

theorem prev_spec (ha : a ∈ r :: l) : prev a ∈ r :: l ∧ next (prev a) = a := by
  have hlink : ∀ l₁ l₂, r :: l = r :: l₁ ++ l₂ → (∃ g, l₂ ++ [r] = a :: g) →
      prev a ∈ r :: l ∧ next (prev a) = a := by
    rintro l₁ l₂ hl ⟨g, hg⟩
    obtain ⟨f, c, -, -, hf, -⟩ := exists_ends r l₁ []
    have hsplit : r :: l = f ++ c :: l₂ := by rw [hl, hf, append_assoc, singleton_append]
    obtain ⟨hnext, hprev⟩ := h.link hsplit hg
    rw [hprev, hsplit]
    exact ⟨mem_append_right f (.head _), hnext⟩
  rcases mem_cons.mp ha with rfl | ha
  · exact hlink l [] (append_nil _).symm ⟨[], rfl⟩
  · obtain ⟨l₁, l₂, rfl⟩ := append_of_mem ha
    exact hlink l₁ (a :: l₂) rfl ⟨l₂ ++ [r], rfl⟩

end

/-- The links in front of a place and behind it are kept when only its neighbours are changed. -/
private theorem chains {t k : List ν} {b : ν} (hnodup : (r :: (t ++ k)).Nodup)
    (hlast : r :: t = f ++ [a]) {g : List ν} (hk : k ++ [r] = b :: g)
    (hfront : (f ++ [a]).IsChain (Link next prev)) (hback : (b :: g).IsChain (Link next prev))
    (hnext : ∀ x ∈ r :: (t ++ k), x ≠ a → next' x = next x)
    (hprev : ∀ x ∈ r :: (t ++ k), x ≠ b → prev' x = prev x) :
    (f ++ [a]).IsChain (Link next' prev') ∧ (b :: g).IsChain (Link next' prev') := by
  obtain ⟨hr, htk⟩ := nodup_cons.mp hnodup
  obtain ⟨ht, hkk, hdisj⟩ := nodup_append.mp htk
  have hrt : r ∉ t := fun hm => hr (mem_append_left k hm)
  have hrk : r ∉ k := fun hm => hr (mem_append_right t hm)
  have hb : b ∈ k ++ [r] := hk ▸ mem_cons_self
  have hft : (f ++ [a]).Nodup := hlast ▸ nodup_cons.mpr ⟨hrt, ht⟩
  have hgr : (b :: g).Nodup := by
    rw [← hk]
    refine nodup_append.mpr ⟨hkk, nodup_singleton r, ?_⟩
    rintro x hx y hy rfl
    exact hrk (mem_singleton.mp hy ▸ hx)
  have hmem : ∀ x ∈ f ++ [a], x ∈ r :: (t ++ k) := by
    intro x hx
    rw [← hlast] at hx
    exact mem_cons.mpr ((mem_cons.mp hx).imp_right (mem_append_left k))
  have hmem' : ∀ x ∈ b :: g, x ∈ r :: (t ++ k) := by
    intro x hx
    rw [← hk] at hx
    rcases mem_append.mp hx with hx | hx
    · exact mem_cons_of_mem r (mem_append_right t hx)
    · exact mem_singleton.mp hx ▸ mem_cons_self
  constructor
  · apply chain_congr hfront
    · intro x hx
      rw [dropLast_concat] at hx
      apply hnext x (hmem x (mem_append_left _ hx))
      rintro rfl
      exact (nodup_append.mp hft).2.2 x hx x (mem_singleton_self x) rfl
    · intro x hx
      apply hprev x (hmem x (mem_of_mem_tail hx))
      rw [← hlast] at hx
      rintro rfl
      rcases mem_append.mp hb with hb | hb
      · exact hdisj x hx x hb rfl
      · exact hrt (mem_singleton.mp hb ▸ hx)
  · apply chain_congr hback
    · intro x hx
      apply hnext x (hmem' x (dropLast_subset _ hx))
      rw [← hk, dropLast_concat] at hx
      rintro rfl
      have ha : x ∈ r :: t := hlast ▸ mem_append_right f (mem_singleton_self x)
      rcases mem_cons.mp ha with rfl | ha
      · exact hrk hx
      · exact hdisj x ha x hx rfl
    · intro x hx
      apply hprev x (hmem' x (mem_of_mem_tail hx))
      rintro rfl
      exact (nodup_cons.mp hgr).1 hx

theorem insert {t k : List ν} (h : Ring next prev r (t ++ k)) (hnodup : (r :: (t ++ k)).Nodup)
    (hlast : r :: t = f ++ [a]) (hna : next' a = n) (hpn : prev' n = a) (hnn : next' n = next a)
    (hpb : prev' (next a) = n) (hnext : ∀ x ∈ r :: (t ++ k), x ≠ a → next' x = next x)
    (hprev : ∀ x ∈ r :: (t ++ k), x ≠ next a → prev' x = prev x) :
    Ring next' prev' r (t ++ n :: k) := by
  obtain ⟨-, -, b, g, -, hk⟩ := exists_ends r [] k
  have hsplit : r :: (t ++ k) = f ++ a :: k := by
    rw [← cons_append, hlast, append_assoc, singleton_append]
  obtain ⟨hab, -⟩ := h.link hsplit hk
  rw [hab] at hnn hpb hprev
  rw [Ring, hsplit, append_assoc, cons_append, hk, isChain_append_cons_cons] at h
  obtain ⟨hfront, hback⟩ := chains hnodup hlast hk h.1 h.2.2 hnext hprev
  have hcycle : r :: (t ++ n :: k) ++ [r] = f ++ a :: n :: b :: g := by
    rw [← cons_append, hlast]
    simp [hk]
  rw [Ring, hcycle, isChain_append_cons_cons, isChain_cons_cons]
  exact ⟨hfront, ⟨hna, hpn⟩, ⟨hnn, hpb⟩, hback⟩

theorem remove {t k : List ν} (h : Ring next prev r (t ++ n :: k))
    (hnodup : (r :: (t ++ n :: k)).Nodup) (hna : next' (prev n) = next n)
    (hpb : prev' (next n) = prev n) (hnext : ∀ x ∈ r :: (t ++ k), x ≠ prev n → next' x = next x)
    (hprev : ∀ x ∈ r :: (t ++ k), x ≠ next n → prev' x = prev x) : Ring next' prev' r (t ++ k) := by
  obtain ⟨f, a, b, g, hlast, hk⟩ := exists_ends r t k
  have hcycle : r :: (t ++ n :: k) ++ [r] = f ++ a :: n :: b :: g := by
    rw [← cons_append, hlast]
    simp [hk]
  rw [Ring, hcycle, isChain_append_cons_cons, isChain_cons_cons] at h
  obtain ⟨hfront, ⟨-, hp⟩, ⟨hn, -⟩, hback⟩ := h
  rw [hp] at hna hpb hnext
  rw [hn] at hna hpb hprev
  have hsub : (r :: (t ++ k)).Nodup :=
    hnodup.sublist ((sublist_cons_self n k).append_left t |>.cons_cons r)
  obtain ⟨hfront', hback'⟩ := chains hsub hlast hk hfront hback hnext hprev
  have hcycle' : r :: (t ++ k) ++ [r] = f ++ a :: b :: g := by
    rw [← cons_append, hlast]
    simp [hk]
  rw [Ring, hcycle', isChain_append_cons_cons]
  exact ⟨hfront', ⟨hna, hpb⟩, hback'⟩

end Ring

end RtKernel

import RtKernel.Core.RtList

/-!
# A table of queues with a bitmap

One queue for each priority, and a word whose set bits are the priorities with
members. Members are kept under a key, the priority they are queued at; the bit
a member is cleared with is supplied by the caller, who may know it from
elsewhere.
-/

namespace RtKernel

open Function List

/-- The number of the lowest set bit, counted from one, and zero for no bit. -/
def rtFfs (w : BitVec 32) : Nat :=
  match (List.range 32).find? w.getLsbD with
  | none => 0
  | some p => p + 1

theorem rtFfs_spec {w : BitVec 32} (h : w ≠ 0) :
    ∃ p, rtFfs w = p + 1 ∧ p < 32 ∧ w.getLsbD p = true ∧ ∀ q < p, w.getLsbD q = false := by
  unfold rtFfs
  cases hf : (List.range 32).find? w.getLsbD with
  | none =>
    exfalso
    apply h
    apply BitVec.eq_of_getLsbD_eq
    intro i hi
    have hi' := List.find?_eq_none.mp hf i (mem_range.mpr hi)
    rw [Bool.not_eq_true] at hi'
    rw [hi']
    simp
  | some p =>
    obtain ⟨hp, as, bs, has, hbefore⟩ := List.find?_eq_some_iff_append.mp hf
    have hmem : p ∈ List.range 32 := has ▸ by simp
    refine ⟨p, rfl, mem_range.mp hmem, hp, ?_⟩
    intro q hq
    have hqmem : q ∈ as := by
      have hq' : q ∈ List.range 32 := by
        rw [mem_range] at hmem ⊢
        omega
      rw [has, mem_append] at hq'
      rcases hq' with hq' | hq'
      · exact hq'
      · -- a number behind `p` in the range is larger
        exfalso
        have hsorted := pairwise_lt_range (n := 32)
        rw [has, pairwise_append] at hsorted
        rcases mem_cons.mp hq' with rfl | hq'
        · exact Nat.lt_irrefl _ hq
        · have := (pairwise_cons.mp hsorted.2.1).1 q hq'
          omega
    have := hbefore q hqmem
    simpa using this

/-- `1 << p`. -/
def bit (p : Nat) : BitVec 32 := 1#32 <<< p

theorem getLsbD_bit {p q : Nat} (hp : p < 32) : (bit p).getLsbD q = decide (q = p) := by
  simp only [bit, BitVec.getLsbD_shiftLeft]
  by_cases hq : q = p
  · subst hq
    simp [hp]
  · simp [hq]
    omega

theorem getLsbD_clear {g : BitVec 32} {p q : Nat} (hp : p < 32) :
    (g &&& ~~~(bit p)).getLsbD q = (g.getLsbD q && decide (q ≠ p)) := by
  rw [BitVec.getLsbD_and, BitVec.getLsbD_not, getLsbD_bit hp]
  by_cases hq : q < 32
  · simp [hq]
  · rw [BitVec.getLsbD_of_ge g q (Nat.le_of_not_lt hq)]
    rfl

/-- The queues and the bitmap. -/
structure ReadyTable (α : Type*) where
  group : BitVec 32
  queue : Nat → List α

namespace ReadyTable

variable {α : Type*} [DecidableEq α]

/-- Append to the queue of a priority. -/
def insert (r : ReadyTable α) (p : Nat) (mask : BitVec 32) (x : α) : ReadyTable α :=
  { group := r.group ||| mask, queue := update r.queue p (r.queue p ++ [x]) }

/-- Take a member out of whatever queue it is in. -/
def unlink (r : ReadyTable α) (x : α) : ReadyTable α :=
  { r with queue := fun p => rtListRemove (r.queue p) x }

/-- Clear the bit of a priority that has no members. -/
def clear (r : ReadyTable α) (p : Nat) (mask : BitVec 32) : ReadyTable α :=
  if r.queue p = [] then { r with group := r.group &&& ~~~mask } else r

omit [DecidableEq α] in
@[simp] theorem clear_queue (r : ReadyTable α) (p : Nat) (mask : BitVec 32) :
    (r.clear p mask).queue = r.queue := by
  unfold clear
  split_ifs <;> rfl

omit [DecidableEq α] in
/-- Clearing a bit just before it is set makes no difference. -/
theorem clear_insert (r : ReadyTable α) (p : Nat) (mask : BitVec 32) (x : α) :
    (r.clear p mask).insert p mask x = r.insert p mask x := by
  have hbits : r.group &&& ~~~mask ||| mask = r.group ||| mask := by
    apply BitVec.eq_of_getLsbD_eq
    intro i hi
    simp only [BitVec.getLsbD_or, BitVec.getLsbD_and, BitVec.getLsbD_not, hi, decide_true,
      Bool.true_and]
    cases r.group.getLsbD i <;> cases mask.getLsbD i <;> rfl
  unfold clear
  split_ifs
  · simp only [insert, hbits]
  · rfl

/-- The table holds exactly the members that have a key, each once and in the queue of its key. -/
structure Holds (r : ReadyTable α) (key : α → Option Nat) : Prop where
  mem : ∀ p x, x ∈ r.queue p ↔ key x = some p
  nodup : ∀ p, (r.queue p).Nodup
  lt : ∀ x p, key x = some p → p < 32
  group : ∀ p, r.group.getLsbD p = true ↔ r.queue p ≠ []

namespace Holds

variable {r : ReadyTable α} {key key' : α → Option Nat}

section

variable (h : r.Holds key) {p : Nat}
include h

omit [DecidableEq α] in
theorem congr (hk : ∀ x, key' x = key x) : r.Holds key' := by
  obtain rfl : key' = key := funext hk
  exact h

theorem insert {x : α} (hx : key x = none) (hp : p < 32) :
    (r.insert p (bit p) x).Holds (update key x (some p)) := by
  have hnot : ∀ q, x ∉ r.queue q := fun q hq => by
    rw [h.mem, hx] at hq
    cases hq
  refine ⟨?_, ?_, ?_, ?_⟩
  · intro q y
    simp only [ReadyTable.insert, update_apply]
    by_cases hqp : q = p
    · subst hqp
      by_cases hyx : y = x
      · simp [hyx]
      · simp [hyx, h.mem]
    · by_cases hyx : y = x
      · subst hyx
        have hne : ¬ (some p = some q) := fun he => hqp (Option.some.inj he).symm
        simp [hqp, hnot q, hne]
      · simp [hqp, hyx, h.mem]
  · intro q
    simp only [ReadyTable.insert, update_apply]
    by_cases hqp : q = p
    · subst hqp
      rw [if_pos rfl]
      refine List.Nodup.append (h.nodup q) (nodup_singleton x) ?_
      intro y hy hy'
      obtain rfl := mem_singleton.mp hy'
      exact hnot q hy
    · rw [if_neg hqp]
      exact h.nodup q
  · intro y q hy
    by_cases hyx : y = x
    · subst hyx
      rw [update_self] at hy
      exact Option.some.inj hy ▸ hp
    · rw [update_of_ne hyx] at hy
      exact h.lt y q hy
  · intro q
    simp only [ReadyTable.insert, update_apply, BitVec.getLsbD_or, getLsbD_bit hp]
    by_cases hqp : q = p
    · simp [hqp]
    · simp [hqp, h.group]

/-- Unlinking a member and clearing the bit of its priority, or of any other when it has none. -/
theorem remove {x : α} (hx : ∀ q, key x = some q → q = p) (hp : p < 32) :
    ((r.unlink x).clear p (bit p)).Holds (update key x none) := by
  have hqueue : ∀ q, ((r.unlink x).clear p (bit p)).queue q = rtListRemove (r.queue q) x := by
    intro q
    rw [clear_queue]
    rfl
  have hsame : ∀ q ≠ p, rtListRemove (r.queue q) x = r.queue q := by
    intro q hq
    apply rtListRemove_of_notMem
    rw [h.mem]
    exact fun hk => hq (hx q hk)
  refine ⟨?_, ?_, ?_, ?_⟩
  · intro q y
    rw [hqueue, mem_rtListRemove, h.mem]
    by_cases hyx : y = x
    · simp [hyx]
    · simp [hyx]
  · intro q
    rw [hqueue]
    exact (h.nodup q).sublist (rtListRemove_sublist _)
  · intro y q hy
    by_cases hyx : y = x
    · rw [hyx, update_self] at hy
      cases hy
    · rw [update_of_ne hyx] at hy
      exact h.lt y q hy
  · intro q
    rw [hqueue]
    unfold clear
    by_cases hqp : q = p
    · subst hqp
      by_cases hempty : rtListRemove (r.queue q) x = []
      · have hempty' : (r.unlink x).queue q = [] := hempty
        rw [if_pos hempty']
        simp [hempty, getLsbD_bit hp]
      · have hempty' : ¬ (r.unlink x).queue q = [] := hempty
        have hold : r.queue q ≠ [] := by
          intro hnil
          rw [hnil] at hempty
          exact hempty rfl
        rw [if_neg hempty']
        exact iff_of_true ((h.group q).mpr hold) hempty
    · rw [hsame q hqp, ← h.group q]
      split_ifs
      · change (r.group &&& ~~~(bit p)).getLsbD q = true ↔ _
        rw [getLsbD_clear hp]
        simp [hqp]
      · rfl

omit [DecidableEq α] in
/-- The lowest set bit names a queue with members, and no member is queued below it. -/
theorem lowest (hg : r.group ≠ 0) :
    ∃ p x rest, rtFfs r.group = p + 1 ∧ p < 32 ∧ r.queue p = x :: rest ∧ key x = some p ∧
      ∀ y q, key y = some q → p ≤ q := by
  obtain ⟨p, hffs, hp, hset, hlow⟩ := rtFfs_spec hg
  have hne := (h.group p).mp hset
  cases hq : r.queue p with
  | nil => exact absurd hq hne
  | cons x rest =>
    refine ⟨p, x, rest, hffs, hp, hq, (h.mem p x).mp (hq ▸ mem_cons_self), ?_⟩
    intro y q hy
    by_contra hlt
    have hbit := hlow q (by omega)
    have hin := (h.mem q y).mpr hy
    rw [Bool.eq_false_iff, ne_eq, h.group, not_not] at hbit
    rw [hbit] at hin
    cases hin

omit [DecidableEq α] in
/-- The bitmap is zero exactly when nothing is queued. -/
theorem group_eq_zero : r.group = 0 ↔ ∀ x, key x = none := by
  constructor
  · intro hg x
    cases hx : key x with
    | none => rfl
    | some p =>
      have hin := (h.mem p x).mpr hx
      have hset := (h.group p).mpr (ne_nil_of_mem hin)
      rw [hg] at hset
      simp at hset
  · intro hnone
    by_contra hg
    obtain ⟨p, x, -, -, -, -, hkey, -⟩ := h.lowest hg
    rw [hnone x] at hkey
    cases hkey

end

end Holds

end ReadyTable

end RtKernel

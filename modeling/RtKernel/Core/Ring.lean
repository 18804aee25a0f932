import Mathlib.Data.List.GetD
import Mathlib.Data.Nat.ModEq

/-!
# Rings

A ring holds a sequence in consecutive cells, which go on at cell zero after the
last one. Its items are read from an offset on; what is stored right after them,
maybe over the oldest ones, comes out as if it had been appended.
-/

open List
open Nat (add_assoc mod_eq_of_lt)

namespace RtKernel

open Function

variable {β : Type*}

/-- The `len` items from the offset `o` on in a ring of `n` cells. -/
def ringItems (cell : Nat → β) (n o len : Nat) : List β :=
  (List.range len).map fun i => cell ((o + i) % n)

/-- A block of cells from `p` on is overwritten. -/
def storeAt (cell : Nat → β) (p : Nat) (items : List β) (x : Nat) : β :=
  if x < p then cell x else items.getD (x - p) (cell x)

/-- The cells of a ring from `p` on are overwritten. -/
def ringStore (cell : Nat → β) (n p : Nat) (items : List β) (x : Nat) : β :=
  if x < n then items.getD ((x + (n - p % n)) % n) (cell x) else cell x

section

variable {cell : Nat → β} {n o len : Nat} {i : Nat} {x : Nat}

@[simp] theorem length_ringItems : (ringItems cell n o len).length = len := by
  simp [ringItems]

@[simp] theorem getElem_ringItems (h : i < (ringItems cell n o len).length) :
    (ringItems cell n o len)[i] = cell ((o + i) % n) := by
  simp [ringItems]

@[simp] theorem ringItems_zero : ringItems cell n o 0 = [] := rfl

/-- The offset counts up to the length of the ring. -/
@[simp] theorem ringItems_mod : ringItems cell n (o % n) len = ringItems cell n o len := by
  simp [ringItems]

theorem take_ringItems {m : Nat} (h : m ≤ len) :
    (ringItems cell n o len).take m = ringItems cell n o m := by
  apply ext_getElem
  · simp [h]
  · simp

theorem drop_ringItems (m : Nat) :
    (ringItems cell n o len).drop m = ringItems cell n (o + m) (len - m) := by
  apply ext_getElem
  · simp
  · simp [add_assoc]

theorem ringItems_add (m : Nat) :
    ringItems cell n o (m + len) = ringItems cell n o m ++ ringItems cell n (o + m) len := by
  have hsplit := take_append_drop m (ringItems cell n o (m + len))
  rw [take_ringItems (Nat.le_add_right m len), drop_ringItems, Nat.add_sub_cancel_left] at hsplit
  exact hsplit.symm

/-- Items that do not reach the end of the ring lie one behind the other. -/
theorem ringItems_eq (h : o + len ≤ n) : ringItems cell n o len = (List.range' o len).map cell := by
  rw [range'_eq_map_range, map_map]
  apply map_congr_left
  intro i hi
  have hi := mem_range.mp hi
  rw [mod_eq_of_lt (by omega)]
  rfl

theorem ringItems_succ : ringItems cell n o (len + 1) =
    cell (o % n) :: ringItems cell n (o + 1) len := by
  have h := drop_eq_getElem_cons (l := ringItems cell n o (len + 1)) (i := 0) (by simp)
  rw [drop_zero, getElem_ringItems, drop_ringItems] at h
  exact h

/-- The position after the last item is found again from the position of the first one. -/
theorem ring_offset (hi : i < n) : ((o + i) % n + (n - o % n)) % n = i := by
  have ho := Nat.mod_lt o (Nat.zero_lt_of_lt hi)
  rw [Nat.mod_add_mod, add_assoc, Nat.add_mod, Nat.add_comm i, ← Nat.add_mod, ← Nat.mod_add_mod,
    ← add_assoc, Nat.add_sub_cancel' ho.le, Nat.add_mod_left, mod_eq_of_lt hi]

theorem ring_next (h : x < n) : (if n ≤ x + 1 then 0 else x + 1) = (x + 1) % n := by
  by_cases hn : n ≤ x + 1
  · have heq : x + 1 = n := by omega
    rw [if_pos hn, heq, Nat.mod_self]
  · rw [if_neg hn, mod_eq_of_lt (by omega)]

/-- Some positions forward, less than once around. -/
theorem ring_forward {x m : Nat} (hx : x < n) (hm : m ≤ n) :
    (x + m) % n = if n - x > m then x + m else m - (n - x) := by
  by_cases h : n - x > m
  · rw [if_pos h, mod_eq_of_lt (by omega)]
  · have hsub : x + m - n = m - (n - x) := by omega
    rw [if_neg h, Nat.mod_eq_sub_mod (by omega), hsub, mod_eq_of_lt (by omega)]

theorem ring_prev (h : x < n) : (if 0 < x then x - 1 else n - 1) < n ∧
    ((if 0 < x then x - 1 else n - 1) + 1) % n = x := by
  by_cases hx : 0 < x
  · rw [if_pos hx, Nat.sub_add_cancel hx]
    exact ⟨by omega, mod_eq_of_lt h⟩
  · have hzero : x = 0 := by omega
    rw [if_neg hx, Nat.sub_add_cancel (by omega), Nat.mod_self]
    exact ⟨by omega, hzero.symm⟩

variable {items : List β} {p : Nat} {item : β}

theorem ringStore_self {p i : Nat} (hi : i < n) :
    ringStore cell n p items ((p + i) % n) = items.getD i (cell ((p + i) % n)) := by
  rw [ringStore, if_pos (Nat.mod_lt _ (Nat.zero_lt_of_lt hi)), ring_offset hi]

@[simp] theorem ringStore_mod :
    ringStore cell n (p % n) items = ringStore cell n p items := by
  funext x
  simp [ringStore]

/-- A block that stays before the end of the ring. -/
theorem storeAt_eq (h : p + items.length ≤ n) :
    storeAt cell p items = ringStore cell n p items := by
  funext x
  unfold storeAt ringStore
  by_cases hxn : x < n
  · by_cases hx : x < p
    · by_cases hp : p = n
      · have hnil : items = [] := length_eq_zero_iff.mp (by omega)
        rw [if_pos hx, if_pos hxn, hnil, getD_nil]
      · have hsub : x + (n - p) < n := by omega
        rw [if_pos hx, if_pos hxn, mod_eq_of_lt (by omega : p < n), mod_eq_of_lt hsub,
          getD_eq_default _ _ (by omega)]
    · have hadd : x + (n - p) = x - p + n := by omega
      rw [if_neg hx, if_pos hxn, mod_eq_of_lt (by omega : p < n), hadd, Nat.add_mod_right,
        mod_eq_of_lt (by omega)]
  · rw [if_neg hxn, if_neg (by omega), getD_eq_default _ _ (by omega)]

theorem storeAt_storeAt (cell : Nat → β) (items : List β) (hp : p < n) (hn : items.length ≤ n)
    (h : n - p ≤ items.length) :
    storeAt (storeAt cell p (items.take (n - p))) 0 (items.drop (n - p)) =
      ringStore cell n p items := by
  funext x
  unfold storeAt ringStore
  rw [if_neg (Nat.not_lt_zero x), Nat.sub_zero, mod_eq_of_lt hp]
  by_cases hlow : x < items.length - (n - p)
  · rw [getD_eq_getElem _ _ (by simp [hlow]), getElem_drop, if_pos (by omega),
      mod_eq_of_lt (by omega), getD_eq_getElem _ _ (by omega)]
    simp only [Nat.add_comm]
  · rw [getD_eq_default _ _ (by simp only [length_drop]; omega)]
    by_cases hxp : x < p
    · rw [if_pos hxp, if_pos (by omega), mod_eq_of_lt (by omega),
        getD_eq_default _ _ (by omega)]
    · by_cases hxn : x < n
      · have hadd : x + (n - p) = x - p + n := by omega
        rw [if_neg hxp, if_pos hxn, hadd, Nat.add_mod_right, mod_eq_of_lt (by omega),
          getD_eq_getElem _ _ (by simp only [length_take]; omega), getElem_take,
          getD_eq_getElem _ _ (by omega)]
      · rw [if_neg hxp, if_neg hxn,
          getD_eq_default _ _ (by simp only [length_take]; omega)]

/-- What is stored after the items is appended to them, and the oldest ones may be lost. -/
theorem ringItems_store (cell : Nat → β) (items : List β) {d : Nat} (hlen : len ≤ n)
    (hitems : items.length ≤ n) (hd : len + items.length - n ≤ d) (hle : d ≤ len + items.length) :
    ringItems (ringStore cell n (o + len) items) n (o + d) (len + items.length - d) =
      (ringItems cell n o len ++ items).drop d := by
  apply ext_getElem
  · simp
  · intro i hi hi'
    rw [length_ringItems] at hi
    rw [getElem_ringItems, getElem_drop]
    by_cases h : d + i < len
    · -- an old item is at least the length of what is stored away from the place of the new ones
      have hpos : (o + d + i) % n = (o + len + (n + d + i - len)) % n := by
        rw [← Nat.add_mod_right (o + d + i) n]
        congr 1
        omega
      rw [getElem_append_left (by simpa using h), getElem_ringItems, hpos,
        ringStore_self (by omega), getD_eq_default _ _ (by omega), ← hpos, add_assoc]
    · have hpos : o + d + i = o + len + (d + i - len) := by omega
      rw [getElem_append_right (by simpa using h), hpos, ringStore_self (by omega),
        getD_eq_getElem _ _ (by omega)]
      simp only [length_ringItems]

theorem update_eq_ringStore (hp : p < n) :
    update cell p item = ringStore cell n p [item] := by
  rw [← storeAt_eq (Nat.succ_le_of_lt hp)]
  funext x
  unfold storeAt
  by_cases hx : x < p
  · rw [update_of_ne hx.ne, if_pos hx]
  · rw [if_neg hx]
    by_cases heq : x = p
    · subst heq
      simp
    · rw [update_of_ne heq,
        getD_eq_default _ _ (by simp only [length_singleton]; omega)]

theorem ringItems_back (h : len < n) :
    ringItems (update cell ((o + len) % n) item) n o (len + 1) =
      ringItems cell n o len ++ [item] := by
  rw [update_eq_ringStore (Nat.mod_lt _ (by omega))]
  have hstore := ringItems_store cell [item] (o := o) (d := 0) h.le
    (by simp only [length_singleton]; omega) (by simp only [length_singleton]; omega)
    (Nat.zero_le _)
  simpa using hstore

theorem ringItems_front (ho : o < n) (h : len < n) :
    ringItems (update cell o item) n o (len + 1) =
      item :: ringItems cell n (o + 1) len := by
  rw [ringItems_succ, mod_eq_of_lt ho, update_self]
  congr 1
  apply map_congr_left
  intro i hi
  rw [update_of_ne]
  intro heq
  have hi := mem_range.mp hi
  have hoff := ring_offset (o := o) (i := 1 + i) (n := n) (by omega)
  have hzero := ring_offset (o := o) (i := 0) (n := n) (by omega)
  rw [Nat.add_zero, mod_eq_of_lt ho] at hzero
  rw [← add_assoc, heq, mod_eq_of_lt ho] at hoff
  omega

end

end RtKernel

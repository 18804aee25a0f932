import Mathlib.Data.UInt
import Mathlib.Tactic.Ring

/-!
# Busy waiting on the system timer

`rt_hw_us_delay` compares two samples of the counter, which tell no more than a part of a period,
with a product of 32 bits. Equal samples count as all of `LOAD`.
-/

open Nat (mod_lt succ_pos mod_eq_of_lt)

namespace RtKernel.Board

/-- A count down, and over from `LOAD`. -/
def count (load val : Nat) : Nat := if val = 0 then load else val - 1

/-- When the counter is sampled, in counts since the first sample; what the timer is set to, and
what the first sample is. -/
structure Sampling where
  load : Nat
  load_lt : load < 2 ^ 24
  start : Nat
  start_le : start ≤ load
  elapsed : Nat → Nat
  elapsed_mono : ∀ k, elapsed k ≤ elapsed (k + 1)
  sampled : ∀ m, ∃ k, m * (load + 1) ≤ elapsed k ∧ elapsed k < (m + 1) * (load + 1)

/-- The loop of `rt_hw_us_delay`: the number of the sample that ends it. -/
def delayLoop (start reload counts : UInt32) (val : Nat → UInt32) : Nat → Nat → Option Nat
  | 0, _ => none
  | fuel + 1, k =>
    let now := val k
    let delta := if start > now then start - now else reload + start - now
    if delta < counts then delayLoop start reload counts val fuel (k + 1) else some k

def hwUsDelay (systemCoreClock us : UInt32) (start reload : UInt32) (val : Nat → UInt32)
    (fuel : Nat) : Option Nat :=
  let usTick := systemCoreClock / 1000000
  delayLoop start reload (usTick * us) val fuel 0

namespace Sampling

variable {S : Sampling}

/-- The sample of that number. -/
def val (S : Sampling) (k : Nat) : UInt32 := ((count S.load)^[S.elapsed k] S.start).toUInt32

/-- The delay ends, and not before its time. -/
def Delays (S : Sampling) (systemCoreClock us : UInt32) : Prop :=
  ∃ fuel k, hwUsDelay systemCoreClock us S.start.toUInt32 S.load.toUInt32 S.val fuel = some k ∧
    us.toNat * systemCoreClock.toNat ≤ S.elapsed k * 1000000

end Sampling

theorem succ_mod_period (load n : Nat) :
    (n + 1) % (load + 1) = if n % (load + 1) = load then 0 else n % (load + 1) + 1 := by
  have hparts := Nat.div_add_mod n (load + 1)
  have hlt : n % (load + 1) < load + 1 := mod_lt n (succ_pos load)
  split_ifs with hlast
  · rw [hlast] at hparts
    rw [← hparts, Nat.add_assoc, Nat.mul_add_mod, Nat.mod_self]
  · calc
      (n + 1) % (load + 1) =
          ((load + 1) * (n / (load + 1)) + (n % (load + 1) + 1)) % (load + 1) := by
        rw [← Nat.add_assoc, hparts]
      _ = n % (load + 1) + 1 := by
        rw [Nat.mul_add_mod, mod_eq_of_lt (by omega)]

theorem iterate_count {load start : Nat} (hstart : start ≤ load) (n : Nat) :
    (count load)^[n] start = if n % (load + 1) ≤ start then start - n % (load + 1)
      else start + load + 1 - n % (load + 1) := by
  induction n with
  | zero => simp
  | succ n ih =>
    have hlt : n % (load + 1) < load + 1 := mod_lt n (succ_pos load)
    rw [Function.iterate_succ_apply', ih, succ_mod_period]
    generalize n % (load + 1) = r at hlt
    unfold count
    split_ifs <;> omega

/-- The difference that is computed after so many counts. -/
def delta (load start n : Nat) : Nat :=
  let r := n % (load + 1)
  if r = 0 then load else if r ≤ start then r else r - 1

namespace Sampling

variable {S : Sampling} {systemCoreClock us : UInt32} {counts : UInt32}

theorem delta_lt (S : Sampling) (k : Nat) (counts : UInt32) :
    ((if S.start.toUInt32 > S.val k then S.start.toUInt32 - S.val k
      else S.load.toUInt32 + S.start.toUInt32 - S.val k) < counts) ↔
        delta S.load S.start (S.elapsed k) < counts.toNat := by
  have hload := S.load_lt
  have hstart := S.start_le
  have hlt : S.elapsed k % (S.load + 1) < S.load + 1 := mod_lt _ (succ_pos _)
  have hval : (S.val k).toNat = if S.elapsed k % (S.load + 1) ≤ S.start then
      S.start - S.elapsed k % (S.load + 1)
      else S.start + S.load + 1 - S.elapsed k % (S.load + 1) := by
    rw [← iterate_count hstart]
    have hbound : (count S.load)^[S.elapsed k] S.start < 2 ^ 32 := by
      rw [iterate_count hstart]
      split_ifs <;> omega
    exact mod_eq_of_lt hbound
  have hreload : S.load.toUInt32.toNat = S.load := mod_eq_of_lt (by omega)
  have hfirst : S.start.toUInt32.toNat = S.start := mod_eq_of_lt (by omega)
  unfold delta
  dsimp only
  rw [UInt32.lt_iff_toNat_lt]
  generalize S.elapsed k % (S.load + 1) = r at *
  by_cases hgt : S.start.toUInt32 > S.val k
  · have hless := UInt32.lt_iff_toNat_lt.mp hgt
    rw [if_pos hgt, UInt32.toNat_sub_of_le _ _ (UInt32.le_of_lt hgt)]
    split_ifs at * <;> omega
  · have hmore : S.start.toUInt32.toNat ≤ (S.val k).toNat :=
      UInt32.le_iff_toNat_le.mp (UInt32.not_lt.mp hgt)
    have hsum : (S.load.toUInt32 + S.start.toUInt32).toNat = S.load + S.start := by
      rw [UInt32.toNat_add, hreload, hfirst]
      exact mod_eq_of_lt (by omega)
    have hle : S.val k ≤ S.load.toUInt32 + S.start.toUInt32 := by
      rw [UInt32.le_iff_toNat_le, hval]
      split_ifs <;> omega
    rw [if_neg hgt, UInt32.toNat_sub_of_le _ _ hle]
    split_ifs at * <;> omega

/-- The difference is no more below the counts. -/
def Reached (S : Sampling) (counts : UInt32) (k : Nat) : Prop :=
  counts.toNat ≤ delta S.load S.start (S.elapsed k)

theorem delayLoop_succ (S : Sampling) (counts : UInt32) (fuel k : Nat) : (S.Reached counts k →
      delayLoop S.start.toUInt32 S.load.toUInt32 counts S.val (fuel + 1) k = some k) ∧
    (¬ S.Reached counts k →
      delayLoop S.start.toUInt32 S.load.toUInt32 counts S.val (fuel + 1) k =
        delayLoop S.start.toUInt32 S.load.toUInt32 counts S.val fuel (k + 1)) := by
  have hdelta := S.delta_lt k counts
  rw [delayLoop]
  constructor
  · intro hreached
    rw [if_neg (mt hdelta.mp (Nat.not_lt.mpr hreached))]
  · intro hless
    rw [if_pos (hdelta.mpr (Nat.lt_of_not_le hless))]

/-- The loop ends at the first sample that reaches the counts. -/
theorem delayLoop_some {fuel j k : Nat}
    (h : delayLoop S.start.toUInt32 S.load.toUInt32 counts S.val fuel j = some k) :
    j ≤ k ∧ S.Reached counts k ∧ ∀ i, j ≤ i → i < k → ¬ S.Reached counts i := by
  induction fuel generalizing j with
  | zero => cases h
  | succ fuel ih =>
    by_cases hreached : S.Reached counts j
    · rw [(S.delayLoop_succ counts fuel j).1 hreached] at h
      cases h
      exact ⟨Nat.le_refl _, hreached, fun i hle hlt => absurd hlt (Nat.not_lt.mpr hle)⟩
    · rw [(S.delayLoop_succ counts fuel j).2 hreached] at h
      obtain ⟨hle, hend, hbefore⟩ := ih h
      refine ⟨Nat.le_of_succ_le hle, hend, fun i hji hik => ?_⟩
      rcases hji.eq_or_lt with rfl | hlt
      · exact hreached
      · exact hbefore i hlt hik

/-- With as many rounds as there are samples it ends. -/
theorem delayLoop_add {j n : Nat} (hbefore : ∀ i, j ≤ i → i < j + n → ¬ S.Reached counts i)
    (hreached : S.Reached counts (j + n)) :
    delayLoop S.start.toUInt32 S.load.toUInt32 counts S.val (n + 1) j = some (j + n) := by
  induction n generalizing j with
  | zero => exact (S.delayLoop_succ counts 0 j).1 hreached
  | succ n ih =>
    have hlast : j + 1 + n = j + (n + 1) := Nat.succ_add_eq_add_succ j n
    rw [(S.delayLoop_succ counts (n + 1) j).2 (hbefore j (Nat.le_refl _) (by omega)),
      ih (fun i hji hin => hbefore i (by omega) (by omega)) (by rwa [hlast]), hlast]

theorem delays_iff_first : S.Delays systemCoreClock us ↔
    ∃ k, S.Reached (systemCoreClock / 1000000 * us) k ∧
      (∀ i < k, ¬ S.Reached (systemCoreClock / 1000000 * us) i) ∧
        us.toNat * systemCoreClock.toNat ≤ S.elapsed k * 1000000 := by
  constructor
  · rintro ⟨fuel, k, hend, htime⟩
    obtain ⟨-, hreached, hbefore⟩ := delayLoop_some hend
    exact ⟨k, hreached, fun i => hbefore i (Nat.zero_le i), htime⟩
  · rintro ⟨k, hreached, hbefore, htime⟩
    have hend := delayLoop_add (j := 0) (n := k) (fun i _ hi => hbefore i (by omega))
      (by rwa [Nat.zero_add])
    rw [Nat.zero_add] at hend
    exact ⟨k + 1, k, hend, htime⟩

/-- The sample lies late in its period: at its start, which counts as its end, or behind as many
counts as are waited for, of which the wrap takes one away. -/
def Late (S : Sampling) (counts k : Nat) : Prop :=
  let r := S.elapsed k % (S.load + 1)
  r = 0 ∨ counts < r ∨ counts = r ∧ r ≤ S.start

theorem reached_iff (S : Sampling) (counts : UInt32) (k : Nat) :
    S.Reached counts k ↔ counts.toNat ≤ S.load ∧ S.Late counts.toNat k := by
  have hlt : S.elapsed k % (S.load + 1) < S.load + 1 := mod_lt _ (succ_pos _)
  unfold Reached Late delta
  dsimp only
  generalize S.elapsed k % (S.load + 1) = r at *
  split_ifs <;> omega

theorem elapsed_le (S : Sampling) {j k : Nat} (h : j ≤ k) : S.elapsed j ≤ S.elapsed k := by
  induction h with
  | refl => exact Nat.le_refl _
  | step _ ih => exact ih.trans (S.elapsed_mono _)

/-- The counts of a period suffice, and some sample is late; the first one is not the one that is
compared with, where the microsecond has whole counts and the product fits into a word, and no
sample is late too early where not. -/
def Meets (S : Sampling) (systemCoreClock us : UInt32) : Prop :=
  let counts := (systemCoreClock / 1000000 * us).toNat
  let worth := us.toNat * systemCoreClock.toNat
  counts ≤ S.load ∧ (∃ k, S.Late counts k) ∧ (0 < worth →
    if systemCoreClock.toNat % 1000000 = 0 ∧ worth < 2 ^ 32 * 1000000 then 0 < S.elapsed 0
    else ∀ k, S.elapsed k * 1000000 < worth → ¬ S.Late counts k)

/-- Where the microsecond has whole counts only the sample itself is late too early. -/
theorem not_late_iff (hmega : systemCoreClock.toNat % 1000000 = 0)
    (hworth : us.toNat * systemCoreClock.toNat < 2 ^ 32 * 1000000)
    (hpos : 0 < us.toNat * systemCoreClock.toNat)
    (hload : (systemCoreClock / 1000000 * us).toNat ≤ S.load) :
    (∀ k, S.elapsed k * 1000000 < us.toNat * systemCoreClock.toNat →
      ¬ S.Late (systemCoreClock / 1000000 * us).toNat k) ↔ 0 < S.elapsed 0 := by
  obtain ⟨c, hc⟩ : ∃ c, systemCoreClock.toNat = 1000000 * c := Nat.dvd_of_mod_eq_zero hmega
  have hwhole : us.toNat * systemCoreClock.toNat = c * us.toNat * 1000000 := by
    rw [hc]
    ring
  have hcounts : (systemCoreClock / 1000000 * us).toNat = c * us.toNat := by
    have htick : (systemCoreClock / 1000000).toNat = c := by
      rw [UInt32.toNat_div, hc]
      exact Nat.mul_div_cancel_left c (by decide)
    rw [UInt32.toNat_mul, htick]
    exact mod_eq_of_lt (by omega)
  generalize c * us.toNat = counts at *
  constructor
  · intro hall
    by_contra hzero
    have hfirst : S.elapsed 0 = 0 := Nat.eq_zero_of_not_pos hzero
    exact hall 0 (by omega) (.inl (by rw [hfirst, Nat.zero_mod]))
  · intro hfirst k hearly hlate
    have hle := S.elapsed_le (Nat.zero_le k)
    unfold Late at hlate
    rw [mod_eq_of_lt (by omega)] at hlate
    omega

/-- A sample at every count, of a timer with a period of a millisecond at 200 MHz. -/
def everyCount (first : Nat) (h : first < 200000) : Sampling where
  load := 199999
  load_lt := by decide
  start := 100
  start_le := by decide
  elapsed k := first + k
  elapsed_mono k := Nat.le_succ (first + k)
  sampled m := ⟨m * 200000 - first, by omega, by omega⟩

/-- A microsecond is over at once where the counter has not moved between two samples. -/
theorem hwUsDelay_atOnce :
    hwUsDelay 200000000 1 100 199999 (everyCount 0 (by decide)).val 1 = some 0 ∧
      ¬ (everyCount 0 (by decide)).Delays 200000000 1 := by
  have hreached : (everyCount 0 (by decide)).Reached (200000000 / 1000000 * 1) 0 :=
    (reached_iff _ _ _).mpr ⟨by decide, .inl rfl⟩
  refine ⟨(delayLoop_succ _ _ 0 0).1 hreached, fun hdelays => ?_⟩
  obtain ⟨k, -, hbefore, htime⟩ := delays_iff_first.mp hdelays
  rcases Nat.eq_zero_or_pos k with rfl | hpos
  · exact absurd htime (by decide)
  · exact hbefore 0 hpos hreached

/-- The delay ends, and not before its time, just where it is no longer than a period, some sample
is late in its period, and none of them before the time has passed. -/
theorem delays_iff (S : Sampling) (systemCoreClock us : UInt32) :
    S.Delays systemCoreClock us ↔ S.Meets systemCoreClock us := by
  rw [delays_iff_first]
  unfold Meets
  dsimp only
  simp only [reached_iff]
  constructor
  · rintro ⟨k, ⟨hload, hlate⟩, hbefore, htime⟩
    have hnone : ∀ j, S.elapsed j * 1000000 < us.toNat * systemCoreClock.toNat →
        ¬ S.Late (systemCoreClock / 1000000 * us).toNat j := by
      intro j hearly hj
      rcases Nat.lt_or_ge j k with hlt | hge
      · exact hbefore j hlt ⟨hload, hj⟩
      · have hle := S.elapsed_le hge
        omega
    refine ⟨hload, ⟨k, hlate⟩, fun hpos => ?_⟩
    split_ifs with hwhole
    · exact (not_late_iff hwhole.1 hwhole.2 hpos hload).mp hnone
    · exact hnone
  · rintro ⟨hload, hsome, hnone⟩
    classical
    refine ⟨Nat.find hsome, ⟨hload, Nat.find_spec hsome⟩, ?_, ?_⟩
    · intro j hj hreached
      exact Nat.find_min hsome hj hreached.2
    · by_contra hearly
      have hpos : 0 < us.toNat * systemCoreClock.toNat := by omega
      have hall : ∀ k, S.elapsed k * 1000000 < us.toNat * systemCoreClock.toNat →
          ¬ S.Late (systemCoreClock / 1000000 * us).toNat k := by
        have hcases := hnone hpos
        split_ifs at hcases with hwhole
        · exact (not_late_iff hwhole.1 hwhole.2 hpos hload).mpr hcases
        · exact hcases
      exact hall _ (Nat.lt_of_not_le hearly) (Nat.find_spec hsome)

example : (everyCount 1 (by decide)).Meets 200000000 1 := by
  refine ⟨by decide, ⟨200, .inr (.inl (by decide))⟩, fun _ => ?_⟩
  rw [if_pos (by decide)]
  decide

end Sampling

end RtKernel.Board

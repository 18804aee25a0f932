import RtKernel.Core.Word

/-!
# Comparing ticks on a counter that wraps

A tick is the remainder of an unbounded count. Two counts that are less than
half a turn apart are compared correctly by the wrapped difference of their
ticks.
-/

namespace RtKernel

/-- `RT_TICK_MAX`. -/
def rtTickMax : Nat := 0xffffffff

theorem rtTickMax_half : rtTickMax / 2 = 0x7fffffff := rfl

section

variable {a b : Nat}

/-- The wrapped difference of the ticks at two counts, the second not later. -/
theorem sub32_mod_of_le (h : b ≤ a) (hd : a - b < 2 ^ 32) :
    sub32 (a % 2 ^ 32) (b % 2 ^ 32) = a - b := by
  unfold sub32
  omega

/-- The wrapped difference of the ticks at two counts, the second later. -/
theorem sub32_mod_of_lt (h : a < b) (hd : b - a < 2 ^ 32) :
    sub32 (a % 2 ^ 32) (b % 2 ^ 32) = 2 ^ 32 - (b - a) := by
  unfold sub32
  omega

/-- Within half a turn, a small difference means the first count is not the earlier one. -/
theorem sub32_lt_half_iff (hab : a < b + 0x7fffffff) (hba : b < a + 0x7fffffff) :
    sub32 (a % 2 ^ 32) (b % 2 ^ 32) < rtTickMax / 2 ↔ b ≤ a := by
  rw [rtTickMax_half]
  rcases Nat.lt_or_ge a b with h | h
  · rw [sub32_mod_of_lt h (by omega)]
    omega
  · rw [sub32_mod_of_le h (by omega)]
    omega

/-- Within half a turn, no difference means the same count. -/
theorem sub32_eq_zero_iff (hab : a < b + 0x7fffffff) (hba : b < a + 0x7fffffff) :
    sub32 (a % 2 ^ 32) (b % 2 ^ 32) = 0 ↔ a = b := by
  rcases Nat.lt_or_ge a b with h | h
  · rw [sub32_mod_of_lt h (by omega)]
    omega
  · rw [sub32_mod_of_le h (by omega)]
    omega

theorem add32_mod_one (a : Nat) : add32 (a % 2 ^ 32) 1 = (a + 1) % 2 ^ 32 := by
  unfold add32
  omega

theorem add32_mod (a b : Nat) : add32 (a % 2 ^ 32) b = (a + b) % 2 ^ 32 := by
  unfold add32
  omega

end

/-- How far a tick is ahead of the present one, negative if it has passed. -/
def ticksAhead (timeout tick : Nat) : Int :=
  if sub32 timeout tick < 2 ^ 31 then (sub32 timeout tick : Int)
  else (sub32 timeout tick : Int) - 2 ^ 32

section

variable {timeout tick d : Nat}

theorem ticksAhead_add32 (hd : d < rtTickMax / 2) : ticksAhead (add32 tick d) tick = d := by
  rw [rtTickMax_half] at hd
  unfold ticksAhead sub32 add32
  omega

theorem ticksAhead_add32_one (h : 0 ≤ ticksAhead timeout tick) :
    ticksAhead timeout (add32 tick 1) = ticksAhead timeout tick - 1 := by
  unfold ticksAhead sub32 add32 at *
  omega

/-- What is a tick late at most and less than half a turn ahead compares correctly with now, ... -/
theorem sub32_lt_half_iff_ticksAhead (hlow : -1 ≤ ticksAhead timeout tick)
    (hhigh : ticksAhead timeout tick < (rtTickMax / 2 : Nat)) :
    sub32 tick timeout < rtTickMax / 2 ↔ ticksAhead timeout tick ≤ 0 := by
  rw [rtTickMax_half] at *
  unfold ticksAhead sub32 at *
  omega

theorem stops_iff_ticksAhead (hd : d < rtTickMax / 2) (hlow : -1 ≤ ticksAhead timeout tick)
    (hhigh : ticksAhead timeout tick < (rtTickMax / 2 : Nat)) :
    (sub32 timeout (add32 tick d) ≠ 0 ∧ sub32 timeout (add32 tick d) < rtTickMax / 2) ↔
      d < ticksAhead timeout tick := by
  rw [rtTickMax_half] at *
  unfold ticksAhead sub32 add32 at *
  omega

end

end RtKernel

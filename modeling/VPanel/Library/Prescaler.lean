import Mathlib.Data.Int.Order.Basic

/-!
# Prescalers

A counter that a clock counts down to zero, where it fires and is set to its
divisor again.  What it has fired and what has passed since add up to the
ticks of the clock, also when it is set anew in between.
-/

namespace Prescaler

/-- A tick of a counter, with whether it fires. -/
def tick (divisor count : ℤ) : ℤ × Bool :=
  if 0 < count - 1 then (count - 1, false) else (divisor, true)

/-- The ticks since the counter fired.  A counter that has run out fires at the next tick, like
one that stands at one. -/
def passed (divisor count : ℤ) : ℤ := divisor - max count 1

variable {d c : ℤ}

theorem passed_eq (h : 1 ≤ c) : passed d c = d - c := by
  rw [passed, max_eq_left h]

theorem tick_pos (h : 1 < c) : tick d c = (c - 1, false) := if_pos (by omega)

theorem tick_fires (h : c ≤ 1) : tick d c = (d, true) := if_neg (by omega)

theorem tick_mem (hd : 1 ≤ d) (hc : c ≤ d) : 1 ≤ (tick d c).1 ∧ (tick d c).1 ≤ d := by
  by_cases h : 1 < c
  · rw [tick_pos h]
    constructor <;> dsimp only <;> omega
  · rw [tick_fires (by omega)]
    exact ⟨hd, le_rfl⟩

theorem passed_tick (hd : 1 ≤ d) :
    (if (tick d c).2 then d else 0) + passed d (tick d c).1 = passed d c + 1 := by
  unfold passed
  by_cases h : 1 < c
  · rw [tick_pos h, if_neg Bool.false_ne_true]
    dsimp only
    omega
  · rw [tick_fires (by omega), if_pos rfl]
    omega

/-- How often a counter has fired, from the ticks of its clock. -/
theorem fired_eq {fired total : ℤ} (hd : 1 ≤ d) (hc : c ≤ d)
    (h : d * fired + passed d c = total) : fired = total / d := by
  have hpassed : 0 ≤ passed d c ∧ passed d c < d := by
    unfold passed
    omega
  rw [← h, Int.add_comm, Int.add_mul_ediv_left _ _ (by omega),
    Int.ediv_eq_zero_of_lt hpassed.1 hpassed.2, Int.zero_add]

end Prescaler

import Mathlib.Tactic.Positivity
import ImpStack.Binary32.Shortest

/-!
A decimal reads back as one magnitude only (`readsBack_unique`), and the shortest decimal of a
magnitude reads back as it (`shortest_readsBackAs`).

Magnitudes and decimals are compared as multiples of `10 ^ -149`, which all of them are: what reads
back as a magnitude lies between the midpoints to its neighbours, and on one of them only if its
pattern is even.
-/
namespace ImpStack.Binary32

/-! ### Magnitudes in their order -/

/-- Magnitudes grow with their bit patterns. -/
theorem units_lt_succ (bits : Nat) : units bits < units (bits + 1) := by
  simp only [units, Nat.pow_eq]
  split
  · split
    · omega
    · have last : bits + 1 = 2 ^ 23 := by omega
      rw [last]
      omega
  · next large =>
    rw [if_neg (by omega)]
    by_cases full : bits % 2 ^ 23 + 1 = 2 ^ 23
    · -- The mantissa starts again, and a unit of it weighs twice as much.
      obtain ⟨exponent, exponent_eq⟩ : ∃ exponent, bits / 2 ^ 23 = exponent + 1 :=
        ⟨bits / 2 ^ 23 - 1, by omega⟩
      have low : (bits + 1) % 2 ^ 23 = 0 := by omega
      have high : (bits + 1) / 2 ^ 23 = exponent + 2 := by omega
      have doubled : 2 ^ (exponent + 2 - 1) = 2 * 2 ^ exponent := Nat.pow_succ'
      rw [low, high, exponent_eq, Nat.add_sub_cancel, doubled, ← Nat.mul_assoc]
      exact Nat.mul_lt_mul_of_pos_right (by omega) (by positivity)
    · have low : (bits + 1) % 2 ^ 23 = bits % 2 ^ 23 + 1 := by omega
      have high : (bits + 1) / 2 ^ 23 = bits / 2 ^ 23 := by omega
      rw [low, high]
      exact Nat.mul_lt_mul_of_pos_right (by omega) (by positivity)

theorem units_strictMono : StrictMono units := strictMono_nat_of_lt_succ units_lt_succ

/-! ### What reads back -/

/-- How often `10 ^ -149` goes into `2 ^ -149`, the unit of a magnitude. -/
def unitSteps : Nat := Nat.pow 5 149

theorem unitSteps_pos : 0 < unitSteps := Nat.pow_pos (by decide)

/-- Between the midpoints, with both of them or without. -/
theorem readsBack_iff {bits candidate : Nat} :
    readsBack bits candidate ↔
      (units (bits - 1) + units bits) * unitSteps ≤ 2 * candidate ∧
      2 * candidate ≤ (units bits + units (bits + 1)) * unitSteps ∧
      (bits % 2 = 1 → (units (bits - 1) + units bits) * unitSteps ≠ 2 * candidate ∧
        2 * candidate ≠ (units bits + units (bits + 1)) * unitSteps) := by
  rw [readsBack, ← unitSteps]
  generalize (units (bits - 1) + units bits) * unitSteps = low
  generalize (units bits + units (bits + 1)) * unitSteps = high
  split
  · simp
    omega
  · simp
    omega

/-- Between two magnitudes there is a midpoint above the one and below the other. A decimal that
reads back as both would lie on it, with no magnitude between them and both patterns even. -/
theorem readsBack_le {bits other candidate : Nat} (reads : readsBack bits candidate)
    (readsOther : readsBack other candidate) : other ≤ bits := by
  by_contra above
  obtain ⟨_, below, open_⟩ := readsBack_iff.mp reads
  obtain ⟨after, _, openOther⟩ := readsBack_iff.mp readsOther
  have between := Nat.le_of_mul_le_mul_right (after.trans below) unitSteps_pos
  have lower := units_strictMono.monotone (show bits ≤ other - 1 by omega)
  have upper := units_strictMono.monotone (show bits + 1 ≤ other by omega)
  have adjacent : bits = other - 1 := units_strictMono.injective (by omega)
  have next : units (bits + 1) = units other := by omega
  rw [← adjacent, ← next] at after openOther
  have midpoint := Nat.le_antisymm after below
  obtain odd | odd : bits % 2 = 1 ∨ other % 2 = 1 := by omega
  · exact (open_ odd).2 midpoint.symm
  · exact (openOther odd).1 midpoint

/-- No decimal reads back as two magnitudes. -/
theorem readsBack_unique {bits other candidate : Nat} (reads : readsBack bits candidate)
    (readsOther : readsBack other candidate) : bits = other :=
  Nat.le_antisymm (readsBack_le readsOther reads) (readsBack_le reads readsOther)

/-- The digits of the magnitude itself, all of them, read back. -/
theorem readsBack_units (bits : Nat) : readsBack bits (units bits * unitSteps) := by
  have below := units_strictMono.monotone (show bits - 1 ≤ bits by omega)
  have above := units_lt_succ bits
  have exact_eq : 2 * (units bits * unitSteps) = 2 * units bits * unitSteps :=
    (Nat.mul_assoc ..).symm
  rw [readsBack_iff, exact_eq]
  refine ⟨Nat.mul_le_mul_right _ (by omega), Nat.mul_le_mul_right _ (by omega), fun odd => ?_⟩
  have strictlyBelow := units_strictMono (show bits - 1 < bits by omega)
  exact ⟨(Nat.mul_lt_mul_of_pos_right (by omega) unitSteps_pos).ne,
    (Nat.mul_lt_mul_of_pos_right (by omega) unitSteps_pos).ne⟩

/-! ### The shortest decimal -/

/-- The decimal as a multiple of `10 ^ -149`. -/
def Decimal.steps (decimal : Decimal) : Nat :=
  decimal.digits * Nat.pow 10 (decimal.exponent + 149).toNat

/-- The decimal is a whole multiple of `10 ^ -149` that is read back as the magnitude. -/
structure Decimal.ReadsBackAs (decimal : Decimal) (bits : Nat) : Prop where
  onGrid : -149 ≤ decimal.exponent
  reads : readsBack bits decimal.steps

/-- What is found on a grid reads back. -/
theorem readsBack_of_onGrid? {bits place digits : Nat} (found : onGrid? bits place = some digits) :
    readsBack bits (digits * Nat.pow 10 place) := by
  simp only [onGrid?] at found
  split at found
  · next lower =>
    cases found
    exact (Bool.and_eq_true_iff.mp lower).1
  · split at found
    · next upper =>
      cases found
      exact upper
    · cases found

/-- The search goes from coarse grids to fine ones; on the finest one stands the magnitude
itself. -/
theorem shortestFrom_readsBackAs (bits place : Nat) :
    (shortestFrom bits place).ReadsBackAs bits := by
  induction place with
  | zero =>
    refine ⟨Int.le_refl _, ?_⟩
    have steps_eq : (shortestFrom bits 0).steps = units bits * unitSteps := Nat.mul_one _
    rw [steps_eq]
    exact readsBack_units bits
  | succ place ih =>
    unfold shortestFrom
    split
    · next digits found =>
      refine ⟨show (-149 : Int) ≤ place + 1 - 149 by omega, ?_⟩
      have place_eq : ((place + 1 : Int) - 149 + 149).toNat = place + 1 := by omega
      rw [Decimal.steps, place_eq]
      exact readsBack_of_onGrid? found
    · exact ih

/-- The shortest decimal reads back as the magnitude that it was found for. -/
theorem shortest_readsBackAs (bits : Nat) : (shortest bits).ReadsBackAs bits := by
  unfold shortest
  split
  · next zero =>
    subst zero
    refine ⟨show (-149 : Int) ≤ 0 by decide, ?_⟩
    have steps_eq : Decimal.steps ⟨0, 0⟩ = units 0 * unitSteps :=
      (Nat.zero_mul _).trans (Nat.zero_mul _).symm
    rw [steps_eq]
    exact readsBack_units 0
  · exact shortestFrom_readsBackAs bits _

end ImpStack.Binary32

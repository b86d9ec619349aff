import Mathlib.Data.Int.ModEq
import Mathlib.Algebra.Order.Group.Unbundled.Int
import ImpStack.Proofs.Execution

/-!
Integers are computed with exactly, up to multiples of `2 ^ 32` (SPEC_FULL, section 4.6). Every
residue has one number of 32 bits (`existsUnique_isResidue`); sums, differences, products and
quotients are the numbers of their exact results, and a remainder is the exact one. Nothing else
that the machine does with operands can fail (`Machine.integers_are_exact`).

`IsResidue` and `DividesTowardsZero` say what the results should be, by the integers alone.
-/
namespace ImpStack

/-- The number of 32 bits that is congruent to an integer (`existsUnique_isResidue`). -/
def IsResidue (exact : Int) (n : Int32) : Prop := n.toInt ≡ exact [ZMOD 2 ^ 32]

/-- Division towards zero: the remainder is smaller than the divisor and has no other sign than the
dividend. -/
structure DividesTowardsZero (dividend divisor quotient remainder : Int) : Prop where
  sum_eq : quotient * divisor + remainder = dividend
  smaller : |remainder| < |divisor|
  sign : remainder = 0 ∨ remainder.sign = dividend.sign

/-- The number of a residue is the one that balanced remainders choose. -/
theorem isResidue_iff_bmod {exact : Int} {n : Int32} :
    IsResidue exact n ↔ n.toInt = exact.bmod (2 ^ 32) := by
  constructor
  · intro congruent
    have same : n.toInt % ((2 ^ 32 : Nat) : Int) = exact % ((2 ^ 32 : Nat) : Int) := congruent
    rw [← Int.emod_bmod (x := exact), ← same, Int.emod_bmod]
    exact (Int32.toInt_bmod n).symm
  · intro balanced
    show n.toInt % ((2 ^ 32 : Nat) : Int) = exact % ((2 ^ 32 : Nat) : Int)
    rw [balanced, Int.bmod_emod]

/-- The numbers of 32 bits are representatives, one for each residue. -/
theorem existsUnique_isResidue (exact : Int) : ∃! n : Int32, IsResidue exact n := by
  refine ⟨Int32.ofInt exact, isResidue_iff_bmod.mpr Int32.toInt_ofInt, fun other residue => ?_⟩
  apply Int32.toInt_inj.mp
  rw [isResidue_iff_bmod.mp residue]
  exact Int32.toInt_ofInt.symm

/-- Truncated quotients and remainders are those of a division towards zero. -/
theorem dividesTowardsZero_tdiv {dividend divisor : Int} (nonzero : divisor ≠ 0) :
    DividesTowardsZero dividend divisor (dividend.tdiv divisor) (dividend.tmod divisor) where
  sum_eq := Int.tdiv_mul_add_tmod dividend divisor
  smaller := by
    rw [Int.abs_eq_natAbs, Int.abs_eq_natAbs, Int.natAbs_tmod]
    exact Int.ofNat_lt.mpr (Nat.mod_lt _ (Int.natAbs_pos.mpr nonzero))
  sign := by
    have sign_eq := Int.sign_tmod dividend divisor
    split at sign_eq
    · exact .inl (Int.sign_eq_zero_iff_zero.mp sign_eq)
    · exact .inr sign_eq

/-- Quotient and remainder make up the dividend, also where the quotient wraps around. -/
theorem quotient_mul_add_remainder (l r : Int32) : l / r * r + l % r = l := by
  apply Int32.toInt_inj.mp
  rw [Int32.toInt_add, Int32.toInt_mul, Int32.toInt_div, Int32.toInt_mod, Int.bmod_mul_bmod,
    Int.bmod_add_bmod, Int.tdiv_mul_add_tmod]
  exact Int32.toInt_bmod l

namespace Value

theorem combine?_div {l r : Int32} (nonzero : r ≠ 0) :
    combine? .div (.int l) (.int r) = some (.int (l / r)) := by
  simp [combine?, Arithmetic.onInts?, nonzero]

/-- A remainder is computed on the numbers themselves. It cannot wrap around. -/
theorem combine?_rem {l r : Int32} (nonzero : r ≠ 0) :
    combine? .rem (.int l) (.int r) = some (.int (l % r)) := by
  simp [combine?, Arithmetic.onInts?, nonzero]

/-- Only integers can be divided by zero. -/
theorem combine?_eq_none_iff {op : Arithmetic} {left right : Value} :
    combine? op left right = none ↔
      (op = .div ∨ op = .rem) ∧ (∃ l, left = .int l) ∧ right = .int 0 := by
  cases left with
  | int l =>
    cases right with
    | int r => cases op <;> simp [combine?, Arithmetic.onInts?]
    | float y => simp [combine?]
  | float x => cases right <;> simp [combine?]

end Value

namespace Machine

/-- The machine is about to execute an instruction that takes two operands, and `left` and `right`
are there for it, on top of `rest`. -/
structure Faces (machine : Machine) (instruction : Instruction Nat) (left right : Value)
    (rest : Operands) : Prop where
  fetch : machine.instruction? = some instruction
  taken : machine.operands.popPair? machine.frame.base = some ((left, right), rest)

variable {machine : Machine} {left right value : Value} {rest : Operands}

theorem Faces.step_eq {instruction : Instruction Nat}
    (faces : machine.Faces instruction left right rest) (assembly : Assembly) :
    machine.step assembly = machine.perform assembly
      { machine.frame with next := machine.frame.next + 1 }
      (.stackUnderflow machine.frame.routine.name machine.frame.next) instruction := by
  have fetch : machine.frame.routine.code[machine.frame.next]? = some instruction := faces.fetch
  simp only [step, fetch]

/-- The result takes the place of the two operands. -/
theorem Faces.step_some {op : Arithmetic} (faces : machine.Faces (.arithmetic op) left right rest)
    (assembly : Assembly) (combined : Value.combine? op left right = some value) :
    machine.step assembly =
      machine.within { machine.frame with next := machine.frame.next + 1 } (rest.push value) := by
  rw [faces.step_eq]
  simp only [perform, faces.taken, combined]

/-- An undefined operation names the routine in which it happens. -/
theorem Faces.step_none {op : Arithmetic} (faces : machine.Faces (.arithmetic op) left right rest)
    (assembly : Assembly) (undefined : Value.combine? op left right = none) :
    machine.step assembly = fault (.divisionByZero machine.frame.routine.name) := by
  rw [faces.step_eq]
  simp only [perform, faces.taken, undefined]

/-- A comparison of any two values holds or does not hold; it cannot fail. -/
theorem Faces.step_jumpIf {comparison : Comparison} {target : Nat}
    (faces : machine.Faces (.jumpIf comparison target) left right rest) (assembly : Assembly)
    (inside : target < machine.frame.routine.code.size) :
    machine.step assembly = machine.within
      { machine.frame with
        next := if Value.holds comparison left right then target else machine.frame.next + 1 }
      rest := by
  rw [faces.step_eq]
  simp only [perform, faces.taken]
  split
  · simp only [jump, if_pos inside]
  · rfl

/-- Negation takes one operand, of either kind, and never fails on it. -/
theorem step_neg (assembly : Assembly) (fetch : machine.instruction? = some .neg)
    (taken : machine.operands.pop? machine.frame.base = some (value, rest)) :
    machine.step assembly = machine.within
      { machine.frame with next := machine.frame.next + 1 } (rest.push value.negate) := by
  have fetched : machine.frame.routine.code[machine.frame.next]? = some .neg := fetch
  simp only [step, fetched, perform, taken]

open Value in
/-- Sums, differences, products and negatives of integers are the numbers of their exact results. A
quotient is that of the exact quotient towards zero, a remainder is exact, and both fail for the
divisor zero alone; computed one after the other they make up the dividend. Nothing but a division
of an integer by zero fails, and no comparison and no negation does. -/
theorem integers_are_exact :
    (∀ exact, ∃! n, IsResidue exact n) ∧
    (∀ l r : Int32,
      (∃ n, combine? .add (.int l) (.int r) = some (.int n) ∧
        IsResidue (l.toInt + r.toInt) n) ∧
      (∃ n, combine? .sub (.int l) (.int r) = some (.int n) ∧
        IsResidue (l.toInt - r.toInt) n) ∧
      (∃ n, combine? .mul (.int l) (.int r) = some (.int n) ∧
        IsResidue (l.toInt * r.toInt) n) ∧
      (∃ n, negate (.int l) = .int n ∧ IsResidue (-l.toInt) n) ∧
      (combine? .div (.int l) (.int r) = none ↔ r = 0) ∧
      (combine? .rem (.int l) (.int r) = none ↔ r = 0) ∧
      (r ≠ 0 →
        (∃ quotient remainder,
          combine? .div (.int l) (.int r) = some (.int quotient) ∧
          combine? .rem (.int l) (.int r) = some (.int remainder) ∧
          IsResidue (l.toInt.tdiv r.toInt) quotient ∧
          DividesTowardsZero l.toInt r.toInt (l.toInt.tdiv r.toInt) remainder.toInt) ∧
        (do
          let quotient ← combine? .div (.int l) (.int r)
          let product ← combine? .mul quotient (.int r)
          let remainder ← combine? .rem (.int l) (.int r)
          combine? .add product remainder) = some (.int l))) ∧
    (∀ op left right, combine? op left right = none ↔
      (op = .div ∨ op = .rem) ∧ (∃ l, left = .int l) ∧ right = .int 0) ∧
    (∀ (assembly : Assembly) (machine : Machine) (left right : Value) (rest : Operands),
      (∀ op, machine.Faces (.arithmetic op) left right rest →
        (∀ value, combine? op left right = some value → machine.step assembly = machine.within
          { machine.frame with next := machine.frame.next + 1 } (rest.push value)) ∧
        (combine? op left right = none →
          machine.step assembly = fault (.divisionByZero machine.frame.routine.name))) ∧
      (∀ comparison target, machine.Faces (.jumpIf comparison target) left right rest →
        target < machine.frame.routine.code.size →
        machine.step assembly = machine.within
          { machine.frame with
            next := if holds comparison left right then target else machine.frame.next + 1 }
          rest)) ∧
    (∀ (assembly : Assembly) (machine : Machine) (value : Value) (rest : Operands),
      machine.instruction? = some .neg →
      machine.operands.pop? machine.frame.base = some (value, rest) →
      machine.step assembly = machine.within
        { machine.frame with next := machine.frame.next + 1 } (rest.push value.negate)) := by
  refine ⟨existsUnique_isResidue, ?_, fun _ _ _ => combine?_eq_none_iff, ?_,
    fun assembly _ _ _ fetch taken => step_neg assembly fetch taken⟩
  · intro l r
    refine ⟨?add, ?sub, ?mul, ?neg, ?div, ?rem, fun nonzero => ⟨?divides, ?back⟩⟩
    case add => exact ⟨l + r, rfl, isResidue_iff_bmod.mpr (Int32.toInt_add l r)⟩
    case sub => exact ⟨l - r, rfl, isResidue_iff_bmod.mpr (Int32.toInt_sub l r)⟩
    case mul => exact ⟨l * r, rfl, isResidue_iff_bmod.mpr (Int32.toInt_mul l r)⟩
    case neg => exact ⟨-l, rfl, isResidue_iff_bmod.mpr (Int32.toInt_neg l)⟩
    case div => simp [combine?_eq_none_iff]
    case rem => simp [combine?_eq_none_iff]
    case divides =>
      have divisor : r.toInt ≠ 0 := fun zero => nonzero (Int32.toInt_inj.mp zero)
      refine ⟨l / r, l % r, combine?_div nonzero, combine?_rem nonzero, ?_, ?_⟩
      · exact isResidue_iff_bmod.mpr (Int32.toInt_div l r)
      · rw [Int32.toInt_mod]
        exact dividesTowardsZero_tdiv divisor
    case back =>
      rw [combine?_div nonzero, combine?_rem nonzero]
      exact congrArg (some ∘ int) (quotient_mul_add_remainder l r)
  · intro assembly machine left right rest
    refine ⟨fun op faces => ⟨?_, ?_⟩, fun comparison target faces inside => ?_⟩
    · exact fun value combined => faces.step_some assembly combined
    · exact fun undefined => faces.step_none assembly undefined
    · exact faces.step_jumpIf assembly inside

/-- A machine about to execute an instruction with two operands, above another one. -/
def facing (instruction : Instruction Nat) (left right : Value) : Machine where
  frame := .enter ⟨"main", 0, 0, true, #[instruction, .returnVoid]⟩ [] 0 1
  callers := []
  operands := .ofList [right, left, .int 7]
  sink := .unlimited

/-- Such a machine faces its instruction. -/
theorem facing_faces (instruction : Instruction Nat) (left right : Value) :
    (facing instruction left right).Faces instruction left right (.ofList [.int 7]) where
  fetch := rfl
  taken := Operands.popPair?_ofList_cons (Nat.zero_le _) left right

/-- The quotient and the negative that wrap around, a remainder by zero, and a comparison with a
NaN. -/
theorem integers_are_exact_extremes :
    let lowest : Value := .int (-2147483648)
    let dividing := facing (.arithmetic .div) lowest (.int (-1))
    let remaining := facing (.arithmetic .rem) lowest (.int 0)
    let comparing := facing (.jumpIf .lt 0) (.float Binary32.nan) lowest
    let negating := facing .neg (.int 3) lowest
    ((-1 : Int32) ≠ 0 ∧
      (do
        let quotient ← Value.combine? .div lowest (.int (-1))
        let product ← Value.combine? .mul quotient (.int (-1))
        let remainder ← Value.combine? .rem lowest (.int (-1))
        Value.combine? .add product remainder) = some lowest) ∧
    (Value.combine? .div lowest (.int (-1)) = some lowest ∧
      dividing.step ⟨"Main", []⟩ = dividing.within { dividing.frame with next := 1 }
        ((Operands.ofList [.int 7]).push lowest)) ∧
    (Value.combine? .rem lowest (.int 0) = none ∧
      remaining.step ⟨"Main", []⟩ = fault (.divisionByZero "main")) ∧
    (0 < comparing.frame.routine.code.size ∧
      comparing.step ⟨"Main", []⟩ =
        comparing.within { comparing.frame with next := 1 } (.ofList [.int 7])) ∧
    (negating.instruction? = some .neg ∧
      negating.operands.pop? negating.frame.base = some (lowest, .ofList [.int 3, .int 7]) ∧
      negating.step ⟨"Main", []⟩ = negating.within { negating.frame with next := 1 }
        ((Operands.ofList [.int 3, .int 7]).push lowest)) := by
  intro lowest dividing remaining comparing negating
  obtain ⟨-, exact, -, steps, negates⟩ := integers_are_exact
  have nonzero : (-1 : Int32) ≠ 0 := by decide
  have quotient : Value.combine? .div lowest (.int (-1)) = some lowest := by decide
  have undefined : Value.combine? .rem lowest (.int 0) = none := by decide
  have inside : 0 < comparing.frame.routine.code.size := by decide
  have taken : negating.operands.pop? negating.frame.base =
      some (lowest, .ofList [.int 3, .int 7]) := Operands.pop?_ofList_cons (Nat.zero_le _) lowest
  refine ⟨⟨nonzero, ?_⟩, ⟨quotient, ?_⟩, ⟨undefined, ?_⟩, ⟨inside, ?_⟩, rfl, taken, ?_⟩
  · exact ((exact (-2147483648) (-1)).2.2.2.2.2.2 nonzero).2
  · exact ((steps _ dividing _ _ _).1 .div (facing_faces _ _ _)).1 lowest quotient
  · exact ((steps _ remaining _ _ _).1 .rem (facing_faces _ _ _)).2 undefined
  · exact (steps _ comparing _ _ _).2 .lt 0 (facing_faces _ _ _) inside
  · exact negates _ negating lowest _ rfl taken

end Machine

end ImpStack

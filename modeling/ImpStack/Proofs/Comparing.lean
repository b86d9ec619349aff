import ImpStack.Machine.Value

/-!
Comparisons read off the order of their operands. Two operands have no order when one of them is a
NaN, and then a comparison and its negation may both fail.

The order is defined here from the operands themselves, apart from the tables by which the machine
compares them (`ofInts`, `ofFloats`) and apart from `Comparison.negate`. The machine's answer is the
one that the order gives (`Value.holds_eq`), and its negation is the opposite just when the
comparison does not ask for an order that is missing (`Value.holds_negate_iff`). What a comparison
counts as where it stands as a condition is said by the order as well (`Value.passes`), and code
that branches on the negation agrees with it (`Value.holds_negate`).
-/
namespace ImpStack

open Float.Model

namespace Comparison

/-- Whether the comparison holds of operands in this order; `none` is no order at all. -/
def ofOrder : Comparison → Option Ordering → Bool
  | eq, order => order == some .eq
  | ne, order => order != some .eq
  | lt, order => order == some .lt
  | le, order => order.any (·.isLE)
  | gt, order => order == some .gt
  | ge, order => order.any (·.isGE)

/-- Whether the comparison asks for the order of its operands. -/
def isOrdering : Comparison → Bool
  | eq => false
  | ne => false
  | lt => true
  | le => true
  | gt => true
  | ge => true

/-- Of operands with an order, exactly one of the two holds. -/
theorem ofOrder_negate_some (comparison : Comparison) (order : Ordering) :
    comparison.negate.ofOrder (some order) = !comparison.ofOrder (some order) := by
  cases comparison <;> cases order <;> rfl

/-- Without an order, exactly one of the two holds only of a comparison that asks for none. -/
theorem ofOrder_negate_none (comparison : Comparison) :
    comparison.negate.ofOrder none = !comparison.ofOrder none ↔
      comparison.isOrdering = false := by
  cases comparison <;> decide

/-- Without an order, the negation of a comparison that asks for one fails as well. -/
theorem ofOrder_negate (comparison : Comparison) (order : Option Ordering) :
    comparison.negate.ofOrder order =
      !(comparison.ofOrder order || (comparison.isOrdering && order.isNone)) := by
  cases order with
  | none => cases comparison <;> rfl
  | some order => simp [ofOrder_negate_some]

end Comparison

/-! ### The order of floats -/

/-- A comparison by two numbers, the first one deciding, turns round when both change places. -/
theorem compare_then_swap (left right : Int) (first second : Nat) :
    (compare right left).then (compare second first) =
      ((compare left right).then (compare first second)).swap := by
  rw [Ordering.swap_then, Int.compare_swap, Nat.compare_swap]

/-- Floats compare the other way round when they change places. -/
theorem unpacked_compare_swap (left right : UnpackedFloat) :
    right.compare left = (left.compare right).map Ordering.swap := by
  cases left with
  | infinity s =>
    cases right with
    | infinity t => cases s <;> cases t <;> rfl
    | notANumber => cases s <;> rfl
    | zero t => cases s <;> rfl
    | finite t n f pos => cases s <;> rfl
  | notANumber => cases right <;> rfl
  | zero s =>
    cases right with
    | infinity t => cases t <;> rfl
    | notANumber => rfl
    | zero t => rfl
    | finite t n f pos => cases t <;> rfl
  | finite s m e pos =>
    cases right with
    | infinity t => cases s <;> cases t <;> rfl
    | notANumber => rfl
    | zero t => cases s <;> rfl
    | finite t n f otherPos =>
      -- numbers of one sign compare by exponent and mantissa, negative ones in reverse
      have swapped := compare_then_swap e f m n
      cases s with
      | positive =>
        cases t with
        | positive => exact congrArg some swapped
        | negative => rfl
      | negative =>
        cases t with
        | positive => rfl
        | negative => exact congrArg (fun order => some order.swap) swapped

/-- Floats have no order exactly if one of them is a NaN. -/
theorem unpacked_compare_isNone (left right : UnpackedFloat) :
    (left.compare right).isNone = (left.isNaN || right.isNaN) := by
  cases left with
  | infinity s =>
    cases right with
    | infinity t => rfl
    | notANumber => rfl
    | zero t => cases s <;> rfl
    | finite t n f pos => cases s <;> rfl
  | notANumber => cases right <;> rfl
  | zero s =>
    cases right with
    | infinity t => cases t <;> rfl
    | notANumber => rfl
    | zero t => rfl
    | finite t n f pos => cases t <;> rfl
  | finite s m e pos =>
    cases right with
    | infinity t => cases s <;> cases t <;> rfl
    | notANumber => rfl
    | zero t => cases s <;> rfl
    | finite t n f otherPos => cases s <;> cases t <;> rfl

/-- The order of two floats, which a NaN has with none. -/
def floatOrder? (left right : Float32) : Option Ordering :=
  left.toModel.unpack.compare right.toModel.unpack

/-- The machine compares floats by their order. It has less and less-or-equal of its own; the other
two are these with their operands exchanged. -/
theorem Comparison.ofFloats_eq (comparison : Comparison) (left right : Float32) :
    comparison.ofFloats left right = comparison.ofOrder (floatOrder? left right) := by
  have swapped : floatOrder? right left = (floatOrder? left right).map Ordering.swap :=
    unpacked_compare_swap left.toModel.unpack right.toModel.unpack
  have less : ∀ l r : Float32, decide (l < r) = (floatOrder? l r == some .lt) :=
    fun l r => Bool.decide_eq_true.trans (Bool.decide_coe (l.toModel.lt r.toModel))
  have lessOrEqual : ∀ l r : Float32, decide (l ≤ r) = (floatOrder? l r).any (·.isLE) :=
    fun l r => Bool.decide_eq_true.trans (Bool.decide_coe (l.toModel.le r.toModel))
  cases comparison with
  | eq => rfl
  | ne => rfl
  | lt => exact less left right
  | le => exact lessOrEqual left right
  | gt =>
    refine (less right left).trans ?_
    rw [swapped]
    cases floatOrder? left right with
    | none => rfl
    | some order => cases order <;> rfl
  | ge =>
    refine (lessOrEqual right left).trans ?_
    rw [swapped]
    cases floatOrder? left right with
    | none => rfl
    | some order => cases order <;> rfl

/-! ### The order of values -/

/-- Integers always have an order, which is that of their values. -/
theorem Comparison.ofInts_eq (comparison : Comparison) (left right : Int32) :
    comparison.ofInts left right = comparison.ofOrder (some (compare left.toInt right.toInt)) := by
  rw [Bool.eq_iff_iff]
  cases comparison <;>
    simp [ofInts, ofOrder, Int32.lt_iff_toInt_lt, Int32.le_iff_toInt_le, ← Int32.toInt_inj,
      Int.compare_eq_lt, Int.compare_eq_gt, Int.isLE_compare, Int.isGE_compare]

namespace Value

/-- The order of two values, as the promotion of operands has it. -/
def order? (left right : Value) : Option Ordering :=
  match left, right with
  | int l, int r => some (compare l.toInt r.toInt)
  | l, r => floatOrder? l.toFloat r.toFloat

/-- Whether two values have no order: they are compared as floats, and one of them is a NaN. -/
def unordered (left right : Value) : Bool :=
  match left, right with
  | int _, int _ => false
  | l, r => l.toFloat.isNaN || r.toFloat.isNaN

/-- A comparison of any two values is one of their order. -/
theorem holds_eq (comparison : Comparison) (left right : Value) :
    holds comparison left right = comparison.ofOrder (order? left right) := by
  cases left with
  | int l =>
    cases right with
    | int r => exact comparison.ofInts_eq l r
    | float r => exact comparison.ofFloats_eq _ _
  | float l => exact comparison.ofFloats_eq _ _

theorem order?_isNone (left right : Value) : (order? left right).isNone = unordered left right := by
  cases left with
  | int l =>
    cases right with
    | int r => rfl
    | float r => exact unpacked_compare_isNone _ _
  | float l => exact unpacked_compare_isNone _ _

/-- Of a comparison and its negation exactly one holds, unless the comparison asks for an order that
the operands do not have. -/
theorem holds_negate_iff (comparison : Comparison) (left right : Value) :
    holds comparison.negate left right = !holds comparison left right ↔
      (comparison.isOrdering && unordered left right) = false := by
  rw [holds_eq, holds_eq, ← order?_isNone]
  cases order? left right with
  | none => simpa using comparison.ofOrder_negate_none
  | some order => simpa using comparison.ofOrder_negate_some order

/-- Whether a comparison that stands as a condition counts as true: it holds of the order of its
operands, or it asks for an order that they do not have. -/
def passes (comparison : Comparison) (left right : Value) : Bool :=
  comparison.ofOrder (order? left right) || (comparison.isOrdering && unordered left right)

/-- Apart from a missing order, a condition counts as true exactly if it holds. -/
theorem passes_of_ordered {comparison : Comparison} {left right : Value}
    (ordered : (comparison.isOrdering && unordered left right) = false) :
    passes comparison left right = holds comparison left right := by
  rw [passes, ordered, Bool.or_false, holds_eq]

/-- The negated comparison holds just when the comparison does not count as true. -/
theorem holds_negate (comparison : Comparison) (left right : Value) :
    holds comparison.negate left right = !passes comparison left right := by
  rw [holds_eq, comparison.ofOrder_negate, order?_isNone, passes]

end Value

end ImpStack

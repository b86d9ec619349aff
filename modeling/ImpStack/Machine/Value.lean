import ImpStack.Binary32.Text
import ImpStack.Syntax.Operator

/-!
The numbers a program computes with. Integers have 32 bits and wrap around; an operation on an
integer and a float is one on floats (SPEC_FULL, section 4.6). Embeds the values of the virtual
machine: `isZero`, `toFloat`, `negate`, `holds` and `combine?` are its `is_zero`, `as_f32`,
`negate`, `compare` and `arith`.
-/
namespace ImpStack

inductive Value where
  | int (value : Int32)
  | float (value : Float32)
  deriving DecidableEq, Repr

namespace Arithmetic

/-- Division truncates towards zero; `none` is a division or a remainder by zero. -/
def onInts? : Arithmetic → Int32 → Int32 → Option Int32
  | add, l, r => some (l + r)
  | sub, l, r => some (l - r)
  | mul, l, r => some (l * r)
  | div, l, r => if r = 0 then none else some (l / r)
  | rem, l, r => if r = 0 then none else some (l % r)

def onFloats : Arithmetic → Float32 → Float32 → Float32
  | add, l, r => l + r
  | sub, l, r => l - r
  | mul, l, r => l * r
  | div, l, r => l / r
  | rem, l, r => Binary32.remainder l r

end Arithmetic

namespace Comparison

def ofInts : Comparison → Int32 → Int32 → Bool
  | eq, l, r => l = r
  | ne, l, r => l ≠ r
  | lt, l, r => l < r
  | le, l, r => l ≤ r
  | gt, l, r => r < l
  | ge, l, r => r ≤ l

/-- A NaN differs from every number, itself included, and is neither less nor greater. -/
def ofFloats : Comparison → Float32 → Float32 → Bool
  | eq, l, r => l == r
  | ne, l, r => l != r
  | lt, l, r => l < r
  | le, l, r => l ≤ r
  | gt, l, r => r < l
  | ge, l, r => r ≤ l

end Comparison

namespace Value

/-- The nearest float. -/
def toFloat : Value → Float32
  | int value => Binary32.ofInt32 value
  | float value => value

/-- Zero of either sign. -/
def isZero : Value → Bool
  | int value => value = 0
  | float value => value == Float32.ofBits 0

/-- The opposite number, of the same kind; the least integer is its own. -/
def negate : Value → Value
  | int value => int (-value)
  | float value => float (-value)

/-- Whether the comparison holds of `left` and `right`. -/
def holds (comparison : Comparison) (left right : Value) : Bool :=
  match left, right with
  | int l, int r => comparison.ofInts l r
  | l, r => comparison.ofFloats l.toFloat r.toFloat

/-- `none` is an integer division or remainder by zero. -/
def combine? (op : Arithmetic) (left right : Value) : Option Value :=
  match left, right with
  | int l, int r => (op.onInts? l r).map int
  | l, r => some (float (op.onFloats l.toFloat r.toFloat))

/-- The text of a printed value. -/
def text : Value → String
  | int value => toString value.toInt
  | float value => Binary32.text .plain value

end Value

end ImpStack

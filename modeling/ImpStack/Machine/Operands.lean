import ImpStack.Machine.Value

/-!
The operand stack that all live calls share. A call sees it from its own base upwards: it takes
nothing from below the base, and what it leaves above it is cut off when it returns (`pop`,
`pop_pair` and the truncation in `return_from`; SPEC_FULL, section 4.6).

The stack is a list, its top first. Its height is kept beside it so that a comparison with a base
does not walk the list.
-/
namespace ImpStack

/-- The operands of all live calls, the topmost first, with their number. -/
structure Operands where
  values : List Value
  height : Nat
  height_eq : height = values.length
  deriving DecidableEq, Repr

namespace Operands

/-- The stack of the values, the first of them on top. -/
def ofList (values : List Value) : Operands := ⟨values, values.length, rfl⟩

def empty : Operands := ofList []

def push (operands : Operands) (value : Value) : Operands where
  values := value :: operands.values
  height := operands.height + 1
  height_eq := by simp [operands.height_eq]

/-- The stack without its `count` topmost operands. -/
def drop (operands : Operands) (count : Nat) : Operands where
  values := operands.values.drop count
  height := operands.height - count
  height_eq := by simp [operands.height_eq]

/-- The topmost operand, if it lies above `base`, and the stack without it. -/
def pop? (operands : Operands) (base : Nat) : Option (Value × Operands) :=
  if base < operands.height then operands.values.head?.map fun value => (value, operands.drop 1)
  else none

/-- The two topmost operands, if they lie above `base`, the lower one first. -/
def popPair? (operands : Operands) (base : Nat) : Option ((Value × Value) × Operands) :=
  match operands.pop? base with
  | none => none
  | some (right, operands) =>
    (operands.pop? base).map fun (left, operands) => ((left, right), operands)

/-- The `count` topmost operands, if they lie above `base`, the lowest first. -/
def popMany? (operands : Operands) (base : Nat) : (count : Nat) → Option (List Value × Operands)
  | 0 => some ([], operands)
  | count + 1 =>
    match operands.pop? base with
    | none => none
    | some (last, operands) =>
      (operands.popMany? base count).map fun (values, operands) => (values ++ [last], operands)

/-- Cuts off what lies above `height`. -/
def truncate (operands : Operands) (height : Nat) : Operands :=
  operands.drop (operands.height - height)

/-! The operations on the values of a stack. -/

@[simp]
theorem values_ofList (values : List Value) : (ofList values).values = values := rfl

@[simp]
theorem height_ofList (values : List Value) : (ofList values).height = values.length := rfl

@[simp]
theorem push_ofList (values : List Value) (value : Value) :
    (ofList values).push value = ofList (value :: values) := rfl

@[simp]
theorem drop_ofList (values : List Value) (count : Nat) :
    (ofList values).drop count = ofList (values.drop count) := by
  simp [drop, ofList]

/-- Above the base there is something to take. -/
theorem pop?_ofList_cons {base : Nat} {values : List Value} (above : base ≤ values.length)
    (value : Value) : (ofList (value :: values)).pop? base = some (value, ofList values) := by
  simp [pop?, Nat.lt_succ_of_le above]

theorem popPair?_ofList_cons {base : Nat} {values : List Value} (above : base ≤ values.length)
    (left right : Value) :
    (ofList (right :: left :: values)).popPair? base = some ((left, right), ofList values) := by
  have aboveLeft : base ≤ (left :: values).length := Nat.le_succ_of_le above
  simp [popPair?, pop?_ofList_cons aboveLeft, pop?_ofList_cons above]

theorem popMany?_ofList_append {base : Nat} {values : List Value} (above : base ≤ values.length)
    (taken : List Value) :
    (ofList (taken ++ values)).popMany? base taken.length =
      some (taken.reverse, ofList values) := by
  induction taken with
  | nil => simp [popMany?]
  | cons last taken ih =>
    have aboveLast : base ≤ (taken ++ values).length := by
      simp only [List.length_append]
      omega
    simp [popMany?, pop?_ofList_cons aboveLast, ih]

/-- What lay below the height stays. -/
theorem truncate_ofList_append (upper lower : List Value) :
    (ofList (upper ++ lower)).truncate lower.length = ofList lower := by
  simp [truncate]

end Operands

end ImpStack

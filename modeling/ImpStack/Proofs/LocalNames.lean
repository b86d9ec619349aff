import ImpStack.Code.Lowering

/-!
The local names of a function, read off its tree: the parameters, then the targets of its
assignments in the order in which they are met. This is the rule of SPEC_FULL, section 3, for the
slots of a function (parameters first, then targets in first-seen order), said without the
generation that hands them out; that the two agree is `routine_slots`.
-/
namespace ImpStack

/-- An expression that is no comparison at its root. -/
def Expr.IsPlain (e : Expr) : Prop :=
  ∀ position comparison left right, e ≠ .binary position (.comparison comparison) left right

mutual

/-- The targets of the assignments in an expression, in the order in which they are made. -/
def Expr.targets : Expr → List String
  | .int .. => []
  | .float .. => []
  | .var .. => []
  | .binary _ _ left right => left.targets ++ right.targets
  | .negate _ operand => operand.targets
  | .call _ _ args => Expr.targetsOfAll args
  | .assign _ target value => value.targets ++ [target]
termination_by structural expr => expr

/-- The targets in the expressions, from the left. -/
def Expr.targetsOfAll : List Expr → List String
  | [] => []
  | first :: rest => first.targets ++ Expr.targetsOfAll rest
termination_by structural exprs => exprs

end

mutual

/-- The targets of the assignments in a statement, from the first line to the last. -/
def Stmt.targets : Stmt → List String
  | .assign _ target value => value.targets ++ [target]
  | .discard _ value => value.targets
  | .print _ value => value.targets
  | .branch _ condition body none => condition.targets ++ Stmt.targetsOfAll body
  | .branch _ condition body (some alternative) =>
    condition.targets ++ (Stmt.targetsOfAll body ++ Stmt.targetsOfAll alternative)
  | .loop _ condition body => condition.targets ++ Stmt.targetsOfAll body
  | .return_ _ none => []
  | .return_ _ (some value) => value.targets
  | .block _ body => Stmt.targetsOfAll body
termination_by structural statement => statement

def Stmt.targetsOfAll : List Stmt → List String
  | [] => []
  | first :: rest => first.targets ++ Stmt.targetsOfAll rest
termination_by structural body => body

end

/-- The slots with one for each of the names. -/
def Slots.insertAll (slots : Slots) (names : List String) : Slots := names.foldl Slots.insert slots

namespace Function

/-- The names of the parameters, in order. -/
def paramNames (function : Function) : List String := function.params.map Param.name

/-- The slots of all local names of the function, the parameters first. -/
def slots (function : Function) : Slots :=
  Slots.empty.insertAll (function.paramNames ++ Stmt.targetsOfAll function.body)

end Function

end ImpStack

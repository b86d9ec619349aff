import ImpStack.Scope.Stack
import ImpStack.Syntax.Tree

/-!
The check that every variable has a value where it is read and that every called function exists
(SPEC_FULL, section 4.3).

A variable is declared by the first assignment to it, in the block of that assignment, and has a
value once the right side has been checked. Parameters stand in a frame around the body. Functions
share one global frame, whatever their order. How many arguments a call has is not looked at.

Embeds the rules of `analyze_function`, `analyze_block`, `analyze_stmt`, `analyze_assignment` and
`analyze_expr` as functions from frames to frames. The check as it works, on one stack of frames
that is kept, is `Checker`.
-/
namespace ImpStack

inductive ScopeError where
  | undeclaredVariable (name : String) (position : Position)
  /-- A variable is read on the right side of its own first assignment. -/
  | uninitializedVariable (name : String) (position : Position)
  /-- A second function, or a second parameter of one function, of the same name. -/
  | redeclared (name : String) (position : Position)
  | undeclaredFunction (name : String) (position : Position)
  /-- A function is read like a variable. -/
  | functionAsValue (name : String) (position : Position)
  deriving DecidableEq, Repr

namespace ScopeError

def name : ScopeError → String
  | undeclaredVariable name _ => name
  | uninitializedVariable name _ => name
  | redeclared name _ => name
  | undeclaredFunction name _ => name
  | functionAsValue name _ => name

def position : ScopeError → Position
  | undeclaredVariable _ position => position
  | uninitializedVariable _ position => position
  | redeclared _ position => position
  | undeclaredFunction _ position => position
  | functionAsValue _ position => position

def message : ScopeError → String
  | undeclaredVariable name _ => s!"variable '{name}' not declared"
  | uninitializedVariable name _ => s!"variable '{name}' may not have been initialized"
  | redeclared name _ => s!"'{name}' already declared in this scope"
  | undeclaredFunction name _ => s!"function '{name}' not declared"
  | functionAsValue name _ => s!"invalid variable '{name}'; functions cannot be used as values"

end ScopeError

namespace Scopes

/-- An assignment declares its target in the innermost frame, unless the target is a local name
already. -/
def declareTarget (scopes : Scopes) (target : String) : Scopes :=
  match scopes.resolve? target with
  | none => (scopes.declare? target).getD scopes
  | some resolution =>
    if resolution.isGlobal then (scopes.declare? target).getD scopes else scopes

/-- Whether the variable may be read. -/
def checkVariable (scopes : Scopes) (name : String) (position : Position) :
    Except ScopeError Unit :=
  match scopes.resolve? name with
  | none => .error (.undeclaredVariable name position)
  | some resolution =>
    if resolution.isGlobal then .error (.functionAsValue name position)
    else if !resolution.initialized then .error (.uninitializedVariable name position)
    else .ok ()

mutual

/-- The frames behind the expression, whose operands are visited from the left. -/
def checkExpr (scopes : Scopes) : Expr → Except ScopeError Scopes
  | .int .. => .ok scopes
  | .float .. => .ok scopes
  | .var position name => do
    scopes.checkVariable name position
    return scopes
  | .binary _ _ left right => do
    let scopes ← scopes.checkExpr left
    scopes.checkExpr right
  | .negate _ operand => scopes.checkExpr operand
  | .call position callee args =>
    if scopes.isFunction callee then scopes.checkArgs args
    else .error (.undeclaredFunction callee position)
  | .assign _ target value => do
    let scopes ← (scopes.declareTarget target).checkExpr value
    return scopes.define target
termination_by structural expr => expr

/-- The frames behind the arguments, which are visited from the left. -/
def checkArgs (scopes : Scopes) : List Expr → Except ScopeError Scopes
  | [] => .ok scopes
  | arg :: args => do
    let scopes ← scopes.checkExpr arg
    scopes.checkArgs args
termination_by structural args => args

end

mutual

/-- The frames behind the statement. A nested block is checked in a frame of its own, which is left
again. -/
def checkStmt (scopes : Scopes) : Stmt → Except ScopeError Scopes
  | .assign _ target value => do
    let scopes ← (scopes.declareTarget target).checkExpr value
    return scopes.define target
  | .discard _ value => scopes.checkExpr value
  | .print _ value => scopes.checkExpr value
  | .branch _ condition body none => do
    let scopes ← scopes.checkExpr condition
    return (← scopes.enter.checkBody body).exit
  | .branch _ condition body (some alternative) => do
    let scopes ← scopes.checkExpr condition
    let scopes := (← scopes.enter.checkBody body).exit
    return (← scopes.enter.checkBody alternative).exit
  | .loop _ condition body => do
    let scopes ← scopes.checkExpr condition
    return (← scopes.enter.checkBody body).exit
  | .return_ _ none => .ok scopes
  | .return_ _ (some value) => scopes.checkExpr value
  | .block _ body => return (← scopes.enter.checkBody body).exit
termination_by structural statement => statement

/-- The frames behind all the statements, in the frame of their block. -/
def checkBody (scopes : Scopes) : List Stmt → Except ScopeError Scopes
  | [] => .ok scopes
  | statement :: body => do
    let scopes ← scopes.checkStmt statement
    scopes.checkBody body
termination_by structural body => body

end

/-- The frames behind the parameters, in the frame of the function. -/
def checkParams (scopes : Scopes) : List Param → Except ScopeError Scopes
  | [] => .ok scopes
  | param :: params =>
    match scopes.declare? param.name with
    | none => .error (.redeclared param.name param.position)
    | some scopes => (scopes.define param.name).checkParams params

end Scopes

/-- Checks one function among the functions of a global frame. -/
def Function.check (global : Scope) (function : Function) : Except ScopeError Unit := do
  let scopes ← (Scopes.ofGlobal global).enter.checkParams function.params
  let _ ← scopes.enter.checkBody function.body
  return ()

/-- Declares the functions in order; those before a name that is declared already stay declared. -/
def declareFunctions (global : Scope) : List Function → Except ScopeError Unit × Scope
  | [] => (.ok (), global)
  | function :: functions =>
    match global.declare? function.name with
    | none => (.error (.redeclared function.name function.position), global)
    | some declared =>
      declareFunctions ((declared.define? function.name).getD declared) functions

/-- Checks a program whose functions join those of `global`, and yields the functions known
afterwards, also when the check fails. -/
def Program.checkWithin (global : Scope) (program : Program) : Except ScopeError Unit × Scope :=
  match declareFunctions global program.functions with
  | (.error error, global) => (.error error, global)
  | (.ok (), global) => (program.functions.forM (·.check global), global)

/-- Checks a program on its own. -/
def Program.check (program : Program) : Except ScopeError Unit :=
  (program.checkWithin .empty).1

end ImpStack

import ImpStack.Scope.Check

/-!
The check of scopes as work on one stack of frames, which is kept from program to program. What a
check has declared when it fails stays where it is, but a frame that has been entered is left also
then.

Embeds the checker of SPEC_FULL, section 4.3, function by function: `program` is `analyze`,
`function` `analyze_function`, `framed` `scoped`, `stmts` `analyze_block`, `stmt` `analyze_stmt`,
`assignment` `analyze_assignment` and `expr` `analyze_expr`. `ScopeError` has its errors with their
positions.
-/
namespace ImpStack

/-- A check, which keeps its frames also when it fails. -/
abbrev Checker := ExceptT ScopeError (StateM Scopes)

namespace Checker

/-- The result of a check and the frames that it leaves, also when it fails. -/
def runOn {α : Type} (checker : Checker α) (scopes : Scopes) : Except ScopeError α × Scopes :=
  Id.run (StateT.run (ExceptT.run checker) scopes)

/-- The frames before the first program. -/
def fresh : Scopes := .ofGlobal .empty

/-- Whether the name is new to the innermost frame, which it is declared in. -/
def declare (name : String) : Checker Bool := do
  match (← get).declare? name with
  | some scopes =>
    set scopes
    return true
  | none => return false

def define (name : String) : Checker Unit := modify (Scopes.define · name)

/-- Checks something in a new frame, which is left again whether or not the check succeeds
(`scoped`). -/
def framed {α : Type} (inner : Checker α) : Checker α := ExceptT.mk do
  modify Scopes.enter
  let result ← ExceptT.run inner
  modify Scopes.exit
  return result

/-- The target is declared before the right side is checked, and has a value behind it
(`analyze_assignment`). -/
def assignment (target : String) (value : Checker Unit) : Checker Unit := do
  modify (Scopes.declareTarget · target)
  value
  define target

mutual

/-- An expression, operands and arguments from the left. A callee is looked for among the functions
only (`analyze_expr`). -/
def expr : Expr → Checker Unit
  | .int .. => return ()
  | .float .. => return ()
  | .var position name => do
    match (← get).checkVariable name position with
    | .ok () => return ()
    | .error error => throw error
  | .binary _ _ left right => do
    expr left
    expr right
  | .negate _ operand => expr operand
  | .call position callee args => do
    if (← get).isFunction callee then exprs args
    else throw (.undeclaredFunction callee position)
  | .assign _ target value => assignment target (expr value)
termination_by structural expr => expr

def exprs : List Expr → Checker Unit
  | [] => return ()
  | first :: rest => do
    expr first
    exprs rest
termination_by structural exprs => exprs

end

mutual

/-- A statement; nested blocks have frames of their own (`analyze_stmt`). -/
def stmt : Stmt → Checker Unit
  | .assign _ target value => assignment target (expr value)
  | .discard _ value => expr value
  | .print _ value => expr value
  | .branch _ condition body none => do
    expr condition
    framed (stmts body)
  | .branch _ condition body (some alternative) => do
    expr condition
    framed (stmts body)
    framed (stmts alternative)
  | .loop _ condition body => do
    expr condition
    framed (stmts body)
  | .return_ _ none => return ()
  | .return_ _ (some value) => expr value
  | .block _ body => framed (stmts body)
termination_by structural statement => statement

def stmts : List Stmt → Checker Unit
  | [] => return ()
  | first :: rest => do
    stmt first
    stmts rest
termination_by structural body => body

end

def params : List Param → Checker Unit
  | [] => return ()
  | param :: rest => do
    if ← declare param.name then
      define param.name
      params rest
    else throw (.redeclared param.name param.position)

/-- The parameters stand in a frame around the body (`analyze_function`). -/
def function (function : Function) : Checker Unit :=
  framed do
    params function.params
    framed (stmts function.body)

/-- Declares the functions in order; the first name that is declared already ends the check. -/
def declarations : List Function → Checker Unit
  | [] => return ()
  | function :: rest => do
    if ← declare function.name then
      define function.name
      declarations rest
    else throw (.redeclared function.name function.position)

/-- Declares all functions of the program and then checks them one by one (`analyze`). -/
def program (program : Program) : Checker Unit := do
  declarations program.functions
  program.functions.forM function

end Checker

end ImpStack

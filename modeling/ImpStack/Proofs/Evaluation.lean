import ImpStack.Machine.State
import ImpStack.Proofs.Comparing
import ImpStack.Proofs.LocalNames

/-!
Direct evaluation of programs as trees. It knows nothing of code, slots of a machine or operand
stacks: operands and arguments are evaluated from the left, an assignment evaluates its right side
and then stores, a read of a name without a value is a fault, and a call has variables of its own.

Fuel bounds the depth of calls and the rounds of each loop, so that evaluation is a function; a
program ends when some fuel is enough for it. What stays open is how a call keeps its variables and
when a comparison lets a branch or a loop go on: these are the rules of an evaluation. `Rules.flat`
has one map from names to values for each call; the rules with a frame for each block are
`Rules.blocks`.
-/
namespace ImpStack

/-- A variable that was read, given by its slot in the function, with the value it had. -/
structure Read where
  function : String
  slot : Nat
  value : Value
  deriving DecidableEq, Repr

/-- What an evaluation has printed and read so far. -/
structure Log where
  lines : Array String
  reads : List Read
  deriving DecidableEq, Repr

/-- Nothing printed and nothing read. -/
def Log.empty : Log := ⟨#[], []⟩

/-- Why an evaluation stops early. -/
inductive Halt where
  | fault (fault : Fault)
  | outOfFuel
  /-- The rules leave the outcome of a comparison open. -/
  | undecided
  deriving DecidableEq, Repr

/-- A part of an evaluation, which keeps the log also when it stops early. -/
abbrev Eval := EStateM Halt Log

/-- How a call keeps its variables, as a `Variables`, and when it takes the body behind a
comparison. -/
structure Rules (Variables : Type) where
  /-- The variables at the start of a call: its parameters, in order, with the arguments. -/
  bind : List String → List Value → Variables
  read? : Variables → String → Option Value
  write : Variables → String → Value → Variables
  /-- At the start of a block. -/
  enter : Variables → Variables
  /-- Behind the end of a block. -/
  leave : Variables → Variables
  /-- Whether a comparison that stands as a condition counts as true; `none` leaves it open. -/
  judge : Position → Comparison → Value → Value → Option Bool

/-- One flat map from names to values. -/
abbrev Vars := String → Option Value

namespace Vars

/-- No name has a value. -/
def empty : Vars := fun _ => none

/-- The name gets the value; the other names keep theirs. -/
def set (vars : Vars) (name : String) (value : Value) : Vars :=
  fun other => if other = name then some value else vars other

/-- The names bound to the values, in order. -/
def ofArgs (names : List String) (args : List Value) : Vars :=
  (names.zip args).foldl (fun vars binding => vars.set binding.1 binding.2) .empty

end Vars

/-- One flat map for each call. A comparison that stands as a condition counts as true if it holds,
and also if it asks for an order that its operands do not have: this is said by the order alone, so
that the rule does not rest on the negation with which conditions are compiled. -/
def Rules.flat : Rules Vars where
  bind := Vars.ofArgs
  read? vars := vars
  write := Vars.set
  enter := id
  leave := id
  judge _ comparison left right := some (Value.passes comparison left right)

namespace Function

/-- The slot of a local name. Only the reports of reads and of missing values use it. -/
def slotOf (function : Function) (name : String) : Nat := function.slots.slotOf name

/-- What a call yields that ends without giving a value. -/
def defaultResult (function : Function) : Option Value :=
  if Lowering.isEntry function then none else some (.int 0)

end Function

/-- The function that a call of a name reaches: of two functions of one name, the last one. -/
def Program.function? (program : Program) (name : String) : Option Function :=
  program.functions.reverse.find? (·.name = name)

namespace Evaluation

/-- Where a phrase is evaluated: the function it belongs to, and what its calls yield. -/
structure Context where
  function : Function
  call : String → List Value → Eval Value

/-- How a statement ends: the next one follows, or the call is over. -/
inductive Flow where
  | next
  | returned (value : Option Value)
  deriving DecidableEq, Repr

/-- Adds a line to the log. -/
def printLine (line : String) : Eval Unit :=
  modify fun log => { log with lines := log.lines.push line }

/-- Adds a read to the log. -/
def record (read : Read) : Eval Unit :=
  modify fun log => { log with reads := log.reads ++ [read] }

/-- An operator applied to two values. A comparison as a value is 1 or 0; an integer division by
zero is a fault of the function. -/
def apply (context : Context) (op : BinaryOp) (left right : Value) : Eval Value :=
  match op with
  | .arithmetic op =>
    match Value.combine? op left right with
    | some value => return value
    | none => throw (.fault (.divisionByZero context.function.name))
  | .comparison comparison => return .int (if Value.holds comparison left right then 1 else 0)

variable {Variables : Type} (rules : Rules Variables) (context : Context)

/-- The value of a variable, which is noted as read. A name without a value is a fault. -/
def read (vars : Variables) (name : String) : Eval Value :=
  let slot := context.function.slotOf name
  match rules.read? vars name with
  | some value => do
    record ⟨context.function.name, slot, value⟩
    return value
  | none => throw (.fault (.uninitializedSlot context.function.name slot))

mutual

/-- The value of an expression, and the variables behind it. -/
def expr : Expr → Variables → Eval (Value × Variables)
  | .int _ value, vars => return (.int value, vars)
  | .float _ value, vars => return (.float value, vars)
  | .var _ name, vars => do
    let value ← read rules context vars name
    return (value, vars)
  | .binary _ op left right, vars => do
    let (left, vars) ← expr left vars
    let (right, vars) ← expr right vars
    let value ← apply context op left right
    return (value, vars)
  | .negate _ operand, vars => do
    let (value, vars) ← expr operand vars
    return (value.negate, vars)
  | .call _ callee args, vars => do
    let (args, vars) ← exprs args vars
    let value ← context.call callee args
    return (value, vars)
  | .assign _ target value, vars => do
    let (value, vars) ← expr value vars
    return (value, rules.write vars target value)
termination_by structural expr => expr

/-- The values of expressions, from the left. -/
def exprs : List Expr → Variables → Eval (List Value × Variables)
  | [], vars => return ([], vars)
  | first :: rest, vars => do
    let (first, vars) ← expr first vars
    let (rest, vars) ← exprs rest vars
    return (first :: rest, vars)
termination_by structural exprs => exprs

end

/-- Whether a condition counts as true. A comparison is left to the rules; any other value counts
as true unless it is zero. -/
def condition : Expr → Variables → Eval (Bool × Variables)
  | .binary position (.comparison comparison) left right, vars => do
    let (left, vars) ← expr rules context left vars
    let (right, vars) ← expr rules context right vars
    match rules.judge position comparison left right with
    | some holds => return (holds, vars)
    | none => throw .undecided
  | test, vars => do
    let (value, vars) ← expr rules context test vars
    return (!value.isZero, vars)

/-- What is no comparison counts as true unless it is zero. -/
theorem condition_plain {test : Expr} (plain : test.IsPlain) (vars : Variables) :
    condition rules context test vars = do
      let (value, vars) ← expr rules context test vars
      return (!value.isZero, vars) := by
  unfold condition
  split
  · next position comparison left right =>
    exact absurd rfl (plain position comparison left right)
  · rfl

/-- At most `fuel` rounds of a loop. -/
def rounds (test : Variables → Eval (Bool × Variables))
    (body : Variables → Eval (Flow × Variables)) :
    (fuel : Nat) → Variables → Eval (Flow × Variables)
  | 0, _ => throw .outOfFuel
  | fuel + 1, vars => do
    let (holds, vars) ← test vars
    if holds then
      match ← body vars with
      | (.next, vars) => rounds test body fuel vars
      | (.returned value, vars) => return (.returned value, vars)
    else return (.next, vars)

/-- Evaluates the statements of a block as a block. -/
def within (body : Variables → Eval (Flow × Variables)) (vars : Variables) :
    Eval (Flow × Variables) := do
  let (flow, vars) ← body (rules.enter vars)
  return (flow, rules.leave vars)

mutual

/-- A statement. Each loop in it may make `fuel` rounds. -/
def stmt (fuel : Nat) : Stmt → Variables → Eval (Flow × Variables)
  | .assign _ target value, vars => do
    let (value, vars) ← expr rules context value vars
    return (.next, rules.write vars target value)
  | .discard _ value, vars => do
    let (_, vars) ← expr rules context value vars
    return (.next, vars)
  | .print _ value, vars => do
    let (value, vars) ← expr rules context value vars
    printLine value.text
    return (.next, vars)
  | .branch _ test body none, vars => do
    let (holds, vars) ← condition rules context test vars
    if holds then within rules (stmts fuel body) vars else return (.next, vars)
  | .branch _ test body (some alternative), vars => do
    let (holds, vars) ← condition rules context test vars
    if holds then within rules (stmts fuel body) vars
    else within rules (stmts fuel alternative) vars
  | .loop _ test body, vars =>
    rounds (condition rules context test) (within rules (stmts fuel body)) fuel vars
  | .return_ _ none, vars => return (.returned context.function.defaultResult, vars)
  | .return_ _ (some value), vars => do
    let (value, vars) ← expr rules context value vars
    return (.returned (some value), vars)
  | .block _ body, vars => within rules (stmts fuel body) vars
termination_by structural statement => statement

/-- Statements in order, up to one that returns. -/
def stmts (fuel : Nat) : List Stmt → Variables → Eval (Flow × Variables)
  | [], vars => return (.next, vars)
  | first :: rest, vars => do
    match ← stmt fuel first vars with
    | (.next, vars) => stmts fuel rest vars
    | (.returned value, vars) => return (.returned value, vars)
termination_by structural body => body

end

/-- The result of a call whose arguments have been evaluated. -/
def invoke (fuel : Nat) (args : List Value) : Eval (Option Value) := do
  match ← within rules (stmts rules context fuel context.function.body)
    (rules.bind context.function.paramNames args) with
  | (.next, _) => return context.function.defaultResult
  | (.returned value, _) => return value

/-- The result of a call made while `depth` calls are live. Inside a program a call without a
result counts as zero. -/
def call (program : Program) :
    (fuel depth : Nat) → (callee : String) → List Value → Eval (Option Value)
  | 0, _, _, _ => throw .outOfFuel
  | fuel + 1, depth, callee, args =>
    match program.function? callee with
    | none => throw (.fault (.unknownFunction callee))
    | some function =>
      if maxCallDepth ≤ depth then throw (.fault .callDepthExceeded)
      else
        invoke rules ⟨function, fun callee args => do
          return (← call program fuel (depth + 1) callee args).getD (.int 0)⟩ fuel args

/-- What a call yields inside a program. -/
def callValue (program : Program) (fuel depth : Nat) (callee : String) (args : List Value) :
    Eval Value := do
  return (← call rules program fuel depth callee args).getD (.int 0)

/-- Inside a call of the function, while `depth` calls are live. -/
def inside (program : Program) (fuel depth : Nat) (function : Function) : Context where
  function := function
  call := callValue rules program fuel depth

/-- A call with fuel left evaluates the function in a context whose calls have one unit less. -/
theorem call_succ (program : Program) (fuel depth : Nat) (callee : String) (args : List Value) :
    call rules program (fuel + 1) depth callee args =
      match program.function? callee with
      | none => throw (.fault (.unknownFunction callee))
      | some function =>
        if maxCallDepth ≤ depth then throw (.fault .callDepthExceeded)
        else invoke rules (inside rules program fuel (depth + 1) function) fuel args := rfl

/-- Evaluates a program from its function `entry`, which is called without arguments. -/
def program (program : Program) (entry : String) (fuel : Nat) :
    EStateM.Result Halt Log (Option Value) :=
  (call rules program fuel 0 entry []).run .empty

/-- The log at the end of an evaluation, also of one that stops early. -/
def log : EStateM.Result Halt Log (Option Value) → Log
  | .ok _ log => log
  | .error _ log => log

/-- How an evaluation ends, unless it stops for want of fuel or of a rule. -/
def outcome? : EStateM.Result Halt Log (Option Value) → Option Outcome
  | .ok value _ => some (.ok value)
  | .error (.fault fault) _ => some (.error fault)
  | .error .outOfFuel _ => none
  | .error .undecided _ => none

/-- The evaluation from `entry` ends with the outcome and has printed the lines. -/
def Ends (program : Program) (entry : String) (lines : Array String) (outcome : Outcome) : Prop :=
  ∃ fuel, outcome? (Evaluation.program rules program entry fuel) = some outcome ∧
    (log (Evaluation.program rules program entry fuel)).lines = lines

end Evaluation

end ImpStack

import ImpStack.Code.Assembly
import ImpStack.Code.Slots
import ImpStack.Syntax.Tree

/-!
From trees to code. The code of a phrase is a list of instructions that leaves the stack as it was
for a statement and one value more for an expression; it depends on the offset at which it is placed
only through its jump targets, which lie inside it or just behind it.

The schemes of code are those of SPEC_FULL, section 4.4, with every jump target computed from the
lengths of the parts. The generator as it works, in one pass with labels, is `Generator`.
-/
namespace ImpStack

/-- Why a program has no code; a check of its scopes leaves only the last of these. -/
inductive LoweringError where
  | unknownVariable (name : String) (position : Position)
  | unknownFunction (name : String) (position : Position)
  | arityMismatch (name : String) (expected found : Nat) (position : Position)
  deriving DecidableEq, Repr

namespace LoweringError

def position : LoweringError → Position
  | unknownVariable _ position => position
  | unknownFunction _ position => position
  | arityMismatch _ _ _ position => position

def message : LoweringError → String
  | unknownVariable name _ => s!"no slot allocated for variable '{name}'"
  | unknownFunction name _ => s!"call to unknown function '{name}'"
  | arityMismatch name expected found _ =>
    s!"function '{name}' takes {expected} argument(s) but {found} were supplied"

end LoweringError

/-- The number of parameters of every function that may be called. -/
abbrev Arities := String → Option Nat

/-- Of two functions of one name the last one counts. -/
def Program.arities (program : Program) : Arities := fun name =>
  (program.functions.reverse.find? (·.name = name)).map Function.arity

abbrev Code := List (Instruction Nat)

/-- The code of a phrase and the slots behind it. -/
structure Lowered where
  code : Code
  slots : Slots
  deriving DecidableEq, Repr

namespace Lowering

/-- The name of the function that runs first. Without parameters it has no value of its own. -/
def entryName : String := "main"

def isEntry (function : Function) : Bool :=
  decide (function.name = entryName) && function.params.isEmpty

/-- What a function does behind its last statement, and at a return without a value. -/
def defaultReturn (void : Bool) : Code :=
  if void then [.returnVoid] else [.pushInt 0, .return_]

/-- The operator applied to the two topmost values, placed at `start`. A comparison becomes 1 or
0. -/
def operatorCode (start : Nat) : BinaryOp → Code
  | .arithmetic op => [.arithmetic op]
  | .comparison comparison =>
    [.jumpIf comparison (start + 3), .pushInt 0, .jump (start + 4), .pushInt 1]

mutual

/-- Code at `start` that leaves the value of the expression on the stack. Operands and arguments
are computed from the left. -/
def expr (arities : Arities) (start : Nat) (slots : Slots) : Expr → Except LoweringError Lowered
  | .int _ value => .ok ⟨[.pushInt value], slots⟩
  | .float _ value => .ok ⟨[.pushFloat value], slots⟩
  | .var position name =>
    match slots.slot? name with
    | some slot => .ok ⟨[.load slot], slots⟩
    | none => .error (.unknownVariable name position)
  | .binary _ op left right => do
    let left ← expr arities start slots left
    let right ← expr arities (start + left.code.length) left.slots right
    let behind := start + left.code.length + right.code.length
    return ⟨left.code ++ (right.code ++ operatorCode behind op), right.slots⟩
  | .negate _ operand => do
    let operand ← expr arities start slots operand
    return ⟨operand.code ++ [.neg], operand.slots⟩
  | .call position callee args =>
    match arities callee with
    | none => .error (.unknownFunction callee position)
    | some arity =>
      if arity = args.length then do
        let args ← exprs arities start slots args
        return ⟨args.code ++ [.call callee arity], args.slots⟩
      else .error (.arityMismatch callee arity args.length position)
  | .assign _ target value => do
    let value ← expr arities start slots value
    let slots := value.slots.insert target
    return ⟨value.code ++ [.dup, .store (slots.slotOf target)], slots⟩
termination_by structural expr => expr

/-- Code at `start` that leaves the values of all the expressions on the stack. -/
def exprs (arities : Arities) (start : Nat) (slots : Slots) :
    List Expr → Except LoweringError Lowered
  | [] => .ok ⟨[], slots⟩
  | first :: rest => do
    let first ← expr arities start slots first
    let rest ← exprs arities (start + first.code.length) first.slots rest
    return ⟨first.code ++ rest.code, rest.slots⟩
termination_by structural exprs => exprs

end

/-- How a condition ends in a jump to `target` that is taken when it does not hold. -/
inductive Test where
  /-- By the negated comparison of two operands. -/
  | compare (comparison : Comparison)
  /-- By a value that is zero. -/
  | zero
  deriving DecidableEq, Repr

def Test.jump : Test → (target : Nat) → Instruction Nat
  | .compare comparison, target => .jumpIf comparison.negate target
  | .zero, target => .jumpIfZero target

/-- Code at `start` for a condition, without its jump, and the test that the jump makes. -/
def condition (arities : Arities) (start : Nat) (slots : Slots) :
    Expr → Except LoweringError (Lowered × Test)
  | .binary _ (.comparison comparison) left right => do
    let left ← expr arities start slots left
    let right ← expr arities (start + left.code.length) left.slots right
    return (⟨left.code ++ right.code, right.slots⟩, .compare comparison)
  | value => do
    let value ← expr arities start slots value
    return (value, .zero)

mutual

/-- Code at `start` for the statement. -/
def stmt (arities : Arities) (void : Bool) (start : Nat) (slots : Slots) :
    Stmt → Except LoweringError Lowered
  | .assign _ target value => do
    let value ← expr arities start slots value
    let slots := value.slots.insert target
    return ⟨value.code ++ [.store (slots.slotOf target)], slots⟩
  | .discard _ value => do
    let value ← expr arities start slots value
    return ⟨value.code ++ [.pop], value.slots⟩
  | .print _ value => do
    let value ← expr arities start slots value
    return ⟨value.code ++ [.print], value.slots⟩
  | .branch _ test body none => do
    let (test, jump) ← condition arities start slots test
    let bodyStart := start + test.code.length + 1
    let body ← stmts arities void bodyStart test.slots body
    let finish := bodyStart + body.code.length + 1
    return ⟨test.code ++ jump.jump finish :: body.code ++ [.jump finish], body.slots⟩
  | .branch _ test body (some alternative) => do
    let (test, jump) ← condition arities start slots test
    let bodyStart := start + test.code.length + 1
    let body ← stmts arities void bodyStart test.slots body
    let otherStart := bodyStart + body.code.length + 1
    let other ← stmts arities void otherStart body.slots alternative
    let finish := otherStart + other.code.length
    return ⟨test.code ++ jump.jump otherStart :: body.code ++ .jump finish :: other.code,
      other.slots⟩
  | .loop _ test body => do
    let (test, jump) ← condition arities start slots test
    let bodyStart := start + test.code.length + 1
    let body ← stmts arities void bodyStart test.slots body
    let finish := bodyStart + body.code.length + 1
    return ⟨test.code ++ jump.jump finish :: body.code ++ [.jump start], body.slots⟩
  | .return_ _ none => .ok ⟨defaultReturn void, slots⟩
  | .return_ _ (some value) => do
    let value ← expr arities start slots value
    return ⟨value.code ++ [.return_], value.slots⟩
  | .block _ body => stmts arities void start slots body
termination_by structural statement => statement

/-- Code at `start` for the statements, one behind the other. -/
def stmts (arities : Arities) (void : Bool) (start : Nat) (slots : Slots) :
    List Stmt → Except LoweringError Lowered
  | [] => .ok ⟨[], slots⟩
  | first :: rest => do
    let first ← stmt arities void start slots first
    let rest ← stmts arities void (start + first.code.length) first.slots rest
    return ⟨first.code ++ rest.code, rest.slots⟩
termination_by structural body => body

end

/-- The slots of the parameters, in order. -/
def paramSlots (params : List Param) : Slots :=
  params.foldl (fun slots param => slots.insert param.name) .empty

/-- The code of a function among functions with the given arities. -/
def routine (arities : Arities) (function : Function) : Except LoweringError Routine := do
  let void := isEntry function
  let body ← stmts arities void 0 (paramSlots function.params) function.body
  return {
    name := function.name
    arity := function.arity
    locals := body.slots.size
    void := void
    code := (body.code ++ defaultReturn void).toArray }

end Lowering

/-- The code of all functions of the program, under the name `name`. -/
def Assembly.ofProgram (name : String) (program : Program) : Except LoweringError Assembly := do
  return ⟨name, ← program.functions.mapM (Lowering.routine program.arities)⟩

end ImpStack

import ImpStack.Code.Label
import ImpStack.Code.Lowering

/-!
From trees to code in one pass over the instructions of a function. A jump leads to a label, which
is bound when the place it stands for is reached; once a function is complete its labels are
replaced by offsets. A generator is kept from program to program.

Embeds the generator of SPEC_FULL, section 4.4, function by function: `program` is `generate`,
`routine` `generate_function`, `stmts` and `stmt` are `generate_block` and `generate_stmt`, `expr`
is `generate_expr`, `comparisonValue` `materialize_comparison`, `condition` `generate_condition`,
`defaultReturn` `emit_default_return`, `fixUp` `fix_up`, and `slotFor` and `existingSlot` are
`slot_for` and `existing_slot`. The instructions of a function are kept in a list in the order in
which they are emitted.
-/
namespace ImpStack

inductive GenerationError where
  | lowering (error : LoweringError)
  /-- A jump of the function leads to a label that stands for no place. -/
  | unboundLabel (function : String) (label : Nat)
  deriving DecidableEq, Repr

/-- What a generator knows while it works. -/
structure Generator where
  /-- The name of the assemblies. -/
  name : String
  arities : Arities
  /-- The function that is being generated, and whether it is the entry function. -/
  function : String
  void : Bool
  slots : Slots
  code : List (Instruction Label)
  labels : Labels

abbrev Generation := ExceptT GenerationError (StateM Generator)

namespace Generator

/-- A generator that has not generated anything yet. -/
def ofName (name : String) : Generator where
  name := name
  arities := fun _ => none
  function := ""
  void := false
  slots := .empty
  code := []
  labels := .empty

def push (generator : Generator) (instruction : Instruction Label) : Generator :=
  { generator with code := generator.code ++ [instruction] }

/-- Binds a label to the place of the next instruction. -/
def bindHere (generator : Generator) (label : Label) : Generator :=
  { generator with labels := generator.labels.bind label generator.code.length }

@[simp]
theorem push_code (generator : Generator) (instruction : Instruction Label) :
    (generator.push instruction).code = generator.code ++ [instruction] := rfl

@[simp]
theorem push_labels (generator : Generator) (instruction : Instruction Label) :
    (generator.push instruction).labels = generator.labels := rfl

@[simp]
theorem bindHere_code (generator : Generator) (label : Label) :
    (generator.bindHere label).code = generator.code := rfl

@[simp]
theorem bindHere_labels (generator : Generator) (label : Label) :
    (generator.bindHere label).labels = generator.labels.bind label generator.code.length := rfl

end Generator

namespace Generation

/-- The result of a generation and the generator that it leaves, also when it fails. -/
def runOn {α : Type} (generation : Generation α) (generator : Generator) :
    Except GenerationError α × Generator :=
  Id.run (StateT.run (ExceptT.run generation) generator)

def emit (instruction : Instruction Label) : Generation Unit := do
  set ((← get).push instruction)

def freshLabel : Generation Label := do
  let generator ← get
  let (label, labels) := generator.labels.fresh
  set { generator with labels }
  return label

def bind (label : Label) : Generation Unit := do
  set ((← get).bindHere label)

/-- The slot of a name, which gets the next free one if it has none (`slot_for`). -/
def slotFor (name : String) : Generation Nat := do
  let generator ← get
  let slots := generator.slots.insert name
  set { generator with slots }
  return slots.slotOf name

/-- The slot of a name that must have one (`existing_slot`). -/
def existingSlot (name : String) (position : Position) : Generation Nat := do
  match (← get).slots.slot? name with
  | some slot => return slot
  | none => throw (.lowering (.unknownVariable name position))

/-- Turns the two operands on the stack into 1 or 0 (`materialize_comparison`). -/
def comparisonValue (comparison : Comparison) : Generation Unit := do
  let holds ← freshLabel
  let finish ← freshLabel
  emit (.jumpIf comparison holds)
  emit (.pushInt 0)
  emit (.jump finish)
  bind holds
  emit (.pushInt 1)
  bind finish

def operator : BinaryOp → Generation Unit
  | .arithmetic op => emit (.arithmetic op)
  | .comparison comparison => comparisonValue comparison

mutual

/-- Emits code that leaves the value of the expression on the stack (`generate_expr`). -/
def expr : Expr → Generation Unit
  | .int _ value => emit (.pushInt value)
  | .float _ value => emit (.pushFloat value)
  | .var position name => do
    emit (.load (← existingSlot name position))
  | .binary _ op left right => do
    expr left
    expr right
    operator op
  | .negate _ operand => do
    expr operand
    emit .neg
  | .call position callee args => do
    match (← get).arities callee with
    | none => throw (.lowering (.unknownFunction callee position))
    | some arity =>
      if arity = args.length then
        exprs args
        emit (.call callee arity)
      else throw (.lowering (.arityMismatch callee arity args.length position))
  | .assign _ target value => do
    expr value
    emit .dup
    emit (.store (← slotFor target))
termination_by structural expr => expr

def exprs : List Expr → Generation Unit
  | [] => return ()
  | first :: rest => do
    expr first
    exprs rest
termination_by structural exprs => exprs

end

/-- Emits a branch to `otherwise` that is taken when the condition does not hold
(`generate_condition`). -/
def condition (otherwise : Label) : Expr → Generation Unit
  | .binary _ (.comparison comparison) left right => do
    expr left
    expr right
    emit (.jumpIf comparison.negate otherwise)
  | value => do
    expr value
    emit (.jumpIfZero otherwise)

/-- The end of a function, and a return without a value (`emit_default_return`). -/
def defaultReturn : Generation Unit := do
  if (← get).void then emit .returnVoid
  else
    emit (.pushInt 0)
    emit .return_

mutual

/-- Emits the code of a statement, which leaves the stack as it was (`generate_stmt`). -/
def stmt : Stmt → Generation Unit
  | .assign _ target value => do
    expr value
    emit (.store (← slotFor target))
  | .discard _ value => do
    expr value
    emit .pop
  | .print _ value => do
    expr value
    emit .print
  | .branch _ test body none => do
    let other ← freshLabel
    let finish ← freshLabel
    condition other test
    stmts body
    emit (.jump finish)
    bind other
    bind finish
  | .branch _ test body (some alternative) => do
    let other ← freshLabel
    let finish ← freshLabel
    condition other test
    stmts body
    emit (.jump finish)
    bind other
    stmts alternative
    bind finish
  | .loop _ test body => do
    let start ← freshLabel
    let finish ← freshLabel
    bind start
    condition finish test
    stmts body
    emit (.jump start)
    bind finish
  | .return_ _ none => defaultReturn
  | .return_ _ (some value) => do
    expr value
    emit .return_
  | .block _ body => stmts body
termination_by structural statement => statement

def stmts : List Stmt → Generation Unit
  | [] => return ()
  | first :: rest => do
    stmt first
    stmts rest
termination_by structural body => body

end

/-- The emitted code with offsets in place of its labels (`fix_up`). -/
def fixUp : Generation Code := do
  let generator ← get
  match generator.code.mapM generator.labels.resolve with
  | .ok code => return code
  | .error label => throw (.unboundLabel generator.function label.id)

def params : List Param → Generation Unit
  | [] => return ()
  | param :: rest => do
    let _ ← slotFor param.name
    params rest

/-- The routine of a function, for which slots, code and labels start anew (`generate_function`). -/
def routine (function : Function) : Generation Routine := do
  let generator ← get
  set { generator with
    function := function.name
    void := Lowering.isEntry function
    slots := .empty
    code := []
    labels := .empty }
  params function.params
  stmts function.body
  defaultReturn
  let code ← fixUp
  return {
    name := function.name
    arity := function.arity
    locals := (← get).slots.size
    void := (← get).void
    code := code.toArray }

/-- The code of all functions of the program (`generate`). -/
def program (program : Program) : Generation Assembly := do
  let generator ← get
  set { generator with arities := program.arities }
  let routines ← program.functions.mapM routine
  return ⟨generator.name, routines⟩

end Generation

/-- The assembly of a program, and the generator that is left. -/
def Generator.generate (generator : Generator) (program : Program) :
    Except GenerationError Assembly × Generator :=
  (Generation.program program).runOn generator

end ImpStack

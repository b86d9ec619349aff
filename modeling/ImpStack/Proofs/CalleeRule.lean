import ImpStack.Proofs.ProgramGrammar

/-!
The parser with and without the rule that only a name may stand before an argument list. With the
rule it is the parser of the language (`Program.ofTokensBy_named`); the two differ in nothing else.

The rule is a parameter of the parsers of `Parser.By`, which are those of the language with `callOf`
in the place where a callee is looked at. Whether tokens can still become right is asked without the
rule, as a call of something else than a name is only refused behind its arguments.
-/
namespace ImpStack

/-- What may stand before an argument list. -/
inductive CalleeRule where
  | named
  | any
  deriving DecidableEq, Repr

namespace Parser.By

variable (rule : CalleeRule)

/-- The call of `left`. What is no name leaves no trace in the tree. -/
def callOf (left : Expr) (paren : Token) (arguments : List Expr) : Parser Expr :=
  match left, rule with
  | .var position callee, _ => return .call position callee arguments
  | left, .any => return .call left.position "" arguments
  | _, .named => throw (.callTarget paren.position)

mutual

/-- Operands and the operators between them, as in the parser of the language. -/
def expressionOf : (turns : Nat) → (least : Strength) → Parser Expr
  | 0, _ => unexpected .expression
  | turns + 1, least => do
    let left ← operand turns
    operators turns least left

def operand : (turns : Nat) → Parser Expr
  | 0 => unexpected .expression
  | turns + 1 => do
    let token ← peek
    match token.kind with
    | .intLiteral => intLiteral
    | .floatLiteral => floatLiteral
    | .identifier =>
      let _ ← advance
      return .var token.position token.lexeme
    | .symbol .leftParen =>
      let _ ← advance
      let inner ← expressionOf turns .assignment
      let _ ← expect (.symbol .rightParen) .groupClose
      return inner.moveTo token.position
    | .symbol .minus =>
      let _ ← advance
      return .negate token.position (← expressionOf turns .negation)
    | _ => unexpected .expression

def operators : (turns : Nat) → (least : Strength) → (left : Expr) → Parser Expr
  | 0, _, left => return left
  | turns + 1, least, left => do
    match (← peek).kind.operator? with
    | none => return left
    | some op =>
      if least ≤ op.strength then
        let whole ← operation turns op left
        operators turns least whole
      else return left

/-- The operator and its right side. Of all the parsers this is the only one that asks for the rule
itself. -/
def operation : (turns : Nat) → (op : Operator) → (left : Expr) → Parser Expr
  | 0, _, _ => unexpected .expression
  | turns + 1, .assign, left => do
    let sign ← advance
    match left with
    | .var position target => return .assign position target (← expressionOf turns .assignment)
    | _ => throw (.assignmentTarget sign.position)
  | turns + 1, .call, left => do
    let paren ← advance
    let arguments ←
      if (← peek).kind = .symbol .rightParen then pure [] else args turns
    let _ ← expect (.symbol .rightParen) .argsClose
    callOf rule left paren arguments
  | turns + 1, .binary op, left => do
    let _ ← advance
    let right ← expressionOf turns (Operator.binary op).strength.tighter
    return .binary left.position op left right

def args : (turns : Nat) → Parser (List Expr)
  | 0 => unexpected .expression
  | turns + 1 => do
    let arg ← expressionOf turns .assignment
    if ← accept .comma then return arg :: (← args turns) else return [arg]

end

def expression : Parser Expr := do
  expressionOf rule (4 * ((← get).ahead.length + 1)) .assignment

def expressionStatement (position : Position) : Parser Stmt := do
  let expr ← expression rule
  let _ ← expect (.symbol .semicolon) .statementEnd
  return expr.asStatement position

def printStatement (position : Position) : Parser Stmt := do
  let _ ← expect (.symbol .leftParen) .printOpen
  let value ← expression rule
  let _ ← expect (.symbol .rightParen) .printClose
  let _ ← expect (.symbol .semicolon) .printEnd
  return .print position value

def returnStatement (position : Position) : Parser Stmt := do
  let value ←
    if (← peek).kind = .symbol .semicolon then pure none else some <$> expression rule
  let _ ← expect (.symbol .semicolon) .returnEnd
  return .return_ position value

mutual

/-- A statement, with turns for those inside it. -/
def statementIn : (turns : Nat) → Parser Stmt
  | 0 => unexpected .expression
  | turns + 1 => do
    let first ← peek
    match first.kind with
    | .keyword .if_ =>
      let _ ← advance
      let _ ← expect (.symbol .leftParen) .ifOpen
      let condition ← expression rule
      let _ ← expect (.symbol .rightParen) .ifClose
      let body ← statementIn turns
      if (← peek).kind = .keyword .else_ then
        let _ ← advance
        let alternative ← statementIn turns
        return .branch first.position condition body.asBlock (some alternative.asBlock)
      else return .branch first.position condition body.asBlock none
    | .keyword .while_ =>
      let _ ← advance
      let _ ← expect (.symbol .leftParen) .whileOpen
      let condition ← expression rule
      let _ ← expect (.symbol .rightParen) .whileClose
      let body ← statementIn turns
      return .loop first.position condition body.asBlock
    | .keyword .print =>
      let _ ← advance
      printStatement rule first.position
    | .keyword .return_ =>
      let _ ← advance
      returnStatement rule first.position
    | .symbol .leftBrace =>
      let _ ← advance
      return .block first.position (← blockBodyIn turns)
    | _ => expressionStatement rule first.position

def blockBodyIn : (turns : Nat) → Parser Block
  | 0 => unexpected .blockClose
  | turns + 1 => do
    let next ← peek
    if next.kind = .symbol .rightBrace ∨ next.kind = .eof then
      let _ ← expect (.symbol .rightBrace) .blockClose
      return []
    else
      let statement ← statementIn turns
      return statement :: (← blockBodyIn turns)

end

def blockBody : Parser Block := do
  blockBodyIn rule (2 * ((← get).ahead.length + 1))

/-- What follows the parameters. -/
def functionBehind (keyword name : Token) (params : List Param) : Parser Function := do
  let _ ← expect (.symbol .rightParen) .paramsClose
  let _ ← expect (.symbol .leftBrace) .bodyOpen
  let body ← blockBody rule
  return ⟨name.lexeme, params, body, keyword.position⟩

/-- A function up to the brace that closes its body. -/
def function : Parser Function := do
  let keyword ← expect (.keyword .function) .function
  let name ← expect .identifier .functionName
  let _ ← expect (.symbol .leftParen) .paramsOpen
  let params ←
    if (← peek).kind = .symbol .rightParen then pure []
    else paramsIn ((← get).ahead.length + 1)
  functionBehind rule keyword name params

def functionsIn : (turns : Nat) → Parser (List Function)
  | 0 => return []
  | turns + 1 => do
    let next ← peek
    if next.kind = .eof then return []
    else if next.kind = .keyword .function then
      let first ← function rule
      return first :: (← functionsIn turns)
    else unexpected .topLevel

/-- Functions up to the end of the input. -/
def program : Parser Program := do
  return ⟨← functionsIn rule ((← get).ahead.length + 1)⟩

end Parser.By

/-- The program that the tokens are read as under the rule for callees. -/
def Program.ofTokensBy (rule : CalleeRule) (tokens : List Token) : Except SyntaxError Program :=
  ((Parser.By.program rule).runOn (.ofList tokens)).1

namespace Parser.By

/-- With the rule, a callee that is no name is an error at the parenthesis. -/
theorem callOf_named (left : Expr) (paren : Token) (arguments : List Expr) :
    callOf .named left paren arguments =
      match left with
      | .var position callee => return .call position callee arguments
      | _ => throw (.callTarget paren.position) := by
  cases left <;> rfl

mutual

/-- The parsers of expressions call each other as those of the language do. -/
theorem expressionOf_named (turns : Nat) (least : Strength) :
    expressionOf .named turns least = Parser.expressionOf turns least := by
  cases turns with
  | zero => rfl
  | succ turns =>
    rw [expressionOf, Parser.expressionOf, operand_named turns]
    exact bind_congr fun left => operators_named turns least left

theorem operand_named (turns : Nat) : operand .named turns = Parser.operand turns := by
  cases turns with
  | zero => rfl
  | succ turns =>
    rw [operand, expressionOf_named turns, expressionOf_named turns]
    rfl

theorem operators_named (turns : Nat) (least : Strength) (left : Expr) :
    operators .named turns least left = Parser.operators turns least left := by
  cases turns with
  | zero => rfl
  | succ turns =>
    rw [operators]
    simp only [operation_named turns, operators_named turns]
    rfl

theorem operation_named (turns : Nat) (op : Operator) (left : Expr) :
    operation .named turns op left = Parser.operation turns op left := by
  cases turns with
  | zero => cases op <;> rfl
  | succ turns =>
    cases op with
    | assign =>
      rw [operation, expressionOf_named turns]
      rfl
    | call =>
      rw [operation, args_named turns]
      simp only [callOf_named]
      rfl
    | binary op => rw [operation, Parser.operation, expressionOf_named turns]

theorem args_named (turns : Nat) : args .named turns = Parser.args turns := by
  cases turns with
  | zero => rfl
  | succ turns => rw [args, Parser.args, expressionOf_named turns, args_named turns]

end

theorem expression_named : expression .named = Parser.expression := by
  unfold expression Parser.expression
  simp only [expressionOf_named]

theorem expressionStatement_named (position : Position) :
    expressionStatement .named position = Parser.expressionStatement position := by
  rw [expressionStatement, expressionStatement_eq, expression_named]

theorem printStatement_named (position : Position) :
    printStatement .named position = Parser.printStatement position := by
  rw [printStatement, Parser.printStatement, expression_named]

theorem returnStatement_named (position : Position) :
    returnStatement .named position = Parser.returnStatement position := by
  rw [returnStatement, Parser.returnStatement, expression_named]

mutual

/-- Statements differ by the expressions in them only. -/
theorem statementIn_named (turns : Nat) :
    statementIn .named turns = Parser.statementIn turns := by
  cases turns with
  | zero => rfl
  | succ turns =>
    rw [statementIn, statementIn_named turns, blockBodyIn_named turns, expression_named]
    simp only [expressionStatement_named, printStatement_named, returnStatement_named]
    rfl

theorem blockBodyIn_named (turns : Nat) :
    blockBodyIn .named turns = Parser.blockBodyIn turns := by
  cases turns with
  | zero => rfl
  | succ turns =>
    rw [blockBodyIn, Parser.blockBodyIn, statementIn_named turns, blockBodyIn_named turns]

end

theorem function_named : function .named = Parser.function := by
  unfold function Parser.function functionBehind blockBody Parser.blockBody
  simp only [blockBodyIn_named]

theorem functionsIn_named (turns : Nat) :
    functionsIn .named turns = Parser.functionsIn turns := by
  induction turns with
  | zero => rfl
  | succ turns ih => rw [functionsIn, Parser.functionsIn, function_named, ih]

theorem program_named : program .named = Parser.program := by
  unfold program Parser.program
  simp only [functionsIn_named]

end Parser.By

/-- With the rule, the parser of the language. -/
theorem Program.ofTokensBy_named : Program.ofTokensBy .named = Program.ofTokens := by
  funext tokens
  rw [ofTokensBy, ofTokens, Parser.By.program_named]

end ImpStack

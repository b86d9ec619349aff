import ImpStack.Syntax.Reader

/-!
The parser as an object that is kept: a list of tokens, an index into it, and functions that call
each other and repeat themselves. Nothing in the object holds the index inside the list or brings a
loop to its end. Where the index leaves the list, where the turn of a loop consumes nothing, and
where there are more turns, or more calls inside each other, than tokens to the next end of the
input, the parser stops in a way of its own.

Embeds the parser of SPEC_FULL, section 4.2, function by function: `peek`, `previous`, `check`,
`advance`, `accept`, `expect` and `unexpected` (there `match_any` and `consume` for `accept` and
`expect`), `expressionOf`, `operand`, `operation` and `finishCall` (`parse_precedence`, `prefix`,
`infix`, `finish_call`), the statements (`parse_if`, `parse_while`, `parse_print`, `parse_return`,
`parse_expression_statement`), `blockBody`, `function` and `program` (`parse_block_body`,
`parse_function`, `parse_program`). That the stops of its own are never reached is proved, not
assumed.
-/
namespace ImpStack

/-- A list of tokens and the index of the one that is looked at. -/
structure Tape where
  tokens : List Token
  index : Nat
  deriving DecidableEq, Repr

namespace Tape

/-- A list whose last token is no end of the input gets one behind it. -/
def ofList (tokens : List Token) : Tape where
  tokens := if tokens.getLast?.any Token.isEof = true then tokens
    else tokens ++ [.eofAt (tokens.getLast?.elim .start Token.behind)]
  index := 0

/-- The number of tokens from the one that is looked at to the next end of the input, which is
counted too. -/
def left (tape : Tape) : Nat :=
  ((tape.tokens.drop tape.index).takeWhile (!·.isEof)).length + 1

def forward (tape : Tape) (count : Nat) : Tape := { tape with index := tape.index + count }

end Tape

/-- Why a parser stops. -/
inductive Stop where
  | misfit (error : SyntaxError)
  /-- The error that asks for a binary operator at a token that is none. -/
  | noBinaryOperator (found : Token)
  /-- No token stands at the index. -/
  | outside
  /-- A turn of a loop has consumed nothing. -/
  | idle
  | outOfTurns
  | tooDeep
  deriving DecidableEq, Repr

namespace Kind

/-- How tightly a token of the kind binds what stands before it. -/
def level : Kind → Strength
  | .symbol .assign => .assignment
  | .symbol .equal | .symbol .notEqual => .equality
  | .symbol .less | .symbol .lessEqual | .symbol .greater | .symbol .greaterEqual => .ordering
  | .symbol .plus | .symbol .minus => .sum
  | .symbol .times | .symbol .divide | .symbol .modulo => .product
  | .symbol .leftParen => .call
  | _ => .none

def binaryOp? : Kind → Option BinaryOp
  | .symbol .plus => some (.arithmetic .add)
  | .symbol .minus => some (.arithmetic .sub)
  | .symbol .times => some (.arithmetic .mul)
  | .symbol .divide => some (.arithmetic .div)
  | .symbol .modulo => some (.arithmetic .rem)
  | .symbol .equal => some (.comparison .eq)
  | .symbol .notEqual => some (.comparison .ne)
  | .symbol .less => some (.comparison .lt)
  | .symbol .greater => some (.comparison .gt)
  | .symbol .lessEqual => some (.comparison .le)
  | .symbol .greaterEqual => some (.comparison .ge)
  | _ => none

end Kind

/-- A parser that reads a tape. -/
abbrev Descent := ExceptT Stop (StateM Tape)

namespace Descent

/-- The answer of a parser and the tape that it leaves, also when it fails. -/
def runOn {α : Type} (descent : Descent α) (tape : Tape) : Except Stop α × Tape :=
  Id.run (StateT.run (ExceptT.run descent) tape)

def tokenAt (index : Nat) : Descent Token := do
  match (← get).tokens[index]? with
  | some token => return token
  | none => throw .outside

/-- The token at the index. -/
def peek : Descent Token := do
  tokenAt (← get).index

/-- The token before the one that is looked at; the first token if there is none. -/
def previous : Descent Token := do
  tokenAt ((← get).index - 1)

def check (kind : Kind) : Descent Bool := do
  return (← peek).kind = kind

def atEnd : Descent Bool := check .eof

/-- The only way to move the index, by one token, and not at an end of the input. -/
def advance : Descent Token := do
  if ← atEnd then previous
  else
    set ((← get).forward 1)
    previous

def unexpected {α : Type} (expected : Expectation) : Descent α := do
  throw (.misfit (.ofToken expected (← peek)))

/-- Consumes a token of the kind, and fails at any other one (`consume`). -/
def expect (kind : Kind) (expected : Expectation) : Descent Token := do
  if ← check kind then advance else unexpected expected

/-- Consumes the current token if it has the kind (`match_any`). -/
def accept (kind : Kind) : Descent Bool := do
  if ← check kind then
    let _ ← advance
    return true
  else return false

def left : Descent Nat := do
  return (← get).left

/-! ### Loops -/

/-- One turn of a loop. -/
def progress {α : Type} (turn : Descent α) : Descent α := do
  let before := (← get).index
  let value ← turn
  if before < (← get).index then return value else throw .idle

/-- A loop: turns as long as `going` says so. -/
def whileDo {σ : Type} (going : Descent Bool) (turn : σ → Descent σ) :
    (turns : Nat) → (state : σ) → Descent σ
  | 0, state => do
    if ← going then throw .outOfTurns else return state
  | turns + 1, state => do
    if ← going then
      let next ← progress (turn state)
      whileDo going turn turns next
    else return state

/-- One item more behind the ones before. -/
def append {α : Type} (item : Descent α) (before : List α) : Descent (List α) := do
  let last ← item
  return before ++ [last]

/-- Items up to one that no comma follows, behind the ones before. -/
def commaSeparated {α : Type} (item : Descent α) :
    (turns : Nat) → (before : List α) → Descent (List α)
  | 0, _ => throw .outOfTurns
  | turns + 1, before => do
    let (last, more) ← progress do
      let last ← item
      let more ← accept (.symbol .comma)
      return (last, more)
    if more then commaSeparated item turns (before ++ [last]) else return before ++ [last]

/-! ### Expressions -/

/-- What may stand before an operator (`prefix`). -/
def operand (inner : Strength → Descent Expr) : Descent Expr := do
  let token ← peek
  match token.kind with
  | .intLiteral =>
    let _ ← advance
    match Numeral.int32? token.lexeme.toList with
    | some value => return .int token.position value
    | none => throw (.misfit (.integerRange token.lexeme token.position))
  | .floatLiteral =>
    let _ ← advance
    match Binary32.ofNumeral? token.lexeme.toList with
    | some value => return .float token.position value
    | none => throw (.misfit (.unexpectedToken .floatLiteral token))
  | .identifier =>
    let _ ← advance
    return .var token.position token.lexeme
  | .symbol .leftParen =>
    let _ ← advance
    let grouped ← inner .assignment
    let _ ← expect (.symbol .rightParen) .groupClose
    return grouped.moveTo token.position
  | .symbol .minus =>
    let _ ← advance
    let negated ← inner .negation
    return .negate token.position negated
  | _ => unexpected .expression

/-- The end of a call. That the callee is no lone name is noticed only here, behind the
arguments. -/
def callBehind (callee : Expr) (paren : Position) (arguments : List Expr) : Descent Expr := do
  let _ ← expect (.symbol .rightParen) .argsClose
  match callee with
  | .var position name => return .call position name arguments
  | _ => throw (.misfit (.callTarget paren))

/-- The arguments of a call whose opening parenthesis stands at `paren` (`finish_call`). -/
def finishCall (inner : Strength → Descent Expr) (callee : Expr) (paren : Position) :
    Descent Expr := do
  let arguments ←
    if ← check (.symbol .rightParen) then pure []
    else commaSeparated (inner .assignment) (← left) []
  callBehind callee paren arguments

/-- The current token as an operator behind `left`, with its right side (`infix`). -/
def operation (inner : Strength → Descent Expr) (left : Expr) : Descent Expr := do
  let operator ← advance
  match operator.kind with
  | .symbol .assign =>
    match left with
    | .var position target =>
      let value ← inner .assignment
      return .assign position target value
    | _ => throw (.misfit (.assignmentTarget operator.position))
  | .symbol .leftParen => finishCall inner left operator.position
  | kind =>
    match kind.binaryOp? with
    | some op =>
      let right ← inner kind.level.tighter
      return .binary left.position op left right
    | none => throw (.noBinaryOperator operator)

/-- Whether the current token binds what stands before it, at least as tightly as `least`. -/
def binds (least : Strength) : Descent Bool := do
  return least ≤ (← peek).kind.level

/-- An expression whose operators bind at least as tightly as `least`, at most `depth` calls deep
(`parse_precedence`). -/
def expressionOf : (depth : Nat) → (least : Strength) → Descent Expr
  | 0, _ => throw .tooDeep
  | depth + 1, least => do
    let first ← operand (expressionOf depth)
    whileDo (binds least) (operation (expressionOf depth)) (← left) first

def expression : Descent Expr := do
  expressionOf (← left) .assignment

/-! ### Statements -/

/-- An expression and a semicolon; an assignment that is the whole statement becomes a statement
(`parse_expression_statement`). -/
def expressionStatement (position : Position) : Descent Stmt := do
  let expr ← expression
  let _ ← expect (.symbol .semicolon) .statementEnd
  match expr with
  | .assign _ target value => return .assign position target value
  | expr => return .discard position expr

def printStatement (position : Position) : Descent Stmt := do
  let _ ← expect (.symbol .leftParen) .printOpen
  let value ← expression
  let _ ← expect (.symbol .rightParen) .printClose
  let _ ← expect (.symbol .semicolon) .printEnd
  return .print position value

def returnStatement (position : Position) : Descent Stmt := do
  let value ← if ← check (.symbol .semicolon) then pure none else some <$> expression
  let _ ← expect (.symbol .semicolon) .returnEnd
  return .return_ position value

def ifStatement (inner : Descent Stmt) (position : Position) : Descent Stmt := do
  let _ ← expect (.symbol .leftParen) .ifOpen
  let condition ← expression
  let _ ← expect (.symbol .rightParen) .ifClose
  let body ← inner
  if ← accept (.keyword .else_) then
    let alternative ← inner
    return .branch position condition body.asBlock (some alternative.asBlock)
  else return .branch position condition body.asBlock none

def whileStatement (inner : Descent Stmt) (position : Position) : Descent Stmt := do
  let _ ← expect (.symbol .leftParen) .whileOpen
  let condition ← expression
  let _ ← expect (.symbol .rightParen) .whileClose
  let body ← inner
  return .loop position condition body.asBlock

def insideBlock : Descent Bool := do
  if ← check (.symbol .rightBrace) then return false
  else
    let ended ← atEnd
    return !ended

/-- Statements up to a closing brace, which is consumed (`parse_block_body`). -/
def blockBodyOf (inner : Descent Stmt) : Descent Block := do
  let statements ← whileDo insideBlock (append inner) (← left) []
  let _ ← expect (.symbol .rightBrace) .blockClose
  return statements

/-- The statement that starts at the current token, at most `depth` calls deep
(`parse_statement`). -/
def statementOf : (depth : Nat) → Descent Stmt
  | 0 => throw .tooDeep
  | depth + 1 => do
    let first ← peek
    match first.kind with
    | .keyword .if_ =>
      let _ ← advance
      ifStatement (statementOf depth) first.position
    | .keyword .while_ =>
      let _ ← advance
      whileStatement (statementOf depth) first.position
    | .keyword .print =>
      let _ ← advance
      printStatement first.position
    | .keyword .return_ =>
      let _ ← advance
      returnStatement first.position
    | .symbol .leftBrace =>
      let _ ← advance
      let body ← blockBodyOf (statementOf depth)
      return .block first.position body
    | _ => expressionStatement first.position

def statement : Descent Stmt := do
  statementOf (← left)

def blockBody : Descent Block := do
  blockBodyOf (statementOf (← left))

/-! ### Functions and programs -/

def param : Descent Param := do
  let name ← expect .identifier .paramName
  return ⟨name.lexeme, name.position⟩

/-- What follows the parameters. -/
def functionBehind (keyword name : Token) (params : List Param) : Descent Function := do
  let _ ← expect (.symbol .rightParen) .paramsClose
  let _ ← expect (.symbol .leftBrace) .bodyOpen
  let body ← blockBody
  return ⟨name.lexeme, params, body, keyword.position⟩

/-- A whole function (`parse_function`). -/
def function : Descent Function := do
  let keyword ← expect (.keyword .function) .function
  let name ← expect .identifier .functionName
  let _ ← expect (.symbol .leftParen) .paramsOpen
  let params ←
    if ← check (.symbol .rightParen) then pure []
    else commaSeparated param (← left) []
  functionBehind keyword name params

def insideProgram : Descent Bool := do
  let ended ← atEnd
  return !ended

/-- What may stand outside a function: another function and nothing else. -/
def topLevel : Descent Function := do
  if ← check (.keyword .function) then function else unexpected .topLevel

/-- Functions up to the end of the input (`parse_program`). -/
def program : Descent Program := do
  let functions ← whileDo insideProgram (append topLevel) (← left) []
  return ⟨functions⟩

end Descent

open ImpStack.Parser (Entry Tree)

def Parser.Entry.descent : Entry → Descent Tree
  | program => .program <$> Descent.program
  | function => .function <$> Descent.function
  | blockBody => .block <$> Descent.blockBody
  | statement => .statement <$> Descent.statement
  | expression => .expression <$> Descent.expression

namespace Tape

def call (tape : Tape) (entry : Entry) : Except Stop Tree × Tape := entry.descent.runOn tape

/-- The answers of calls one after another, whether they fail or not, and the tape behind them. -/
def callAll (tape : Tape) : List Entry → List (Except Stop Tree) × Tape
  | [] => ([], tape)
  | entry :: entries =>
    let (answer, reached) := tape.call entry
    let (answers, last) := reached.callAll entries
    (answer :: answers, last)

end Tape

end ImpStack

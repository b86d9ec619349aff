import ImpStack.Binary32.Numeral
import ImpStack.Syntax.Error
import ImpStack.Syntax.Strength
import ImpStack.Syntax.Tree

/-!
Recursive descent from tokens to trees. A parser stops at the first token that does not fit; the
tokens before it stay consumed, so that several parsers may run one after another on the same
tokens.

Embeds the parser of SPEC_FULL, section 4.2, as what it makes of the tokens ahead: `program`,
`function`, `statement`, `blockBody` and `expression` are its `parse_program`, `parse_function`,
`parse_statement`, `parse_block_body` and `parse_expression`, and `expressionOf`, `operand` and
`operation` its `parse_precedence`, `prefix` and `infix`. The parser as it works, on an index into
the list and with loops, is `Descent`.

The recursive parsers count their turns down. The counts they start with are larger than the number
of turns that the remaining tokens allow, so the answer for no turns is never given.
-/
namespace ImpStack

/-- The tokens that have not been consumed. Behind the last of them the input ends, as often as it
is asked. -/
structure Tokens where
  ahead : List Token
  /-- The place of the end of the input. -/
  finish : Position
  not_eof : ∀ token ∈ ahead, token.kind ≠ .eof

namespace Tokens

/-- The tokens before the first end of the input. A list without one ends behind its last token. -/
def ofList (tokens : List Token) : Tokens where
  ahead := tokens.takeWhile (!·.isEof)
  finish :=
    match tokens.find? Token.isEof with
    | some token => token.position
    | none => tokens.getLast?.elim .start Token.behind
  not_eof := fun token mem => by
    have := List.all_takeWhile (p := (!·.isEof)) (l := tokens)
    simpa [Token.isEof] using List.all_eq_true.mp this token mem

/-- The token that is looked at. -/
def current (tokens : Tokens) : Token := tokens.ahead.headD (.eofAt tokens.finish)

def advance (tokens : Tokens) : Tokens where
  ahead := tokens.ahead.tail
  finish := tokens.finish
  not_eof := fun token mem => tokens.not_eof token (List.mem_of_mem_tail mem)

end Tokens

abbrev Parser := ExceptT SyntaxError (StateM Tokens)

namespace Parser

/-- The answer of a parser and the tokens it leaves. -/
def runOn {α : Type} (parser : Parser α) (tokens : Tokens) : Except SyntaxError α × Tokens :=
  Id.run (StateT.run (ExceptT.run parser) tokens)

def peek : Parser Token := do
  return (← get).current

/-- Consumes the current token; at the end nothing changes. -/
def advance : Parser Token := do
  let tokens ← get
  set tokens.advance
  return tokens.current

def unexpected {α : Type} (expected : Expectation) : Parser α := do
  throw (.ofToken expected (← peek))

def expect (kind : Kind) (expected : Expectation) : Parser Token := do
  if (← peek).kind = kind then advance else unexpected expected

/-- Consumes the current token if it is `sign`. -/
def accept (sign : Symbol) : Parser Bool := do
  if (← peek).kind = .symbol sign then
    let _ ← advance
    return true
  else return false

def intLiteral : Parser Expr := do
  let token ← advance
  match Numeral.int32? token.lexeme.toList with
  | some value => return .int token.position value
  | none => throw (.integerRange token.lexeme token.position)

def floatLiteral : Parser Expr := do
  let token ← advance
  match Binary32.ofNumeral? token.lexeme.toList with
  | some value => return .float token.position value
  | none => throw (.unexpectedToken .floatLiteral token)

mutual

/-- An expression whose operators outside parentheses all bind at least as tightly as `least`. -/
def expressionOf : (turns : Nat) → (least : Strength) → Parser Expr
  | 0, _ => unexpected .expression
  | turns + 1, least => do
    let left ← operand turns
    operators turns least left

/-- What may stand before an operator. -/
def operand : (turns : Nat) → Parser Expr
  | 0 => unexpected .expression
  | turns + 1 => do
    let token ← peek
    match token.kind with
    | .intLiteral => intLiteral
    | .floatLiteral => floatLiteral
    | .identifier =>
      let _ ← advance
      return .var token.position token.lexeme
    | .symbol .leftParen =>
      let _ ← advance
      let inner ← expressionOf turns .assignment
      let _ ← expect (.symbol .rightParen) .groupClose
      return inner.moveTo token.position
    | .symbol .minus =>
      let _ ← advance
      return .negate token.position (← expressionOf turns .negation)
    | _ => unexpected .expression

/-- The operators that follow `left` and bind at least as tightly as `least`, with their right
sides. -/
def operators : (turns : Nat) → (least : Strength) → (left : Expr) → Parser Expr
  | 0, _, left => return left
  | turns + 1, least, left => do
    match (← peek).kind.operator? with
    | none => return left
    | some op =>
      if least ≤ op.strength then
        let whole ← operation turns op left
        operators turns least whole
      else return left

/-- The current token as the operator `op`, with its right side. Operators of equal strength group
from the left, assignments from the right. -/
def operation : (turns : Nat) → (op : Operator) → (left : Expr) → Parser Expr
  | 0, _, _ => unexpected .expression
  | turns + 1, .assign, left => do
    let sign ← advance
    match left with
    | .var position target => return .assign position target (← expressionOf turns .assignment)
    | _ => throw (.assignmentTarget sign.position)
  | turns + 1, .call, left => do
    let paren ← advance
    let arguments ←
      if (← peek).kind = .symbol .rightParen then pure [] else args turns
    let _ ← expect (.symbol .rightParen) .argsClose
    match left with
    | .var position callee => return .call position callee arguments
    | _ => throw (.callTarget paren.position)
  | turns + 1, .binary op, left => do
    let _ ← advance
    let right ← expressionOf turns (Operator.binary op).strength.tighter
    return .binary left.position op left right

/-- One expression or more, with commas between them. -/
def args : (turns : Nat) → Parser (List Expr)
  | 0 => unexpected .expression
  | turns + 1 => do
    let arg ← expressionOf turns .assignment
    if ← accept .comma then return arg :: (← args turns) else return [arg]

end

def expression : Parser Expr := do
  expressionOf (4 * ((← get).ahead.length + 1)) .assignment

/-- An expression and a semicolon. An assignment that is a whole statement is a statement of its
own. -/
def expressionStatement (position : Position) : Parser Stmt := do
  let expr ← expression
  let _ ← expect (.symbol .semicolon) .statementEnd
  match expr with
  | .assign _ target value => return .assign position target value
  | expr => return .discard position expr

def printStatement (position : Position) : Parser Stmt := do
  let _ ← expect (.symbol .leftParen) .printOpen
  let value ← expression
  let _ ← expect (.symbol .rightParen) .printClose
  let _ ← expect (.symbol .semicolon) .printEnd
  return .print position value

def returnStatement (position : Position) : Parser Stmt := do
  let value ←
    if (← peek).kind = .symbol .semicolon then pure none else some <$> expression
  let _ ← expect (.symbol .semicolon) .returnEnd
  return .return_ position value

mutual

/-- The statement that starts at the current token. The body of a branch or a loop that is no block
is taken as a block of one statement. -/
def statementIn : (turns : Nat) → Parser Stmt
  | 0 => unexpected .expression
  | turns + 1 => do
    let first ← peek
    match first.kind with
    | .keyword .if_ =>
      let _ ← advance
      let _ ← expect (.symbol .leftParen) .ifOpen
      let condition ← expression
      let _ ← expect (.symbol .rightParen) .ifClose
      let body ← statementIn turns
      if (← peek).kind = .keyword .else_ then
        let _ ← advance
        let alternative ← statementIn turns
        return .branch first.position condition body.asBlock (some alternative.asBlock)
      else return .branch first.position condition body.asBlock none
    | .keyword .while_ =>
      let _ ← advance
      let _ ← expect (.symbol .leftParen) .whileOpen
      let condition ← expression
      let _ ← expect (.symbol .rightParen) .whileClose
      let body ← statementIn turns
      return .loop first.position condition body.asBlock
    | .keyword .print =>
      let _ ← advance
      printStatement first.position
    | .keyword .return_ =>
      let _ ← advance
      returnStatement first.position
    | .symbol .leftBrace =>
      let _ ← advance
      return .block first.position (← blockBodyIn turns)
    | _ => expressionStatement first.position

/-- Statements up to a closing brace, which is consumed. -/
def blockBodyIn : (turns : Nat) → Parser Block
  | 0 => unexpected .blockClose
  | turns + 1 => do
    let next ← peek
    if next.kind = .symbol .rightBrace ∨ next.kind = .eof then
      let _ ← expect (.symbol .rightBrace) .blockClose
      return []
    else
      let statement ← statementIn turns
      return statement :: (← blockBodyIn turns)

end

/-- One statement of any form. -/
def statement : Parser Stmt := do
  statementIn (2 * ((← get).ahead.length + 1))

/-- What stands behind the opening brace of a block, up to the closing one. -/
def blockBody : Parser Block := do
  blockBodyIn (2 * ((← get).ahead.length + 1))

/-- One parameter or more, with commas between them. -/
def paramsIn : (turns : Nat) → Parser (List Param)
  | 0 => unexpected .paramName
  | turns + 1 => do
    let name ← expect .identifier .paramName
    let param : Param := ⟨name.lexeme, name.position⟩
    if ← accept .comma then return param :: (← paramsIn turns) else return [param]

/-- A function with its name, its parameters and its body. -/
def function : Parser Function := do
  let keyword ← expect (.keyword .function) .function
  let name ← expect .identifier .functionName
  let _ ← expect (.symbol .leftParen) .paramsOpen
  let params ←
    if (← peek).kind = .symbol .rightParen then pure []
    else paramsIn ((← get).ahead.length + 1)
  let _ ← expect (.symbol .rightParen) .paramsClose
  let _ ← expect (.symbol .leftBrace) .bodyOpen
  let body ← blockBody
  return ⟨name.lexeme, params, body, keyword.position⟩

/-- Functions up to the end of the input. -/
def functionsIn : (turns : Nat) → Parser (List Function)
  | 0 => return []
  | turns + 1 => do
    let next ← peek
    if next.kind = .eof then return []
    else if next.kind = .keyword .function then
      let first ← function
      return first :: (← functionsIn turns)
    else unexpected .topLevel

def program : Parser Program := do
  return ⟨← functionsIn ((← get).ahead.length + 1)⟩

end Parser

def Program.ofTokens (tokens : List Token) : Except SyntaxError Program :=
  (Parser.program.runOn (.ofList tokens)).1

end ImpStack

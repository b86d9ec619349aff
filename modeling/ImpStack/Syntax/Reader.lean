import ImpStack.Syntax.Parser

/-!
A list of tokens that several parsers read one after another. What a parser consumes stays consumed,
also when it fails; the next one goes on behind it. The functions of the parser that are open to its
users are the entries: `parse_program`, `parse_function`, `parse_block_body`, `parse_statement` and
`parse_expression` (SPEC_FULL, section 4.2).
-/
namespace ImpStack

namespace Parser

/-- The parsers that may be called one after another. -/
inductive Entry where
  | program | function | blockBody | statement | expression
  deriving DecidableEq, Repr

/-- What a parser that succeeds yields. -/
inductive Tree where
  | program (tree : Program)
  | function (tree : Function)
  | block (tree : Block)
  | statement (tree : Stmt)
  | expression (tree : Expr)
  deriving Repr

def Entry.parser : Entry → Parser Tree
  | program => .program <$> Parser.program
  | function => .function <$> Parser.function
  | blockBody => .block <$> Parser.blockBody
  | statement => .statement <$> Parser.statement
  | expression => .expression <$> Parser.expression

end Parser

/-- A list of tokens, the last of which is an end of the input, and the index of the token that is
looked at. -/
structure Reader where
  tokens : List Token
  index : Nat
  ends : tokens.getLast?.any Token.isEof = true
  index_lt : index < tokens.length

namespace Reader

open ImpStack.Parser (Entry Tree)

/-- A list whose last token is no end of the input gets one behind it. -/
def ofList (tokens : List Token) : Reader :=
  if ends : tokens.getLast?.any Token.isEof = true then
    { tokens, index := 0, ends
      index_lt := by cases tokens with
        | nil => cases ends
        | cons => exact Nat.succ_pos _ }
  else
    { tokens := tokens ++ [.eofAt (tokens.getLast?.elim .start Token.behind)]
      index := 0
      ends := by simp [Token.eofAt, Token.isEof]
      index_lt := by simp }

/-- The token that is looked at. -/
def current (reader : Reader) : Token := reader.tokens.get ⟨reader.index, reader.index_lt⟩

/-- An end of the input is not left behind, wherever in the list it stands. -/
def advance (reader : Reader) : Reader :=
  if ended : reader.current.isEof = true then reader
  else
    { reader with
      index := reader.index + 1
      index_lt := by
        have lt := reader.index_lt
        have other : reader.index ≠ reader.tokens.length - 1 := by
          intro last
          have ends := reader.ends
          rw [List.getLast?_eq_getElem?, ← last, List.getElem?_eq_getElem lt] at ends
          exact ended ends
        omega }

def skip (reader : Reader) : (count : Nat) → Reader
  | 0 => reader
  | count + 1 => reader.advance.skip count

/-- The tokens that a parser works on. -/
def rest (reader : Reader) : Tokens := .ofList (reader.tokens.drop reader.index)

/-- The answer of a parser, and the reader behind the tokens that it has consumed. -/
def read (reader : Reader) (entry : Entry) : Except SyntaxError Tree × Reader :=
  let (answer, left) := entry.parser.runOn reader.rest
  (answer, reader.skip (reader.rest.ahead.length - left.ahead.length))

/-- The answers of several parsers, each of which goes on where the one before it has stopped. -/
def readAll (reader : Reader) : List Entry → List (Except SyntaxError Tree) × Reader
  | [] => ([], reader)
  | entry :: entries =>
    let (answer, reached) := reader.read entry
    let (answers, last) := reached.readAll entries
    (answer :: answers, last)

/-- The answers of several parsers, and the index at which the last of them stops. -/
def outcome (reader : Reader) (entries : List Entry) : List (Except SyntaxError Tree) × Nat :=
  ((reader.readAll entries).1, (reader.readAll entries).2.index)

end Reader

end ImpStack

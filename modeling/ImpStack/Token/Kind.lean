/-!
The kinds of tokens, how each is spelled and how diagnostics call it. Keywords and symbols are the
tables of SPEC_FULL, section 4.1.
-/
namespace ImpStack

inductive Keyword where
  | int | float | if_ | else_ | while_ | function | return_ | print
  deriving DecidableEq, Repr

namespace Keyword

def all : List Keyword := [int, float, if_, else_, while_, function, return_, print]

def spelling : Keyword → String
  | int => "int"
  | float => "float"
  | if_ => "if"
  | else_ => "else"
  | while_ => "while"
  | function => "function"
  | return_ => "return"
  | print => "print"

theorem mem_all (keyword : Keyword) : keyword ∈ all := by
  cases keyword <;> decide

end Keyword

/-- Operators and punctuation. -/
inductive Symbol where
  | plus | minus | times | divide | modulo | assign
  | equal | notEqual | less | greater | lessEqual | greaterEqual
  | leftParen | rightParen | leftBrace | rightBrace | semicolon | comma
  deriving DecidableEq, Repr

namespace Symbol

def all : List Symbol :=
  [plus, minus, times, divide, modulo, assign, equal, notEqual, less, greater, lessEqual,
   greaterEqual, leftParen, rightParen, leftBrace, rightBrace, semicolon, comma]

def spelling : Symbol → String
  | plus => "+"
  | minus => "-"
  | times => "*"
  | divide => "/"
  | modulo => "%"
  | assign => "="
  | equal => "=="
  | notEqual => "!="
  | less => "<"
  | greater => ">"
  | lessEqual => "<="
  | greaterEqual => ">="
  | leftParen => "("
  | rightParen => ")"
  | leftBrace => "\x7b"
  | rightBrace => "\x7d"
  | semicolon => ";"
  | comma => ","

theorem mem_all (sign : Symbol) : sign ∈ all := by
  cases sign <;> decide

end Symbol

inductive Kind where
  | intLiteral | floatLiteral | identifier
  | keyword (word : Keyword)
  | symbol (sign : Symbol)
  /-- The end of the input. -/
  | eof
  /-- A character that starts no token. -/
  | invalid
  deriving DecidableEq, Repr

namespace Kind

def describe : Kind → String
  | .intLiteral => "integer literal"
  | .floatLiteral => "float literal"
  | .identifier => "identifier"
  | .keyword word => s!"'{word.spelling}'"
  | .symbol sign => s!"'{sign.spelling}'"
  | .eof => "end of input"
  | .invalid => "invalid character"

end Kind

end ImpStack

import ImpStack.Source.Position
import ImpStack.Token.Kind

/-!
Tokens: a kind, the text it was read from and the place of its first character (SPEC_FULL, section
3). Two tokens are equal if all of these are.
-/
namespace ImpStack

structure Token where
  kind : Kind
  lexeme : String
  position : Position
  deriving DecidableEq, Repr

namespace Token

/-- Whether the token stands for the end of the input. -/
def isEof (token : Token) : Bool := token.kind = .eof

/-- The end of the input at `position`; it has no text. -/
def eofAt (position : Position) : Token := ⟨.eof, "", position⟩

/-- The column behind the token, on its own line. -/
def behind (token : Token) : Position :=
  ⟨token.position.line, token.position.column + token.lexeme.length⟩

end Token

end ImpStack

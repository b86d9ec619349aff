import ImpStack.Token.Basic

/-!
What can be wrong with a text as a sequence of tokens: the syntax errors of SPEC_FULL, section 7,
with the texts of their messages.
-/
namespace ImpStack

/-- What the grammar asks for at a place where something else stands. -/
inductive Expectation where
  | topLevel
  | function | functionName | paramsOpen | paramName | paramsClose | bodyOpen | blockClose
  | ifOpen | ifClose | whileOpen | whileClose | printOpen | printClose | printEnd | returnEnd
  | statementEnd | groupClose | argsClose | expression | floatLiteral
  deriving DecidableEq, Repr

def Expectation.describe : Expectation → String
  | topLevel => "'function' at top level"
  | function => "'function'"
  | functionName => "function name after 'function'"
  | paramsOpen => "'(' after function name"
  | paramName => "parameter name"
  | paramsClose => "')' after parameters"
  | bodyOpen => "'\x7b' before function body"
  | blockClose => "'\x7d' after block"
  | ifOpen => "'(' after 'if'"
  | ifClose => "')' after if condition"
  | whileOpen => "'(' after 'while'"
  | whileClose => "')' after while condition"
  | printOpen => "'(' after 'print'"
  | printClose => "')' after value"
  | printEnd => "';' after print statement"
  | returnEnd => "';' after return value"
  | statementEnd => "';' after expression or assignment"
  | groupClose => "')' after expression"
  | argsClose => "')' after arguments"
  | expression => "expression"
  | floatLiteral => "float literal"

inductive SyntaxError where
  | unexpectedToken (expected : Expectation) (found : Token)
  | unexpectedEnd (expected : Expectation) (position : Position)
  /-- Something other than a variable before `=`. -/
  | assignmentTarget (position : Position)
  /-- Something other than a name before an argument list. -/
  | callTarget (position : Position)
  | integerRange (lexeme : String) (position : Position)
  | invalidToken (lexeme : String) (position : Position)
  deriving DecidableEq, Repr

namespace SyntaxError

/-- The error when `found` stands where `expected` is asked for. A character that starts no token
is reported as such, whatever was expected. -/
def ofToken (expected : Expectation) (found : Token) : SyntaxError :=
  match found.kind with
  | .eof => .unexpectedEnd expected found.position
  | .invalid => .invalidToken found.lexeme found.position
  | _ => .unexpectedToken expected found

def position : SyntaxError → Position
  | unexpectedToken _ found => found.position
  | unexpectedEnd _ position => position
  | assignmentTarget position => position
  | callTarget position => position
  | integerRange _ position => position
  | invalidToken _ position => position

def message : SyntaxError → String
  | unexpectedToken expected found =>
    s!"expected {expected.describe}, found '{found.lexeme}' ({found.kind.describe})" ++
      s!" at {found.position.text}"
  | unexpectedEnd expected position =>
    s!"expected {expected.describe} but reached end of input at {position.text}"
  | assignmentTarget position =>
    s!"invalid assignment target at {position.text}; only a variable can be assigned"
  | callTarget position =>
    s!"invalid call target at {position.text}; only a named function can be called"
  | integerRange lexeme position =>
    s!"integer literal '{lexeme}' does not fit in 32 bits at {position.text}"
  | invalidToken lexeme position => s!"invalid character '{lexeme}' at {position.text}"

end SyntaxError

end ImpStack

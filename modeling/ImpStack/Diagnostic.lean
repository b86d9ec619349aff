import ImpStack.Compile
import ImpStack.Source.Line

/-!
How a compile error is shown: a head line, the character of the source that is marked, and a label
at the mark. Embeds `report` and `label_message` (SPEC_FULL, section 7); the layout of the report
around them belongs to the viewer and is not modelled further.
-/
namespace ImpStack

namespace Terminal

/-- The sequence that switches a terminal to a style; zero is the plain one. -/
def style (codes : String) : String := s!"\x1b[{codes}m"

def plain : String := style "0"

def red (text : String) : String := style "31" ++ text ++ plain

def boldGreen (text : String) : String := style "1;32" ++ text ++ plain

/-- Bold text in a colour, which is switched off once for each of the two. -/
def bold (colour text : String) : String := style "1" ++ style colour ++ text ++ plain ++ plain

def boldBlue (text : String) : String := bold "34" text

def boldBrightRed (text : String) : String := bold "91" text

end Terminal

namespace SyntaxError

def label : SyntaxError → String
  | unexpectedToken expected found =>
    s!"expected {expected.describe} here, found " ++ Terminal.boldBrightRed found.lexeme
  | unexpectedEnd expected _ => s!"expected {expected.describe} before the end of input"
  | invalidToken lexeme _ => Terminal.boldBrightRed lexeme ++ " is not part of the language"
  | assignmentTarget _ => "here"
  | callTarget _ => "here"
  | integerRange _ _ => "here"

end SyntaxError

namespace ScopeError

def label (error : ScopeError) : String :=
  let name := Terminal.boldBlue error.name
  match error with
  | undeclaredVariable .. => name ++ " is read before any assignment"
  | uninitializedVariable .. => name ++ " has no value yet"
  | redeclared .. => name ++ " is declared again here"
  | undeclaredFunction .. => "no function named " ++ name
  | functionAsValue .. => name ++ " is a function"

end ScopeError

namespace LoweringError

def label : LoweringError → String
  | arityMismatch name expected _ _ => Terminal.boldBlue name ++ s!" expects {expected} argument(s)"
  | error => error.message

end LoweringError

namespace CompileError

def label : CompileError → String
  | grammar error => error.label
  | scope error => error.label
  | lowering error => error.label

def head (error : CompileError) : String :=
  Terminal.red s!"[{error.code}] Error:" ++ " " ++ error.message

/-- The character of `source` to mark. -/
def span (error : CompileError) (source : String) : Span := .ofPosition source error.position

/-- The head line, the place in `file` and the label. -/
def report (error : CompileError) (file : String) : String :=
  s!"{error.head}\n  {file}:{error.position.text}: {error.label}\n"

end CompileError

end ImpStack

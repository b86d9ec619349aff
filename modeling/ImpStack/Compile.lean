import ImpStack.Code.Lowering
import ImpStack.Scope.Check
import ImpStack.Syntax.Parser
import ImpStack.Token.Lexer

/-!
From source text to code. The first error of the first stage that finds one ends the compilation
(SPEC_FULL, section 7). Embeds `compile`, which reads, checks and generates, with the union of the
errors of the stages; there is no artifact behind an error.
-/
namespace ImpStack

inductive CompileError where
  | grammar (error : SyntaxError)
  | scope (error : ScopeError)
  | lowering (error : LoweringError)
  deriving DecidableEq, Repr

namespace CompileError

def code : CompileError → String
  | grammar _ => "E-syntax"
  | scope _ => "E-semantic"
  | lowering _ => "E-codegen"

def message : CompileError → String
  | grammar error => error.message
  | scope error => error.message
  | lowering error => error.message

def position : CompileError → Position
  | grammar error => error.position
  | scope error => error.position
  | lowering error => error.position

end CompileError

def Program.ofSource (source : String) : Except SyntaxError Program :=
  Program.ofTokens (Token.listOf source)

namespace Assembly

/-- The name of the assembly of a source file. -/
def defaultName : String := "Main"

/-- Reads, checks and lowers `source`; the assembly is called `name`. -/
def ofSource (name source : String) : Except CompileError Assembly := do
  let program ← (Program.ofSource source).mapError .grammar
  program.check.mapError .scope
  (Assembly.ofProgram name program).mapError .lowering

end Assembly

end ImpStack

import ImpStack.Binary32.Text
import ImpStack.Syntax.Tree

/-!
Trees as text in parentheses. An expression stands on one line; every statement of a block has a
line of its own, indented by two blanks a level. Places are left out. Embeds `expr_to_string` and
`program_to_string` with the printer behind them, which the command line shows on request
(SPEC_FULL, section 6).
-/
namespace ImpStack

mutual

def Expr.text : Expr → String
  | .int _ value => toString value.toInt
  | .float _ value => Binary32.text .exact value
  | .var _ name => name
  | .binary _ op left right => s!"({op.spelling} {left.text} {right.text})"
  | .negate _ operand => s!"(- {operand.text})"
  | .call _ callee args => s!"(call {callee}" ++ Expr.argsText args ++ ")"
  | .assign _ target value => s!"(= {target} {value.text})"
termination_by structural expr => expr

/-- Every argument with a blank before it. -/
def Expr.argsText : List Expr → String
  | [] => ""
  | arg :: args => " " ++ arg.text ++ Expr.argsText args
termination_by structural args => args

end

/-- A new line at an indentation level. -/
def newLine (level : Nat) : String := "\n" ++ "".pushn ' ' (2 * level)

/-- A block around its lines. -/
def blockText (lines : String) : String := "(block" ++ lines ++ ")"

mutual

/-- The statement as it stands at an indentation level. -/
def Stmt.text (level : Nat) : Stmt → String
  | .assign _ target value => s!"(= {target} {value.text})"
  | .discard _ value => s!"(expr-stmt {value.text})"
  | .print _ value => s!"(print {value.text})"
  | .branch _ condition body none =>
    s!"(if {condition.text}" ++ newLine (level + 1) ++
      blockText (Stmt.linesText (level + 2) body) ++ ")"
  | .branch _ condition body (some alternative) =>
    s!"(if-else {condition.text}" ++ newLine (level + 1) ++
      blockText (Stmt.linesText (level + 2) body) ++ newLine (level + 1) ++
      blockText (Stmt.linesText (level + 2) alternative) ++ ")"
  | .loop _ condition body =>
    s!"(while {condition.text}" ++ newLine (level + 1) ++
      blockText (Stmt.linesText (level + 2) body) ++ ")"
  | .return_ _ none => "(return)"
  | .return_ _ (some value) => s!"(return {value.text})"
  | .block _ body => blockText (Stmt.linesText (level + 1) body)
termination_by structural statement => statement

/-- Every statement on a line of its own, the first one included. -/
def Stmt.linesText (level : Nat) : List Stmt → String
  | [] => ""
  | statement :: body => newLine level ++ statement.text level ++ Stmt.linesText level body
termination_by structural body => body

end

def Function.text (function : Function) : String :=
  let params := " ".intercalate (function.params.map Param.name)
  s!"(fun {function.name} ({params})" ++ newLine 2 ++
    blockText (Stmt.linesText 3 function.body) ++ ")"

def Program.text (program : Program) : String :=
  "(program" ++ String.join (program.functions.map fun f => newLine 1 ++ f.text) ++ ")"

end ImpStack

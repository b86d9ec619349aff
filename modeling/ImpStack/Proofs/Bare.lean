import ImpStack.Compile

/-!
Trees, tokens and errors without their places. What is left of them is what a text says, apart from
where it says it.

Two texts, or two stages of one compilation, are compared by what is bare in them: that trees are
alike up to places is said as `left.bare = right.bare`.
-/
namespace ImpStack

/-! ### Tokens and trees -/

/-- The token with its kind and lexeme alone. -/
def Token.bare (token : Token) : Token := { token with position := .start }

/-- Apart from its place a token is its kind and its lexeme. -/
theorem Token.bare_eq_iff {left right : Token} :
    left.bare = right.bare ↔ left.kind = right.kind ∧ left.lexeme = right.lexeme := by
  simp [bare]

mutual

/-- The expression with every position at the start of a text. -/
def Expr.bare : Expr → Expr
  | .int _ value => .int .start value
  | .float _ value => .float .start value
  | .var _ name => .var .start name
  | .binary _ op left right => .binary .start op left.bare right.bare
  | .negate _ operand => .negate .start operand.bare
  | .call _ callee args => .call .start callee (Expr.bareAll args)
  | .assign _ target value => .assign .start target value.bare
termination_by structural expr => expr

def Expr.bareAll : List Expr → List Expr
  | [] => []
  | first :: rest => first.bare :: Expr.bareAll rest
termination_by structural exprs => exprs

end

mutual

/-- The statement with every position at the start of a text. -/
def Stmt.bare : Stmt → Stmt
  | .assign _ target value => .assign .start target value.bare
  | .discard _ value => .discard .start value.bare
  | .print _ value => .print .start value.bare
  | .branch _ condition body none => .branch .start condition.bare (Stmt.bareAll body) none
  | .branch _ condition body (some alternative) =>
    .branch .start condition.bare (Stmt.bareAll body) (some (Stmt.bareAll alternative))
  | .loop _ condition body => .loop .start condition.bare (Stmt.bareAll body)
  | .return_ _ value => .return_ .start (value.map Expr.bare)
  | .block _ body => .block .start (Stmt.bareAll body)
termination_by structural statement => statement

def Stmt.bareAll : List Stmt → List Stmt
  | [] => []
  | first :: rest => first.bare :: Stmt.bareAll rest
termination_by structural body => body

end

def Param.bare (param : Param) : Param := { param with position := .start }

/-- Names, parameters and the body keep what they say and lose where they say it. -/
def Function.bare (function : Function) : Function where
  name := function.name
  params := function.params.map Param.bare
  body := Stmt.bareAll function.body
  position := .start

def Program.bare (program : Program) : Program := ⟨program.functions.map Function.bare⟩

/-! ### Errors -/

namespace SyntaxError

/-- An error without its place. What it found instead is a token without its place. -/
def bare : SyntaxError → SyntaxError
  | .unexpectedToken expected found => .unexpectedToken expected found.bare
  | .unexpectedEnd expected _ => .unexpectedEnd expected .start
  | .assignmentTarget _ => .assignmentTarget .start
  | .callTarget _ => .callTarget .start
  | .integerRange lexeme _ => .integerRange lexeme .start
  | .invalidToken lexeme _ => .invalidToken lexeme .start

end SyntaxError

namespace ScopeError

/-- An error of the check keeps the name that it is about. -/
def bare : ScopeError → ScopeError
  | .undeclaredVariable name _ => .undeclaredVariable name .start
  | .uninitializedVariable name _ => .uninitializedVariable name .start
  | .redeclared name _ => .redeclared name .start
  | .undeclaredFunction name _ => .undeclaredFunction name .start
  | .functionAsValue name _ => .functionAsValue name .start

end ScopeError

namespace LoweringError

/-- An error of the lowering keeps the name and the numbers of arguments. -/
def bare : LoweringError → LoweringError
  | .unknownVariable name _ => .unknownVariable name .start
  | .unknownFunction name _ => .unknownFunction name .start
  | .arityMismatch name expected found _ => .arityMismatch name expected found .start

end LoweringError

namespace CompileError

/-- The error of any stage without its place. -/
def bare : CompileError → CompileError
  | .grammar error => .grammar error.bare
  | .scope error => .scope error.bare
  | .lowering error => .lowering error.bare

end CompileError

/-! ### How trees are built -/

namespace Expr

/-- To move an expression is to change a place of it. -/
theorem bare_moveTo (position : Position) (e : Expr) : (e.moveTo position).bare = e.bare := by
  cases e <;> rfl

/-- Of two expressions that differ in their places only, both are the same variable or none is
one. -/
theorem var_or_not_var {left right : Expr} (same : left.bare = right.bare) :
    (∃ here there name, left = .var here name ∧ right = .var there name) ∨
      (∀ position name, left ≠ .var position name) ∧
        ∀ position name, right ≠ .var position name := by
  cases left with
  | var here name =>
    cases right with
    | var there other =>
      simp only [bare, var.injEq, true_and] at same
      exact .inl ⟨here, there, name, rfl, same ▸ rfl⟩
    | _ => simp [bare] at same
  | _ =>
    refine .inr ⟨by simp, ?_⟩
    rintro position name rfl
    simp [bare] at same

end Expr

/-- A statement is made a block by its shape alone. -/
theorem Stmt.bareAll_asBlock (statement : Stmt) :
    Stmt.bareAll statement.asBlock = statement.bare.asBlock := by
  cases statement with
  | branch position condition body alternative => cases alternative <;> rfl
  | _ => rfl

end ImpStack

import ImpStack.Proofs.Bare

/-!
The check and the lowering look at no places: on a tree without its places they do what they do on
the tree, up to the place that an error carries (`Program.check_bare`, `Assembly.ofProgram_bare`).

Every lemma has one form: a stage on the bare phrase is the stage on the phrase, with its error made
bare. The frames, slots and code that come out of it are the same ones, as they hold no place.
-/
namespace ImpStack

section Results

variable {ε δ α β : Type} {convert : ε → δ}

theorem mapError_pure (value : α) :
    (pure value : Except ε α).mapError convert = pure value := rfl

/-- A computation in two steps fails with the error of the step that fails. -/
theorem mapError_bind (step : Except ε α) (next : α → Except ε β) :
    (step >>= next).mapError convert =
      step.mapError convert >>= fun value => (next value).mapError convert := by
  cases step <;> rfl

theorem forM_map_mapError {γ : Type} {steps : γ → Except ε Unit} {others : β → Except δ Unit}
    {change : γ → β} (same : ∀ item, others (change item) = (steps item).mapError convert)
    (items : List γ) : (items.map change).forM others = (items.forM steps).mapError convert := by
  induction items with
  | nil => rfl
  | cons item items ih =>
    show (do others (change item); (items.map change).forM others) =
      (do steps item; items.forM steps).mapError convert
    rw [mapError_bind, same, ih]

/-- Of computations that fail alike item by item, the first failure is the same. -/
theorem mapM_map_mapError {γ : Type} {steps : γ → Except ε α} {others : β → Except δ α}
    {change : γ → β} (same : ∀ item, others (change item) = (steps item).mapError convert)
    (items : List γ) : (items.map change).mapM others = (items.mapM steps).mapError convert := by
  induction items with
  | nil => rfl
  | cons item items ih =>
    simp only [List.map_cons, List.mapM_cons, mapError_bind, same, ih, mapError_pure]

end Results

/-! ### The check -/

namespace Scopes

/-- The place of a read only gets into the error. -/
theorem checkVariable_bare (scopes : Scopes) (name : String) (position : Position) :
    scopes.checkVariable name .start =
      (scopes.checkVariable name position).mapError ScopeError.bare := by
  unfold checkVariable
  split
  · rfl
  · split
    · rfl
    · split <;> rfl

mutual

/-- The check of an expression leads to the same frames, or to the same error elsewhere. -/
theorem checkExpr_bare (e : Expr) (scopes : Scopes) :
    scopes.checkExpr e.bare = (scopes.checkExpr e).mapError ScopeError.bare := by
  cases e with
  | int position value => rfl
  | float position value => rfl
  | var position name =>
    simp only [Expr.bare, checkExpr, mapError_bind, mapError_pure,
      checkVariable_bare scopes name position]
  | binary position op left right =>
    simp only [Expr.bare, checkExpr, mapError_bind, checkExpr_bare left, checkExpr_bare right]
  | negate position operand => exact checkExpr_bare operand scopes
  | call position callee args =>
    simp only [Expr.bare, checkExpr]
    split
    · exact checkArgs_bare args scopes
    · rfl
  | assign position target value =>
    simp only [Expr.bare, checkExpr, mapError_bind, mapError_pure, checkExpr_bare value]
termination_by structural e

theorem checkArgs_bare (args : List Expr) (scopes : Scopes) :
    scopes.checkArgs (Expr.bareAll args) = (scopes.checkArgs args).mapError ScopeError.bare := by
  cases args with
  | nil => rfl
  | cons arg args =>
    simp only [Expr.bareAll, checkArgs, mapError_bind, checkExpr_bare arg, checkArgs_bare args]
termination_by structural args

end

mutual

/-- The same frames behind a statement, whatever the places in its blocks. -/
theorem checkStmt_bare (statement : Stmt) (scopes : Scopes) :
    scopes.checkStmt statement.bare = (scopes.checkStmt statement).mapError ScopeError.bare := by
  cases statement with
  | assign position target value =>
    simp only [Stmt.bare, checkStmt, mapError_bind, mapError_pure, checkExpr_bare value]
  | discard position value => exact checkExpr_bare value scopes
  | print position value => exact checkExpr_bare value scopes
  | branch position test body alternative =>
    cases alternative with
    | none =>
      simp only [Stmt.bare, checkStmt, mapError_bind, mapError_pure, checkExpr_bare test,
        checkBody_bare body]
    | some alternative =>
      simp only [Stmt.bare, checkStmt, mapError_bind, mapError_pure, checkExpr_bare test,
        checkBody_bare body, checkBody_bare alternative]
  | loop position test body =>
    simp only [Stmt.bare, checkStmt, mapError_bind, mapError_pure, checkExpr_bare test,
      checkBody_bare body]
  | return_ position value =>
    cases value with
    | none => rfl
    | some value => exact checkExpr_bare value scopes
  | block position body =>
    simp only [Stmt.bare, checkStmt, mapError_bind, mapError_pure, checkBody_bare body]
termination_by structural statement

theorem checkBody_bare (body : List Stmt) (scopes : Scopes) :
    scopes.checkBody (Stmt.bareAll body) = (scopes.checkBody body).mapError ScopeError.bare := by
  cases body with
  | nil => rfl
  | cons statement body =>
    simp only [Stmt.bareAll, checkBody, mapError_bind, checkStmt_bare statement,
      checkBody_bare body]
termination_by structural body

end

theorem checkParams_bare (params : List Param) (scopes : Scopes) :
    scopes.checkParams (params.map Param.bare) =
      (scopes.checkParams params).mapError ScopeError.bare := by
  induction params generalizing scopes with
  | nil => rfl
  | cons param params ih =>
    simp only [List.map_cons, checkParams, Param.bare]
    split
    · rfl
    · exact ih _

end Scopes

/-- The check of a function, whose parameters lose their places as well. -/
theorem Function.check_bare (global : Scope) (function : Function) :
    function.bare.check global = (function.check global).mapError ScopeError.bare := by
  simp only [Function.check, Function.bare, mapError_bind, mapError_pure, Scopes.checkParams_bare,
    Scopes.checkBody_bare]

/-- Functions are declared under their names alone; a repeated one is the same. -/
theorem declareFunctions_bare (functions : List Function) (global : Scope) :
    declareFunctions global (functions.map Function.bare) =
      ((declareFunctions global functions).1.mapError ScopeError.bare,
        (declareFunctions global functions).2) := by
  induction functions generalizing global with
  | nil => rfl
  | cons function functions ih =>
    simp only [List.map_cons, declareFunctions, Function.bare]
    split
    · rfl
    · exact ih _

/-- A program passes the check or fails it for the same reason, wherever its names stand. -/
theorem Program.check_bare (program : Program) :
    program.bare.check = program.check.mapError ScopeError.bare := by
  simp only [check, checkWithin, bare, declareFunctions_bare]
  obtain ⟨result, global⟩ := declareFunctions .empty program.functions
  cases result with
  | error error => rfl
  | ok done => exact forM_map_mapError (Function.check_bare global) _

/-! ### The lowering -/

theorem Expr.length_bareAll (exprs : List Expr) : (Expr.bareAll exprs).length = exprs.length := by
  induction exprs with
  | nil => rfl
  | cons first rest ih => rw [bareAll, List.length_cons, List.length_cons, ih]

theorem Function.arity_bare (function : Function) : function.bare.arity = function.arity :=
  List.length_map ..

/-- Arities are counted by name. -/
theorem Program.arities_bare (program : Program) : program.bare.arities = program.arities := by
  have arity_eq : Function.arity ∘ Function.bare = Function.arity := funext Function.arity_bare
  funext name
  simp only [arities, bare, ← List.map_reverse, List.find?_map, Option.map_map, arity_eq]
  rfl

namespace Lowering

variable {arities : Arities} {void : Bool}

mutual

/-- Expressions are lowered to the same code with the same slots. -/
theorem expr_bare (e : Expr) (start : Nat) (slots : Slots) :
    expr arities start slots e.bare = (expr arities start slots e).mapError LoweringError.bare := by
  cases e with
  | int position value => rfl
  | float position value => rfl
  | var position name =>
    simp only [Expr.bare, expr]
    split <;> rfl
  | binary position op left right =>
    simp only [Expr.bare, expr, mapError_bind, mapError_pure, expr_bare left, expr_bare right]
  | negate position operand =>
    simp only [Expr.bare, expr, mapError_bind, mapError_pure, expr_bare operand]
  | call position callee args =>
    simp only [Expr.bare, expr]
    split
    · rfl
    · rw [Expr.length_bareAll]
      split
      · simp only [mapError_bind, mapError_pure, exprs_bare args]
      · rfl
  | assign position target value =>
    simp only [Expr.bare, expr, mapError_bind, mapError_pure, expr_bare value]
termination_by structural e

theorem exprs_bare (args : List Expr) (start : Nat) (slots : Slots) :
    exprs arities start slots (Expr.bareAll args) =
      (exprs arities start slots args).mapError LoweringError.bare := by
  cases args with
  | nil => rfl
  | cons first rest =>
    simp only [Expr.bareAll, exprs, mapError_bind, mapError_pure, expr_bare first, exprs_bare rest]
termination_by structural args

end

/-- Which jump a test is lowered to depends on its outermost operator. -/
theorem condition_bare (e : Expr) (start : Nat) (slots : Slots) :
    condition arities start slots e.bare =
      (condition arities start slots e).mapError LoweringError.bare := by
  have value : ∀ e : Expr, (do
      let value ← expr arities start slots e.bare
      return (value, Test.zero)) = (do
      let value ← expr arities start slots e
      return (value, Test.zero)).mapError LoweringError.bare := by
    intro e
    simp only [mapError_bind, mapError_pure, expr_bare e]
  cases e with
  | binary position op left right =>
    cases op with
    | comparison comparison =>
      simp only [Expr.bare, condition, mapError_bind, mapError_pure, expr_bare left,
        expr_bare right]
    | arithmetic op => exact value (.binary position (.arithmetic op) left right)
  | int position number => exact value (.int position number)
  | float position number => exact value (.float position number)
  | var position name => exact value (.var position name)
  | negate position operand => exact value (.negate position operand)
  | call position callee args => exact value (.call position callee args)
  | assign position target source => exact value (.assign position target source)

mutual

/-- Statements are lowered to the same code, whose offsets count instructions and not lines. -/
theorem stmt_bare (statement : Stmt) (start : Nat) (slots : Slots) :
    stmt arities void start slots statement.bare =
      (stmt arities void start slots statement).mapError LoweringError.bare := by
  cases statement with
  | assign position target value =>
    simp only [Stmt.bare, stmt, mapError_bind, mapError_pure, expr_bare value]
  | discard position value =>
    simp only [Stmt.bare, stmt, mapError_bind, mapError_pure, expr_bare value]
  | print position value =>
    simp only [Stmt.bare, stmt, mapError_bind, mapError_pure, expr_bare value]
  | branch position test body alternative =>
    cases alternative with
    | none =>
      simp only [Stmt.bare, stmt, mapError_bind, mapError_pure, condition_bare test,
        stmts_bare body]
    | some alternative =>
      simp only [Stmt.bare, stmt, mapError_bind, mapError_pure, condition_bare test,
        stmts_bare body, stmts_bare alternative]
  | loop position test body =>
    simp only [Stmt.bare, stmt, mapError_bind, mapError_pure, condition_bare test,
      stmts_bare body]
  | return_ position value =>
    cases value with
    | none => rfl
    | some value =>
      simp only [Stmt.bare, Option.map_some, stmt, mapError_bind, mapError_pure, expr_bare value]
  | block position body => exact stmts_bare body start slots
termination_by structural statement

theorem stmts_bare (body : List Stmt) (start : Nat) (slots : Slots) :
    stmts arities void start slots (Stmt.bareAll body) =
      (stmts arities void start slots body).mapError LoweringError.bare := by
  cases body with
  | nil => rfl
  | cons first rest =>
    simp only [Stmt.bareAll, stmts, mapError_bind, mapError_pure, stmt_bare first, stmts_bare rest]
termination_by structural body

end

theorem paramSlots_bare (params : List Param) :
    paramSlots (params.map Param.bare) = paramSlots params :=
  List.foldl_map

theorem routine_bare (function : Function) :
    routine arities function.bare = (routine arities function).mapError LoweringError.bare := by
  have entry : isEntry function.bare = isEntry function :=
    congrArg (decide (function.name = entryName) && ·) List.isEmpty_map
  simp only [routine, entry, Function.arity_bare]
  simp only [Function.bare, paramSlots_bare, stmts_bare, mapError_bind, mapError_pure]

end Lowering

/-- What a program is compiled to does not depend on where anything stands in it. -/
theorem Assembly.ofProgram_bare (name : String) (program : Program) :
    Assembly.ofProgram name program.bare =
      (Assembly.ofProgram name program).mapError LoweringError.bare := by
  simp only [Assembly.ofProgram, Program.arities_bare, mapError_bind, mapError_pure]
  rw [← mapM_map_mapError Lowering.routine_bare]
  rfl

end ImpStack

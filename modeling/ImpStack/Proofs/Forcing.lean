import ImpStack.Proofs.LocalNames
import ImpStack.Scope.Check

/-!
Programs in which some comparisons that stand as conditions are turned into numbers first. Such a
program is accepted as the one that it comes from.
-/
namespace ImpStack

/-- A comparison at a chosen place becomes a number that is compared with zero. -/
def Expr.forced (chosen : Position → Bool) : Expr → Expr
  | .binary position (.comparison comparison) left right =>
    if chosen position then
      .binary position (.comparison .ne)
        (.binary position (.comparison comparison) left right) (.int position 0)
    else .binary position (.comparison comparison) left right
  | test => test

mutual

/-- The statement with the chosen comparisons forced, wherever they stand as conditions. -/
def Stmt.force (chosen : Position → Bool) : Stmt → Stmt
  | .assign position target value => .assign position target value
  | .discard position value => .discard position value
  | .print position value => .print position value
  | .branch position test body none =>
    .branch position (test.forced chosen) (Stmt.forceAll chosen body) none
  | .branch position test body (some alternative) =>
    .branch position (test.forced chosen) (Stmt.forceAll chosen body)
      (some (Stmt.forceAll chosen alternative))
  | .loop position test body =>
    .loop position (test.forced chosen) (Stmt.forceAll chosen body)
  | .return_ position value => .return_ position value
  | .block position body => .block position (Stmt.forceAll chosen body)
termination_by structural statement => statement

/-- The statements with the chosen comparisons forced. -/
def Stmt.forceAll (chosen : Position → Bool) : List Stmt → List Stmt
  | [] => []
  | first :: rest => first.force chosen :: Stmt.forceAll chosen rest
termination_by structural body => body

end

/-- The function with the chosen comparisons in its body forced. -/
def Function.force (chosen : Position → Bool) (function : Function) : Function :=
  { function with body := Stmt.forceAll chosen function.body }

def Program.force (chosen : Position → Bool) (program : Program) : Program :=
  ⟨program.functions.map (·.force chosen)⟩

variable {chosen : Position → Bool}

/-! ### What forcing keeps -/

/-- An expression is forced or stays as it is. -/
theorem Expr.forced_cases (chosen : Position → Bool) (test : Expr) :
    test.forced chosen = test ∨ ∃ position comparison left right,
      chosen position = true ∧ test = .binary position (.comparison comparison) left right ∧
      test.forced chosen = .binary position (.comparison .ne) test (.int position 0) := by
  unfold forced
  split
  · next position comparison left right =>
    split
    · next isChosen => exact .inr ⟨position, comparison, left, right, isChosen, rfl, rfl⟩
    · exact .inl rfl
  · exact .inl rfl

/-- Forcing assigns nothing. -/
theorem Expr.targets_forced (test : Expr) : (test.forced chosen).targets = test.targets := by
  obtain same | ⟨position, _, _, _, _, _, forced⟩ := test.forced_cases chosen
  · rw [same]
  · rw [forced, targets, targets, List.append_nil]

mutual

/-- Nor does it in the conditions inside a statement. -/
theorem Stmt.targets_force (statement : Stmt) :
    (statement.force chosen).targets = statement.targets := by
  cases statement with
  | assign position target value => rfl
  | discard position value => rfl
  | print position value => rfl
  | branch position test body alternative =>
    cases alternative with
    | none =>
      rw [Stmt.force, Stmt.targets, Stmt.targets, test.targets_forced,
        Stmt.targetsOfAll_forceAll body]
    | some alternative =>
      rw [Stmt.force, Stmt.targets, Stmt.targets, test.targets_forced,
        Stmt.targetsOfAll_forceAll body, Stmt.targetsOfAll_forceAll alternative]
  | loop position test body =>
    rw [Stmt.force, Stmt.targets, Stmt.targets, test.targets_forced,
      Stmt.targetsOfAll_forceAll body]
  | return_ position value => rfl
  | block position body => exact Stmt.targetsOfAll_forceAll body
termination_by structural statement

theorem Stmt.targetsOfAll_forceAll (body : List Stmt) :
    Stmt.targetsOfAll (Stmt.forceAll chosen body) = Stmt.targetsOfAll body := by
  cases body with
  | nil => rfl
  | cons first rest =>
    rw [Stmt.forceAll, Stmt.targetsOfAll, Stmt.targetsOfAll, first.targets_force,
      Stmt.targetsOfAll_forceAll rest]
termination_by structural body

end

/-- The local names keep their slots. -/
theorem Function.slots_force (function : Function) :
    (function.force chosen).slots = function.slots := by
  unfold slots
  rw [force, Stmt.targetsOfAll_forceAll]
  rfl

/-! ### Forcing nothing -/

theorem Expr.forced_none (test : Expr) : test.forced (fun _ => false) = test := by
  obtain same | ⟨_, _, _, _, isChosen, _, _⟩ := test.forced_cases fun _ => false
  · exact same
  · cases isChosen

mutual

theorem Stmt.force_none (statement : Stmt) : statement.force (fun _ => false) = statement := by
  cases statement with
  | assign position target value => rfl
  | discard position value => rfl
  | print position value => rfl
  | branch position test body alternative =>
    cases alternative with
    | none => rw [Stmt.force, test.forced_none, Stmt.forceAll_none body]
    | some alternative =>
      rw [Stmt.force, test.forced_none, Stmt.forceAll_none body, Stmt.forceAll_none alternative]
  | loop position test body => rw [Stmt.force, test.forced_none, Stmt.forceAll_none body]
  | return_ position value => rfl
  | block position body => rw [Stmt.force, Stmt.forceAll_none body]
termination_by structural statement

theorem Stmt.forceAll_none (body : List Stmt) : Stmt.forceAll (fun _ => false) body = body := by
  cases body with
  | nil => rfl
  | cons first rest => rw [Stmt.forceAll, first.force_none, Stmt.forceAll_none rest]
termination_by structural body

end

/-- With no place chosen the program stays as it is. -/
theorem Program.force_none (program : Program) : program.force (fun _ => false) = program := by
  have same : ∀ function : Function, function.force (fun _ => false) = function := by
    intro function
    rw [Function.force, Stmt.forceAll_none]
  simp [force, same]

/-! ### The check -/

/-- The check visits the same operands, and a literal needs none. -/
theorem Scopes.checkExpr_forced (scopes : Scopes) (test : Expr) :
    scopes.checkExpr (test.forced chosen) = scopes.checkExpr test := by
  obtain same | ⟨position, _, _, _, _, _, forced⟩ := test.forced_cases chosen
  · rw [same]
  · rw [forced, Scopes.checkExpr]
    exact bind_pure _

mutual

/-- The check of a statement does not see the difference. -/
theorem Scopes.checkStmt_force (scopes : Scopes) (statement : Stmt) :
    scopes.checkStmt (statement.force chosen) = scopes.checkStmt statement := by
  cases statement with
  | assign position target value => rfl
  | discard position value => rfl
  | print position value => rfl
  | branch position test body alternative =>
    cases alternative with
    | none =>
      simp only [Stmt.force, Scopes.checkStmt, Scopes.checkExpr_forced,
        Scopes.checkBody_forceAll _ body]
    | some alternative =>
      simp only [Stmt.force, Scopes.checkStmt, Scopes.checkExpr_forced,
        Scopes.checkBody_forceAll _ body, Scopes.checkBody_forceAll _ alternative]
  | loop position test body =>
    simp only [Stmt.force, Scopes.checkStmt, Scopes.checkExpr_forced,
      Scopes.checkBody_forceAll _ body]
  | return_ position value => rfl
  | block position body =>
    simp only [Stmt.force, Scopes.checkStmt, Scopes.checkBody_forceAll _ body]
termination_by structural statement

theorem Scopes.checkBody_forceAll (scopes : Scopes) (body : List Stmt) :
    scopes.checkBody (Stmt.forceAll chosen body) = scopes.checkBody body := by
  cases body with
  | nil => rfl
  | cons first rest =>
    simp only [Stmt.forceAll, Scopes.checkBody, Scopes.checkStmt_force _ first,
      Scopes.checkBody_forceAll _ rest]
termination_by structural body

end

theorem Function.check_force (global : Scope) (function : Function) :
    (function.force chosen).check global = function.check global := by
  simp only [check, force, Scopes.checkBody_forceAll]

theorem declareFunctions_force (global : Scope) (functions : List Function) :
    declareFunctions global (functions.map (·.force chosen)) =
      declareFunctions global functions := by
  induction functions generalizing global with
  | nil => rfl
  | cons first rest ih =>
    rw [List.map_cons, declareFunctions, declareFunctions]
    simp only [ih]
    rfl

/-- A program is accepted with its conditions forced exactly if it is accepted without. -/
theorem Program.check_force (chosen : Position → Bool) (program : Program) :
    (program.force chosen).check = program.check := by
  have bodies : ∀ global : Scope,
      (program.functions.map (·.force chosen)).forM (·.check global) =
        program.functions.forM (·.check global) := by
    intro global
    induction program.functions with
    | nil => rfl
    | cons first rest ih =>
      rw [List.map_cons, List.forM, List.forM, ih, Function.check_force]
  simp only [check, checkWithin, force, declareFunctions_force, bodies]

end ImpStack

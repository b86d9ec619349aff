import ImpStack.Proofs.BlockEquivalence
import ImpStack.Proofs.WellSpelled

/-!
What a source can put into code. The callees in the code of a source are words and its floats are
numbers, since they come from the tree; so it is for every routine of a program that compiles
(`Assembly.wellSpelled_of_ofSource`).

Local names are gone in code, which has slots for them. Of all that a tree can name, functions are
what is left.
-/
namespace ImpStack

/-- Callees are words and floats are numbers. -/
def Instruction.WellSpelled : Instruction Nat → Prop
  | pushFloat value => Binary32.IsNumber value
  | call callee _ => IsWord callee
  | _ => True

/-- All instructions are well spelled. -/
def Code.WellSpelled (code : Code) : Prop := ∀ instruction ∈ code, instruction.WellSpelled

namespace Code.WellSpelled

variable {first second : Code} {instruction : Instruction Nat}

@[simp]
theorem nil : WellSpelled [] := by simp [WellSpelled]

@[simp]
theorem cons_iff : WellSpelled (instruction :: first) ↔
    instruction.WellSpelled ∧ WellSpelled first := List.forall_mem_cons

@[simp]
theorem append_iff : WellSpelled (first ++ second) ↔ WellSpelled first ∧ WellSpelled second :=
  List.forall_mem_append

end Code.WellSpelled

namespace Lowering

variable {arities : Arities} {void : Bool}

/-- Operators push integers at most, and name nothing. -/
theorem operatorCode_wellSpelled (start : Nat) (op : BinaryOp) :
    (operatorCode start op).WellSpelled := by
  cases op <;> simp [operatorCode, Instruction.WellSpelled]

theorem defaultReturn_wellSpelled (void : Bool) : (defaultReturn void).WellSpelled := by
  cases void <;> simp [defaultReturn, Instruction.WellSpelled]

theorem testJump_wellSpelled (test : Test) (target : Nat) : (test.jump target).WellSpelled := by
  cases test <;> trivial

theorem jump_wellSpelled (target : Nat) : (Instruction.jump target).WellSpelled := trivial

mutual

/-- The floats and callees in the code of an expression are those of the expression. -/
theorem expr_wellSpelled (e : Expr) (spelled : e.WellSpelled) {start : Nat} {slots : Slots}
    {lowered : Lowered} (ok : expr arities start slots e = .ok lowered) :
    lowered.code.WellSpelled := by
  cases e with
  | int position value =>
    obtain rfl := expr_int_ok ok
    simp [Instruction.WellSpelled]
  | float position value =>
    obtain rfl := expr_float_ok ok
    exact Code.WellSpelled.cons_iff.mpr ⟨spelled, .nil⟩
  | var position name =>
    obtain ⟨slot, _, rfl⟩ := expr_var_ok ok
    simp [Instruction.WellSpelled]
  | binary position op left right =>
    obtain ⟨l, r, left_ok, right_ok, rfl⟩ := expr_binary_ok ok
    simp [expr_wellSpelled left spelled.1 left_ok, expr_wellSpelled right spelled.2 right_ok,
      operatorCode_wellSpelled]
  | negate position operand =>
    obtain ⟨o, operand_ok, rfl⟩ := expr_negate_ok ok
    simp [expr_wellSpelled operand spelled operand_ok, Instruction.WellSpelled]
  | call position callee args =>
    obtain ⟨_, a, args_ok, rfl⟩ := expr_call_ok ok
    simp [exprs_wellSpelled args spelled.2 args_ok, Instruction.WellSpelled, spelled.1]
  | assign position target value =>
    obtain ⟨v, value_ok, rfl⟩ := expr_assign_ok ok
    simp [expr_wellSpelled value spelled.2 value_ok, Instruction.WellSpelled]
termination_by structural e

theorem exprs_wellSpelled (es : List Expr) (spelled : Expr.AllWellSpelled es) {start : Nat}
    {slots : Slots} {lowered : Lowered} (ok : exprs arities start slots es = .ok lowered) :
    lowered.code.WellSpelled := by
  cases es with
  | nil =>
    obtain rfl := exprs_nil_ok ok
    exact .nil
  | cons first rest =>
    obtain ⟨f, r, first_ok, rest_ok, rfl⟩ := exprs_cons_ok ok
    simp [expr_wellSpelled first spelled.1 first_ok, exprs_wellSpelled rest spelled.2 rest_ok]
termination_by structural es

end

/-- The jump of a test is left to the statement, its operands are lowered as expressions. -/
theorem condition_wellSpelled {test : Expr} (spelled : test.WellSpelled) {jump : Test}
    {start : Nat} {slots : Slots} {lowered : Lowered}
    (ok : condition arities start slots test = .ok (lowered, jump)) :
    lowered.code.WellSpelled := by
  obtain ⟨_, _, left, right, l, r, rfl, left_ok, right_ok, rfl, _⟩ | ⟨_, value_ok, _⟩ :=
    condition_ok ok
  · simp [expr_wellSpelled left spelled.1 left_ok, expr_wellSpelled right spelled.2 right_ok]
  · exact expr_wellSpelled test spelled value_ok

mutual

/-- The floats and callees in the code of a statement are those of its expressions. -/
theorem stmt_wellSpelled (statement : Stmt) (spelled : statement.WellSpelled) {start : Nat}
    {slots : Slots} {lowered : Lowered}
    (ok : stmt arities void start slots statement = .ok lowered) : lowered.code.WellSpelled := by
  cases statement with
  | assign position target value =>
    obtain ⟨v, value_ok, rfl⟩ := stmt_assign_ok ok
    simp [expr_wellSpelled value spelled.2 value_ok, Instruction.WellSpelled]
  | discard position value =>
    obtain ⟨v, value_ok, rfl⟩ := stmt_discard_ok ok
    simp [expr_wellSpelled value spelled value_ok, Instruction.WellSpelled]
  | print position value =>
    obtain ⟨v, value_ok, rfl⟩ := stmt_print_ok ok
    simp [expr_wellSpelled value spelled value_ok, Instruction.WellSpelled]
  | branch position test body alternative =>
    cases alternative with
    | none =>
      obtain ⟨t, jump, b, test_ok, body_ok, rfl⟩ := stmt_if_ok ok
      simp [condition_wellSpelled spelled.1 test_ok, stmts_wellSpelled body spelled.2 body_ok,
        testJump_wellSpelled, jump_wellSpelled]
    | some alternative =>
      obtain ⟨t, jump, b, a, test_ok, body_ok, alternative_ok, rfl⟩ := stmt_ifElse_ok ok
      simp [condition_wellSpelled spelled.1 test_ok, stmts_wellSpelled body spelled.2.1 body_ok,
        stmts_wellSpelled alternative spelled.2.2 alternative_ok, testJump_wellSpelled,
        jump_wellSpelled]
  | loop position test body =>
    obtain ⟨t, jump, b, test_ok, body_ok, rfl⟩ := stmt_loop_ok ok
    simp [condition_wellSpelled spelled.1 test_ok, stmts_wellSpelled body spelled.2 body_ok,
      testJump_wellSpelled, jump_wellSpelled]
  | return_ position value =>
    cases value with
    | none =>
      obtain rfl := stmt_returnNone_ok ok
      exact defaultReturn_wellSpelled void
    | some value =>
      obtain ⟨v, value_ok, rfl⟩ := stmt_return_ok ok
      simp [expr_wellSpelled value spelled value_ok, Instruction.WellSpelled]
  | block position body => exact stmts_wellSpelled body spelled (stmt_block_ok ok)
termination_by structural statement

theorem stmts_wellSpelled (body : List Stmt) (spelled : Stmt.AllWellSpelled body) {start : Nat}
    {slots : Slots} {lowered : Lowered} (ok : stmts arities void start slots body = .ok lowered) :
    lowered.code.WellSpelled := by
  cases body with
  | nil =>
    obtain rfl := stmts_nil_ok ok
    exact .nil
  | cons first rest =>
    obtain ⟨f, r, first_ok, rest_ok, rfl⟩ := stmts_cons_ok ok
    simp [stmt_wellSpelled first spelled.1 first_ok, stmts_wellSpelled rest spelled.2 rest_ok]
termination_by structural body

end

end Lowering

/-- The name is a word, and so are the callees; floats are numbers. -/
structure Routine.WellSpelled (routine : Routine) : Prop where
  name : IsWord routine.name
  code : Code.WellSpelled routine.code.toList

/-- A routine has the name of its function. -/
theorem Lowering.routine_wellSpelled {arities : Arities} {function : Function}
    (spelled : function.WellSpelled) {routine : Routine}
    (ok : Lowering.routine arities function = .ok routine) : routine.WellSpelled := by
  obtain ⟨b, body_ok, rfl⟩ := routine_ok ok
  have body := stmts_wellSpelled function.body spelled.body body_ok
  refine ⟨spelled.name, ?_⟩
  simp [body, defaultReturn_wellSpelled]

/-- Whatever a source compiles to has words for callees and numbers for floats. -/
theorem Assembly.wellSpelled_of_ofSource {name source : String} {assembly : Assembly}
    (accepted : Assembly.ofSource name source = .ok assembly) :
    ∀ routine ∈ assembly.routines, routine.WellSpelled := by
  obtain ⟨program, parsed, _, lowered⟩ := Assembly.ofSource_eq_ok_iff.mp accepted
  intro routine member
  obtain ⟨function, among, ok⟩ := exists_of_forall₂ (Assembly.routines_forall₂ lowered) member
  exact Lowering.routine_wellSpelled (Program.wellSpelled_of_ofSource parsed function among) ok

/-- An assembly has the name that it was compiled under. -/
theorem Assembly.name_of_ofSource {name source : String} {assembly : Assembly}
    (accepted : Assembly.ofSource name source = .ok assembly) : assembly.name = name := by
  obtain ⟨program, _, _, lowered⟩ := Assembly.ofSource_eq_ok_iff.mp accepted
  obtain ⟨routines, _, made⟩ := bind_eq_ok lowered
  exact Except.ok.inj made ▸ rfl

end ImpStack

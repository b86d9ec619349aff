import ImpStack.Proofs.Dispatch
import ImpStack.Proofs.FrameIsolation

/-!
Only loops jump back. In the code of a program without loops every jump leads to an offset behind
itself (`Assembly.forward_of_loopFree`). `Forward` is a property of code at the offset at which it
is placed, and code is put together from parts that have it.
-/
namespace ImpStack

mutual

/-- Whether there is a loop in the statement. -/
def Stmt.hasLoop : Stmt → Bool
  | .assign _ _ _ => false
  | .discard _ _ => false
  | .print _ _ => false
  | .branch _ _ body none => Stmt.anyHasLoop body
  | .branch _ _ body (some alternative) => Stmt.anyHasLoop body || Stmt.anyHasLoop alternative
  | .loop _ _ _ => true
  | .return_ _ _ => false
  | .block _ body => Stmt.anyHasLoop body
termination_by structural statement => statement

/-- Whether there is a loop in one of the statements. -/
def Stmt.anyHasLoop : List Stmt → Bool
  | [] => false
  | first :: rest => first.hasLoop || Stmt.anyHasLoop rest
termination_by structural body => body

end

/-- Whether there is a loop in one of the functions. -/
def Program.hasLoop (program : Program) : Bool :=
  program.functions.any fun function => Stmt.anyHasLoop function.body

/-- Code placed at `start` whose jumps all lead behind themselves. -/
def Forward : (start : Nat) → Code → Prop
  | _, [] => True
  | start, instruction :: code =>
    (∀ target, instruction.target? = some target → start < target) ∧ Forward (start + 1) code

namespace Forward

variable {start target : Nat} {code : Code} {instruction : Instruction Nat}

@[simp]
theorem nil (start : Nat) : Forward start [] := trivial

@[simp]
theorem cons_iff : Forward start (instruction :: code) ↔
    (∀ target, instruction.target? = some target → start < target) ∧ Forward (start + 1) code :=
  Iff.rfl

/-- Code in two parts goes forward if both do, each from where it starts. -/
@[simp]
theorem append_iff {first second : Code} :
    Forward start (first ++ second) ↔
      Forward start first ∧ Forward (start + first.length) second := by
  induction first generalizing start with
  | nil => simp
  | cons instruction first ih =>
    rw [List.cons_append, cons_iff, cons_iff, ih, List.length_cons, and_assoc, Nat.add_right_comm,
      Nat.add_assoc]

/-- A jump of forward code leads behind the offset that it stands at. -/
theorem lt_target (forward : Forward start code) {offset : Nat}
    (fetch : code[offset]? = some instruction) (leads : instruction.target? = some target) :
    start + offset < target := by
  induction code generalizing start offset with
  | nil => cases fetch
  | cons first rest ih =>
    cases offset with
    | zero =>
      obtain rfl := Option.some.inj fetch
      exact forward.1 target leads
    | succ offset =>
      have behind := ih forward.2 fetch
      omega

end Forward

namespace Lowering

variable {arities : Arities} {void : Bool}

/-- The two jumps in the code of a comparison lead forward. -/
theorem operatorCode_forward (start : Nat) (op : BinaryOp) :
    Forward start (operatorCode start op) := by
  cases op with
  | arithmetic op => simp [operatorCode, Instruction.target?]
  | comparison comparison =>
    simp [operatorCode, Instruction.target?]

theorem defaultReturn_forward (start : Nat) (void : Bool) :
    Forward start (defaultReturn void) := by
  cases void <;> simp [defaultReturn, Instruction.target?]

theorem target?_jump (test : Test) (target : Nat) : (test.jump target).target? = some target := by
  cases test <;> rfl

mutual

/-- Expressions never jump back. -/
theorem expr_forward (e : Expr) {start : Nat} {slots : Slots} {lowered : Lowered}
    (ok : expr arities start slots e = .ok lowered) : Forward start lowered.code := by
  cases e with
  | int position value =>
    obtain rfl := expr_int_ok ok
    simp [Instruction.target?]
  | float position value =>
    obtain rfl := expr_float_ok ok
    simp [Instruction.target?]
  | var position name =>
    obtain ⟨slot, _, rfl⟩ := expr_var_ok ok
    simp [Instruction.target?]
  | binary position op left right =>
    obtain ⟨l, r, left_ok, right_ok, rfl⟩ := expr_binary_ok ok
    have leftForward := expr_forward left left_ok
    have rightForward := expr_forward right right_ok
    simp [leftForward, rightForward, operatorCode_forward]
  | negate position operand =>
    obtain ⟨o, operand_ok, rfl⟩ := expr_negate_ok ok
    simp [expr_forward operand operand_ok, Instruction.target?]
  | call position callee args =>
    obtain ⟨_, a, args_ok, rfl⟩ := expr_call_ok ok
    simp [exprs_forward args args_ok, Instruction.target?]
  | assign position target value =>
    obtain ⟨v, value_ok, rfl⟩ := expr_assign_ok ok
    simp [expr_forward value value_ok, Instruction.target?]
termination_by structural e

theorem exprs_forward (es : List Expr) {start : Nat} {slots : Slots} {lowered : Lowered}
    (ok : exprs arities start slots es = .ok lowered) : Forward start lowered.code := by
  cases es with
  | nil =>
    obtain rfl := exprs_nil_ok ok
    simp
  | cons first rest =>
    obtain ⟨f, r, first_ok, rest_ok, rfl⟩ := exprs_cons_ok ok
    simp [expr_forward first first_ok, exprs_forward rest rest_ok]
termination_by structural es

end

/-- Nor do conditions, up to the jump in which they end. -/
theorem condition_forward {test : Expr} {jump : Test} {start : Nat} {slots : Slots}
    {lowered : Lowered}
    (ok : condition arities start slots test = .ok (lowered, jump)) :
    Forward start lowered.code := by
  obtain ⟨_, _, left, right, l, r, _, left_ok, right_ok, rfl, _⟩ | ⟨_, value_ok, _⟩ :=
    condition_ok ok
  · simp [expr_forward left left_ok, expr_forward right right_ok]
  · exact expr_forward test value_ok

/-- A test that jumps over what it guards and the jump behind that. -/
theorem guarded_forward {jump : Test} {test body rest : Code} {start target : Nat}
    (testForward : Forward start test) (bodyForward : Forward (start + test.length + 1) body)
    (ahead : start + test.length < target)
    (restForward : Forward (start + test.length + 1 + body.length) rest) :
    Forward start (test ++ jump.jump target :: body ++ rest) := by
  rw [List.append_assoc, Forward.append_iff, List.cons_append, Forward.cons_iff,
    Forward.append_iff]
  refine ⟨testForward, fun other leads => ?_, bodyForward, restForward⟩
  rw [target?_jump] at leads
  exact Option.some.inj leads ▸ ahead

/-- A jump ahead, in front of forward code. -/
theorem jump_forward {offset target : Nat} {rest : Code} (ahead : offset < target)
    (restForward : Forward (offset + 1) rest) : Forward offset (.jump target :: rest) := by
  refine ⟨fun other leads => ?_, restForward⟩
  exact Option.some.inj leads ▸ ahead

mutual

/-- A statement without a loop in it. A branch jumps to its alternative or behind itself. -/
theorem stmt_forward (statement : Stmt) {start : Nat} {slots : Slots} {lowered : Lowered}
    (loopFree : statement.hasLoop = false)
    (ok : stmt arities void start slots statement = .ok lowered) :
    Forward start lowered.code := by
  -- The jumps of a branch lead behind it. Only a loop jumps back, and there is none.
  cases statement with
  | assign position target value =>
    obtain ⟨v, value_ok, rfl⟩ := stmt_assign_ok ok
    simp [expr_forward value value_ok, Instruction.target?]
  | discard position value =>
    obtain ⟨v, value_ok, rfl⟩ := stmt_discard_ok ok
    simp [expr_forward value value_ok, Instruction.target?]
  | print position value =>
    obtain ⟨v, value_ok, rfl⟩ := stmt_print_ok ok
    simp [expr_forward value value_ok, Instruction.target?]
  | branch position test body alternative =>
    cases alternative with
    | none =>
      rw [Stmt.hasLoop] at loopFree
      obtain ⟨t, jump, b, test_ok, body_ok, rfl⟩ := stmt_if_ok ok
      refine guarded_forward (condition_forward test_ok) (stmts_forward body loopFree body_ok) ?_ ?_
      · omega
      · exact jump_forward (Nat.lt_succ_self _) (.nil _)
    | some alternative =>
      rw [Stmt.hasLoop, Bool.or_eq_false_iff] at loopFree
      obtain ⟨t, jump, b, a, test_ok, body_ok, alternative_ok, rfl⟩ := stmt_ifElse_ok ok
      have bodyForward := stmts_forward body loopFree.1 body_ok
      have otherForward := stmts_forward alternative loopFree.2 alternative_ok
      refine guarded_forward (condition_forward test_ok) bodyForward ?_ ?_
      · omega
      · exact jump_forward (by omega) otherForward
  | loop position test body =>
    rw [Stmt.hasLoop] at loopFree
    cases loopFree
  | return_ position value =>
    cases value with
    | none =>
      obtain rfl := stmt_returnNone_ok ok
      exact defaultReturn_forward start void
    | some value =>
      obtain ⟨v, value_ok, rfl⟩ := stmt_return_ok ok
      simp [expr_forward value value_ok, Instruction.target?]
  | block position body =>
    rw [Stmt.hasLoop] at loopFree
    exact stmts_forward body loopFree (stmt_block_ok ok)
termination_by structural statement

theorem stmts_forward (body : List Stmt) {start : Nat} {slots : Slots} {lowered : Lowered}
    (loopFree : Stmt.anyHasLoop body = false)
    (ok : stmts arities void start slots body = .ok lowered) : Forward start lowered.code := by
  cases body with
  | nil =>
    obtain rfl := stmts_nil_ok ok
    simp
  | cons first rest =>
    rw [Stmt.anyHasLoop, Bool.or_eq_false_iff] at loopFree
    obtain ⟨f, r, first_ok, rest_ok, rfl⟩ := stmts_cons_ok ok
    simp [stmt_forward first loopFree.1 first_ok, stmts_forward rest loopFree.2 rest_ok]
termination_by structural body

end

/-- The code of a function without loops, from its first instruction on. -/
theorem routine_forward {function : Function} {result : Routine}
    (loopFree : Stmt.anyHasLoop function.body = false)
    (ok : routine arities function = .ok result) : Forward 0 result.code.toList := by
  obtain ⟨b, body_ok, rfl⟩ := routine_ok ok
  simp [stmts_forward function.body loopFree body_ok, defaultReturn_forward]

end Lowering

namespace Assembly

variable {name : String} {program : Program} {assembly : Assembly}

/-- All code of a program without loops goes forward. -/
theorem forward_of_loopFree (ok : ofProgram name program = .ok assembly)
    (loopFree : program.hasLoop = false) :
    ∀ routine ∈ assembly.routines, Forward 0 routine.code.toList := by
  intro routine member
  obtain ⟨function, among, routine_ok⟩ := exists_of_forall₂ (routines_forall₂ ok) member
  have bodyLoopFree := List.any_eq_false.mp loopFree function among
  exact Lowering.routine_forward (Bool.not_eq_true _ ▸ bodyLoopFree) routine_ok

end Assembly

end ImpStack

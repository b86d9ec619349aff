import ImpStack.Proofs.ExprSimulation

/-!
The code of a statement leads, with the operands it found, to the offset behind it, or the call
reaches an instruction that returns. Conditions have two ends (`Decides`), statements have two kinds
of end (`Concludes`). A loop is followed round by round: the jump back makes one step that the
evaluation does not have, and this step pays for the fuel of the round, so that an evaluation
without enough fuel belongs to a run that is long (`rounds_follows`). The main result is
`stmts_follows`.
-/
namespace ImpStack

open Evaluation (Flow)
open Lowering (defaultReturn isEntry)

/-- With flat variables a block is nothing but its statements. -/
theorem Evaluation.within_flat (body : Vars → Eval (Flow × Vars)) :
    Evaluation.within .flat body = body := by
  funext vars
  exact bind_pure (body vars)

namespace Follows

variable {α : Type} {assembly : Assembly} {sink : Sink} {fuel : Nat} {machine : Machine}
  {log : Log} {part : Eval α} {post last : α → Log → Machine → Prop}

/-- The run may go on where the evaluation is already complete. -/
theorem extend (follows : Follows assembly sink fuel machine log part post)
    (rest : ∀ value after reached, post value after reached →
      Follows assembly sink fuel reached after (Pure.pure value) last) :
    Follows assembly sink fuel machine log part last := by
  have extended := follows.bind rest
  rwa [bind_pure] at extended

end Follows

/-- The machine returns from the call with its next step, and what the call leaves is `values`. -/
def Leaves (assembly : Assembly) (activation : Activation) (values : List Value)
    (result : Option Value) (after : Log) (reached : Machine) : Prop :=
  ∃ next locals rest, reached = activation.machine next locals rest after.lines ∧
    reached.read? = none ∧ reached.step assembly = reached.leave (.ofList values) result

/-- Behind statements whose code ends at `stop` the run is there, or the call is left. -/
def Concludes (assembly : Assembly) (activation : Activation) (context : Evaluation.Context)
    (stop : Nat) (values : List Value) (result : Flow × Vars) (after : Log) (reached : Machine) :
    Prop :=
  match result.1 with
  | .next => ∃ locals, Holds context.function.slots result.2 locals ∧
      reached = activation.machine stop locals values after.lines
  | .returned value => Leaves assembly activation values value after reached

/-- At either end the output is that of the log. -/
theorem Concludes.shown {assembly : Assembly} {activation : Activation}
    {context : Evaluation.Context} {stop : Nat} {values : List Value} {result : Flow × Vars}
    {after : Log} {reached : Machine}
    (concludes : Concludes assembly activation context stop values result after reached) :
    reached.sink = activation.sink.append after.lines := by
  unfold Concludes at concludes
  split at concludes
  · obtain ⟨_, _, rfl⟩ := concludes
    rfl
  · obtain ⟨_, _, _, rfl, _⟩ := concludes
    rfl

/-- Behind a condition the run is at `start` if it counts as true and at `other` if not. -/
def Decides (activation : Activation) (context : Evaluation.Context) (start other : Nat)
    (values : List Value) (result : Bool × Vars) (after : Log) (reached : Machine) : Prop :=
  ∃ locals, Holds context.function.slots result.2 locals ∧
    reached = activation.machine (if result.1 then start else other) locals values after.lines

section

variable {assembly : Assembly} {arities : Arities} {fuel : Nat} {activation : Activation}
  {context : Evaluation.Context}

/-- A condition. For a comparison the code branches on its negation, which fails just when the
comparison passes, also for operands without an order. -/
theorem condition_follows (executes : Executes assembly arities fuel activation context)
    {test : Expr} {start other : Nat} {slots : Slots} {lowered : Lowered} {jump : Lowering.Test}
    (ok : Lowering.condition arities start slots test = .ok (lowered, jump))
    (placed : Placed activation.routine start (lowered.code ++ [jump.jump other]))
    (inside : start + lowered.code.length + 1 < activation.routine.code.size)
    (otherInside : other < activation.routine.code.size)
    (below : lowered.slots.Below context.function.slots)
    {vars : Vars} {locals : Locals} (holds : Holds context.function.slots vars locals)
    {values : List Value} (above : activation.base ≤ values.length) {log : Log} :
    Follows assembly activation.sink fuel (activation.machine start locals values log.lines) log
      (Evaluation.condition .flat context test vars)
      (Decides activation context (start + lowered.code.length + 1) other values) := by
  have fetch := placed.right.head
  obtain ⟨position, comparison, left, right, l, r, rfl, left_ok, right_ok, rfl, rfl⟩ |
    ⟨plain, value_ok, rfl⟩ := Lowering.condition_ok ok
  · simp only [List.length_append] at inside fetch ⊢
    have below_left : l.slots.Below context.function.slots :=
      (Lowering.expr_below right_ok).trans below
    refine (expr_follows executes left left_ok placed.left.left (by omega) below_left holds
      above).bind ?_
    rintro ⟨leftValue, vars⟩ after reached ⟨locals, holds, rfl⟩
    have aboveLeft : activation.base ≤ (leftValue :: values).length := Nat.le_succ_of_le above
    refine (expr_follows executes right right_ok placed.left.right (by omega) below holds
      aboveLeft).bind ?_
    rintro ⟨rightValue, vars⟩ after reached ⟨locals, holds, rfl⟩
    rw [← Nat.add_assoc] at fetch
    refine .step_pure (Activation.step_jumpIf fetch above otherInside)
      (Activation.read?_eq fetch) rfl ⟨locals, holds, ?_⟩
    -- the jump is taken by the negated comparison, and only if the comparison does not pass
    rw [Value.holds_negate]
    cases Value.passes comparison leftValue rightValue <;> simp [Nat.add_assoc]
  · rw [Evaluation.condition_plain _ _ plain]
    refine (expr_follows executes test value_ok placed.left (by omega) below holds above).bind ?_
    rintro ⟨value, vars⟩ after reached ⟨locals, holds, rfl⟩
    refine .step_pure (Activation.step_jumpIfZero fetch above otherInside)
      (Activation.read?_eq fetch) rfl ⟨locals, holds, ?_⟩
    cases value.isZero <;> simp

/-- Behind a jump the run is at its target. -/
theorem Follows.jump {part : Eval (Flow × Vars)} {machine : Machine} {log : Log} {next target : Nat}
    {values : List Value} (fetch : activation.routine.code[next]? = some (.jump target))
    (inside : target < activation.routine.code.size)
    (follows : Follows assembly activation.sink fuel machine log part
      (Concludes assembly activation context next values)) :
    Follows assembly activation.sink fuel machine log part
      (Concludes assembly activation context target values) := by
  refine follows.extend ?_
  rintro ⟨flow, vars⟩ after reached concludes
  cases flow with
  | next =>
    obtain ⟨locals, holds, rfl⟩ := concludes
    exact .step_pure (Activation.step_jump fetch inside) (Activation.read?_eq fetch) rfl
      ⟨locals, holds, rfl⟩
  | returned value => exact .pure concludes.shown concludes

/-- The code that returns without a value, at the end of a function and at `return`. -/
theorem defaultReturn_follows {start : Nat}
    (placed : Placed activation.routine start (defaultReturn (isEntry context.function)))
    {α : Type} {value : α} {post : α → Log → Machine → Prop} {locals : Locals}
    {values : List Value} (above : activation.base ≤ values.length) {log : Log}
    (enough : ∀ reached, Leaves assembly activation values context.function.defaultResult log
      reached → post value log reached) :
    Follows assembly activation.sink fuel (activation.machine start locals values log.lines) log
      (Pure.pure value) post := by
  unfold Function.defaultResult at enough
  unfold defaultReturn at placed
  split at placed
  · next entry =>
    rw [if_pos entry] at enough
    have fetch := placed.head
    exact .pure rfl (enough _ ⟨start, locals, values, rfl, Activation.read?_eq fetch,
      Activation.step_returnVoid fetch⟩)
  · next other =>
    rw [if_neg other] at enough
    have zero := placed.head
    have fetch := placed.tail.head
    exact .step_pure (Activation.step_pushInt zero) (Activation.read?_eq zero) rfl
      (enough _ ⟨start + 1, locals, .int 0 :: values, rfl, Activation.read?_eq fetch,
        Activation.step_return fetch above⟩)

/-- A loop whose body ends with the jump back at `back` and whose test leaves it for `stop`. The
jump back makes up for the fuel of the round. -/
theorem rounds_follows {test : Vars → Eval (Bool × Vars)} {body : Vars → Eval (Flow × Vars)}
    {start bodyStart back stop : Nat} {values : List Value}
    (fetch : activation.routine.code[back]? = some (.jump start))
    (inside : start < activation.routine.code.size)
    (test_follows : ∀ {vars locals} {log : Log}, Holds context.function.slots vars locals →
      Follows assembly activation.sink fuel (activation.machine start locals values log.lines) log
        (test vars) (Decides activation context bodyStart stop values))
    (body_follows : ∀ {vars locals} {log : Log}, Holds context.function.slots vars locals →
      Follows assembly activation.sink fuel (activation.machine bodyStart locals values log.lines)
        log (body vars) (Concludes assembly activation context back values))
    {count : Nat} (le : count ≤ fuel) {vars : Vars} {locals : Locals} {log : Log}
    (holds : Holds context.function.slots vars locals) :
    Follows assembly activation.sink count (activation.machine start locals values log.lines) log
      (Evaluation.rounds test body count vars)
      (Concludes assembly activation context stop values) := by
  induction count generalizing vars locals log with
  | zero => exact .outOfFuel rfl
  | succ count ih =>
    unfold Evaluation.rounds
    refine ((test_follows holds).weaken le).bind ?_
    rintro ⟨goes, vars⟩ after reached ⟨locals, holds, rfl⟩
    cases goes with
    | false => exact .pure rfl ⟨locals, holds, rfl⟩
    | true =>
      refine ((body_follows holds).weaken le).bind ?_
      rintro ⟨flow, vars⟩ after reached concludes
      cases flow with
      | next =>
        obtain ⟨locals, holds, rfl⟩ := concludes
        exact (ih (Nat.le_of_succ_le le) holds).step (Activation.step_jump fetch inside)
          (Activation.read?_eq fetch)
      | returned value => exact .pure concludes.shown concludes

mutual

/-- The code of a statement goes where its evaluation ends, with the slots holding the variables
behind it. -/
theorem stmt_follows (executes : Executes assembly arities fuel activation context)
    (statement : Stmt) {start : Nat} {slots : Slots} {lowered : Lowered}
    (ok : Lowering.stmt arities (isEntry context.function) start slots statement = .ok lowered)
    (placed : Placed activation.routine start lowered.code)
    (inside : start + lowered.code.length < activation.routine.code.size)
    (below : lowered.slots.Below context.function.slots)
    {vars : Vars} {locals : Locals} (holds : Holds context.function.slots vars locals)
    {values : List Value} (above : activation.base ≤ values.length) {log : Log} :
    Follows assembly activation.sink fuel (activation.machine start locals values log.lines) log
      (Evaluation.stmt .flat context fuel statement vars)
      (Concludes assembly activation context (start + lowered.code.length) values) := by
  cases statement with
  | assign position target value =>
    obtain ⟨v, value_ok, rfl⟩ := Lowering.stmt_assign_ok ok
    simp only [List.length_append, List.length_singleton] at inside ⊢
    have below_value : v.slots.Below context.function.slots :=
      (Slots.below_insert v.slots target).trans below
    refine (expr_follows executes value value_ok placed.left (by omega) below_value holds
      above).bind ?_
    rintro ⟨result, vars⟩ after reached ⟨locals, holds, rfl⟩
    have member := v.slots.mem_insert target
    have fetch := placed.right.head
    rw [← below.slotOf_eq member] at fetch
    exact .step_pure (Activation.step_store fetch above) (Activation.read?_eq fetch) rfl
      ⟨_, holds.set (below.mem member) result, rfl⟩
  | discard position value =>
    obtain ⟨v, value_ok, rfl⟩ := Lowering.stmt_discard_ok ok
    simp only [List.length_append, List.length_singleton] at inside ⊢
    refine (expr_follows executes value value_ok placed.left (by omega) below holds above).bind ?_
    rintro ⟨result, vars⟩ after reached ⟨locals, holds, rfl⟩
    have fetch := placed.right.head
    exact .step_pure (Activation.step_pop fetch above) (Activation.read?_eq fetch) rfl
      ⟨locals, holds, rfl⟩
  | print position value =>
    obtain ⟨v, value_ok, rfl⟩ := Lowering.stmt_print_ok ok
    simp only [List.length_append, List.length_singleton] at inside ⊢
    refine (expr_follows executes value value_ok placed.left (by omega) below holds above).bind ?_
    rintro ⟨result, vars⟩ after reached ⟨locals, holds, rfl⟩
    have fetch := placed.right.head
    exact .printLine_bind (Activation.step_print fetch above executes.neverFails)
      (Activation.read?_eq fetch) (.pure rfl ⟨locals, holds, rfl⟩) rfl
  | branch position test body alternative =>
    cases alternative with
    | none =>
      obtain ⟨t, jump, b, test_ok, body_ok, rfl⟩ := Lowering.stmt_if_ok ok
      obtain ⟨placed_test, placed_body, placed_jump⟩ := placed.guarded
      simp only [Lowering.guarded_length, List.length_singleton, ← Nat.add_assoc] at inside ⊢
      unfold Evaluation.stmt
      refine (condition_follows executes test_ok placed_test (by omega) inside
        ((Lowering.stmts_below body_ok).trans below) holds above).bind ?_
      rintro ⟨goes, vars⟩ after reached ⟨locals, holds, rfl⟩
      cases goes with
      | false => exact .pure rfl ⟨locals, holds, rfl⟩
      | true =>
        simp only [if_true, Evaluation.within_flat]
        exact (stmts_follows executes body body_ok placed_body (by omega) below holds above).jump
          placed_jump.head inside
    | some alternative =>
      obtain ⟨t, jump, b, a, test_ok, body_ok, alternative_ok, rfl⟩ := Lowering.stmt_ifElse_ok ok
      obtain ⟨placed_test, placed_body, placed_rest⟩ := placed.guarded
      simp only [Lowering.guarded_length, List.length_cons, Nat.add_comm a.code.length 1,
        ← Nat.add_assoc] at inside ⊢
      have below_body : b.slots.Below context.function.slots :=
        (Lowering.stmts_below alternative_ok).trans below
      unfold Evaluation.stmt
      refine (condition_follows executes test_ok placed_test (by omega) (by omega)
        ((Lowering.stmts_below body_ok).trans below_body) holds above).bind ?_
      rintro ⟨goes, vars⟩ after reached ⟨locals, holds, rfl⟩
      cases goes with
      | false =>
        simp only [Bool.false_eq_true, if_false, Evaluation.within_flat]
        exact stmts_follows executes alternative alternative_ok placed_rest.tail inside below holds
          above
      | true =>
        simp only [if_true, Evaluation.within_flat]
        exact (stmts_follows executes body body_ok placed_body (by omega) below_body holds
          above).jump placed_rest.head inside
  | loop position test body =>
    obtain ⟨t, jump, b, test_ok, body_ok, rfl⟩ := Lowering.stmt_loop_ok ok
    obtain ⟨placed_test, placed_body, placed_jump⟩ := placed.guarded
    simp only [Lowering.guarded_length, List.length_singleton, ← Nat.add_assoc] at inside ⊢
    unfold Evaluation.stmt
    rw [Evaluation.within_flat]
    have below_test : t.slots.Below context.function.slots :=
      (Lowering.stmts_below body_ok).trans below
    -- the offsets of test, body and jump are those of the three parts of `guarded`
    exact rounds_follows placed_jump.head (by omega)
      (fun holds => condition_follows executes test_ok placed_test (by omega) inside below_test
        holds above)
      (fun holds => stmts_follows executes body body_ok placed_body (by omega) below holds above)
      (Nat.le_refl fuel) holds
  | return_ position value =>
    cases value with
    | none =>
      obtain rfl := Lowering.stmt_returnNone_ok ok
      exact defaultReturn_follows placed above fun reached leaves => leaves
    | some value =>
      obtain ⟨v, value_ok, rfl⟩ := Lowering.stmt_return_ok ok
      simp only [List.length_append, List.length_singleton] at inside
      refine (expr_follows executes value value_ok placed.left (by omega) below holds above).bind ?_
      rintro ⟨result, vars⟩ after reached ⟨locals, holds, rfl⟩
      have fetch := placed.right.head
      exact .pure rfl ⟨_, locals, _, rfl, Activation.read?_eq fetch,
        Activation.step_return fetch above⟩
  | block position body =>
    unfold Evaluation.stmt
    rw [Evaluation.within_flat]
    exact stmts_follows executes body (Lowering.stmt_block_ok ok) placed inside below holds above
termination_by structural statement

/-- Statements one after another, up to one that returns. -/
theorem stmts_follows (executes : Executes assembly arities fuel activation context)
    (body : List Stmt) {start : Nat} {slots : Slots} {lowered : Lowered}
    (ok : Lowering.stmts arities (isEntry context.function) start slots body = .ok lowered)
    (placed : Placed activation.routine start lowered.code)
    (inside : start + lowered.code.length < activation.routine.code.size)
    (below : lowered.slots.Below context.function.slots)
    {vars : Vars} {locals : Locals} (holds : Holds context.function.slots vars locals)
    {values : List Value} (above : activation.base ≤ values.length) {log : Log} :
    Follows assembly activation.sink fuel (activation.machine start locals values log.lines) log
      (Evaluation.stmts .flat context fuel body vars)
      (Concludes assembly activation context (start + lowered.code.length) values) := by
  cases body with
  | nil =>
    obtain rfl := Lowering.stmts_nil_ok ok
    exact .pure rfl ⟨locals, holds, rfl⟩
  | cons first rest =>
    obtain ⟨f, r, first_ok, rest_ok, rfl⟩ := Lowering.stmts_cons_ok ok
    simp only [List.length_append] at inside ⊢
    have below_rest : f.slots.Below r.slots := Lowering.stmts_below rest_ok
    refine (stmt_follows executes first first_ok placed.left (by omega) (below_rest.trans below)
      holds above).bind ?_
    rintro ⟨flow, vars⟩ after reached concludes
    cases flow with
    | next =>
      obtain ⟨locals, holds, rfl⟩ := concludes
      rw [← Nat.add_assoc]
      exact stmts_follows executes rest rest_ok placed.right (by omega) below holds above
    | returned value => exact .pure concludes.shown concludes
termination_by structural body

end

end

end ImpStack

import ImpStack.Proofs.Following
import ImpStack.Proofs.Slots

/-!
The code of an expression leaves its value on the stack, on a machine whose slots hold the
variables. The slots of the whole function are fixed from the start (`Holds`), and the code of a
phrase knows a part of them; this is why a slot that is handed out later does not disturb the ones
before. The induction is on the tree, and each case chains the runs of the parts with the lemmas of
`Follows`. The main result is `expr_follows`.
-/
namespace ImpStack

open Lowering (operatorCode)

/-- Every local name has in its slot the value that it has as a variable. -/
def Holds (slots : Slots) (vars : Vars) (locals : Locals) : Prop :=
  ∀ name ∈ slots.names, locals.get? (slots.slotOf name) = vars name

/-- A store makes the slot of the target hold what the assignment gives it. -/
theorem Holds.set {slots : Slots} {vars : Vars} {locals : Locals} (holds : Holds slots vars locals)
    {target : String} (known : target ∈ slots.names) (value : Value) :
    Holds slots (vars.set target value) (locals.set (slots.slotOf target) value) := by
  intro name member
  by_cases same : name = target
  · subst same
    simp [Vars.set, Locals.get?_set_self]
  · have different : slots.slotOf name ≠ slots.slotOf target :=
      fun equal => same (Slots.slotOf_inj member equal)
    rw [Locals.get?_set_of_ne locals different, holds name member]
    simp [Vars.set, same]

/-- The call executes the function of the context, on a sink that never fails, and its calls go as
those of the context. -/
structure Executes (assembly : Assembly) (arities : Arities) (fuel : Nat)
    (activation : Activation) (context : Evaluation.Context) : Prop where
  neverFails : activation.sink.NeverFails
  name_eq : activation.routine.name = context.function.name
  calls : ∀ {callee : String} {args values : List Value} {next : Nat} {locals : Locals} {log : Log},
    arities callee = some args.length →
    activation.routine.code[next]? = some (.call callee args.length) →
    activation.base ≤ values.length →
    Follows assembly activation.sink fuel
      (activation.machine next locals (args.reverse ++ values) log.lines) log
      (context.call callee args)
      fun value after reached =>
        reached = activation.machine (next + 1) locals (value :: values) after.lines

section

variable {assembly : Assembly} {arities : Arities} {fuel : Nat} {activation : Activation}
  {context : Evaluation.Context}

/-- Behind the code of an expression, which ends at `stop`, its value is on top of the stack. -/
def Yields (activation : Activation) (context : Evaluation.Context) (stop : Nat)
    (values : List Value) (result : Value × Vars) (after : Log) (reached : Machine) : Prop :=
  ∃ locals, Holds context.function.slots result.2 locals ∧
    reached = activation.machine stop locals (result.1 :: values) after.lines

/-- The values of `count` expressions are on the stack, the last one on top. -/
def YieldsAll (activation : Activation) (context : Evaluation.Context) (stop count : Nat)
    (values : List Value) (result : List Value × Vars) (after : Log) (reached : Machine) : Prop :=
  result.1.length = count ∧ ∃ locals, Holds context.function.slots result.2 locals ∧
    reached = activation.machine stop locals (result.1.reverse ++ values) after.lines

/-- A load of a slot with a value pushes and reports it; one of a slot without a value stops with
the fault of the evaluation. -/
theorem read_follows (executes : Executes assembly arities fuel activation context)
    {name : String} {slots : Slots} {slot next : Nat} (known : slots.slot? name = some slot)
    (below : slots.Below context.function.slots)
    (fetch : activation.routine.code[next]? = some (.load slot))
    {vars : Vars} {locals : Locals} (holds : Holds context.function.slots vars locals)
    {values : List Value} {log : Log} :
    Follows assembly activation.sink fuel (activation.machine next locals values log.lines) log
      (Evaluation.read .flat context vars name)
      fun value after reached =>
        reached = activation.machine (next + 1) locals (value :: values) after.lines := by
  obtain ⟨member, slot_eq⟩ := Slots.slot?_eq_some known
  -- Slots are only added behind, so the one known here is that of the whole function.
  have same : context.function.slotOf name = slot := by
    rw [Function.slotOf, below.slotOf_eq member, slot_eq]
  have written : locals.get? slot = vars name := by
    rw [← holds name (below.mem member), ← same]
    rfl
  unfold Evaluation.read
  simp only [Rules.flat, same, ← executes.name_eq]
  cases found : vars name with
  | none =>
    rw [found] at written
    exact .fault rfl (Activation.step_load_unwritten fetch written)
  | some value =>
    rw [found] at written
    have read : (activation.machine next locals values log.lines).read? =
        some ⟨activation.routine.name, slot, value⟩ := by
      rw [Activation.read?_eq fetch]
      simp only [Frame.read?, Frame.load?, written, Option.map_some]
    exact .record_bind (Activation.step_load fetch written) read (.pure rfl rfl) rfl

/-- The code of an operator, which for a comparison is four instructions with two jumps. -/
theorem apply_follows (executes : Executes assembly arities fuel activation context)
    {op : BinaryOp} {start : Nat} (placed : Placed activation.routine start (operatorCode start op))
    (inside : start + (operatorCode start op).length < activation.routine.code.size)
    {values : List Value} (above : activation.base ≤ values.length)
    {left right : Value} {locals : Locals} {log : Log} :
    Follows assembly activation.sink fuel
      (activation.machine start locals (right :: left :: values) log.lines) log
      (Evaluation.apply context op left right)
      fun value after reached =>
        reached = activation.machine (start + (operatorCode start op).length) locals
          (value :: values) after.lines := by
  cases op with
  | arithmetic op =>
    have fetch := placed.head
    have steps : (activation.machine start locals (right :: left :: values) log.lines).step
        assembly = _ := Activation.step_arithmetic fetch above
    unfold Evaluation.apply
    dsimp only
    cases combined : Value.combine? op left right with
    | none =>
      rw [combined, executes.name_eq] at steps
      exact .fault rfl steps
    | some value =>
      rw [combined] at steps
      exact .step_pure steps (Activation.read?_eq fetch) rfl rfl
  | comparison comparison =>
    -- the jump skips the zero, and the zero skips the one
    have branch := placed.head
    have zero := placed.tail.head
    have skip := placed.tail.tail.head
    have one := placed.tail.tail.tail.head
    simp only [operatorCode, List.length_cons, List.length_nil] at inside ⊢
    have oneInside : start + 3 < activation.routine.code.size := by omega
    have steps : (activation.machine start locals (right :: left :: values) log.lines).step
        assembly = _ := Activation.step_jumpIf branch above oneInside
    unfold Evaluation.apply
    dsimp only
    split at steps
    · next holds =>
      rw [if_pos holds]
      refine .step_weak steps (Activation.read?_eq branch) ?_
      exact .step_pure (Activation.step_pushInt one) (Activation.read?_eq one) rfl rfl
    · next fails =>
      rw [if_neg fails]
      refine .step_weak steps (Activation.read?_eq branch) ?_
      refine .step_weak (Activation.step_pushInt zero) (Activation.read?_eq zero) ?_
      exact .step_pure (Activation.step_jump skip inside) (Activation.read?_eq skip) rfl rfl

mutual

/-- The code of an expression goes where its evaluation ends. The operands that lay on the stack
before are still there, below the value. -/
theorem expr_follows (executes : Executes assembly arities fuel activation context) (e : Expr)
    {start : Nat} {slots : Slots} {lowered : Lowered}
    (ok : Lowering.expr arities start slots e = .ok lowered)
    (placed : Placed activation.routine start lowered.code)
    (inside : start + lowered.code.length < activation.routine.code.size)
    (below : lowered.slots.Below context.function.slots)
    {vars : Vars} {locals : Locals} (holds : Holds context.function.slots vars locals)
    {values : List Value} (above : activation.base ≤ values.length) {log : Log} :
    Follows assembly activation.sink fuel (activation.machine start locals values log.lines) log
      (Evaluation.expr .flat context e vars)
      (Yields activation context (start + lowered.code.length) values) := by
  -- One case per form. An operand is followed by the theorem itself, with one more value below it
  -- each time, and the slots found so far stay below those of the whole function.
  cases e with
  | int position value =>
    obtain rfl := Lowering.expr_int_ok ok
    have fetch := placed.head
    exact .step_pure (Activation.step_pushInt fetch) (Activation.read?_eq fetch) rfl
      ⟨locals, holds, rfl⟩
  | float position value =>
    obtain rfl := Lowering.expr_float_ok ok
    have fetch := placed.head
    exact .step_pure (Activation.step_pushFloat fetch) (Activation.read?_eq fetch) rfl
      ⟨locals, holds, rfl⟩
  | var position name =>
    obtain ⟨slot, known, rfl⟩ := Lowering.expr_var_ok ok
    refine (read_follows executes known below placed.head holds).bind ?_
    rintro value after reached rfl
    exact .pure rfl ⟨locals, holds, rfl⟩
  | binary position op left right =>
    obtain ⟨l, r, left_ok, right_ok, rfl⟩ := Lowering.expr_binary_ok ok
    simp only [List.length_append] at inside
    have below_right : l.slots.Below r.slots :=
      Lowering.expr_below right_ok
    refine (expr_follows executes left left_ok placed.left (by omega) (below_right.trans below)
      holds above).bind ?_
    rintro ⟨leftValue, vars⟩ after reached ⟨locals, holds, rfl⟩
    have aboveLeft : activation.base ≤ (leftValue :: values).length := Nat.le_succ_of_le above
    refine (expr_follows executes right right_ok placed.right.left (by omega) below holds
      aboveLeft).bind ?_
    rintro ⟨rightValue, vars⟩ after reached ⟨locals, holds, rfl⟩
    refine (apply_follows executes placed.right.right (by omega) above).bind ?_
    rintro value after reached rfl
    refine .pure rfl ⟨locals, holds, ?_⟩
    simp only [List.length_append, Nat.add_assoc]
  | negate position operand =>
    obtain ⟨o, operand_ok, rfl⟩ := Lowering.expr_negate_ok ok
    simp only [List.length_append] at inside
    refine (expr_follows executes operand operand_ok placed.left (by omega) below holds
      above).bind ?_
    rintro ⟨value, vars⟩ after reached ⟨locals, holds, rfl⟩
    have fetch := placed.right.head
    refine .step_pure (Activation.step_neg fetch above) (Activation.read?_eq fetch) rfl
      ⟨locals, holds, ?_⟩
    simp only [List.length_append, List.length_cons, List.length_nil, Nat.add_assoc]
  | call position callee args =>
    obtain ⟨known, a, args_ok, rfl⟩ := Lowering.expr_call_ok ok
    simp only [List.length_append] at inside
    refine (exprs_follows executes args args_ok placed.left (by omega) below holds above).bind ?_
    rintro ⟨argValues, vars⟩ after reached ⟨count_eq, locals, holds, rfl⟩
    have fetch := placed.right.head
    -- the call itself is what the context promises about its calls
    rw [← count_eq] at known fetch
    refine (executes.calls known fetch above).bind ?_
    rintro value after reached rfl
    refine .pure rfl ⟨locals, holds, ?_⟩
    simp only [List.length_append, List.length_cons, List.length_nil, Nat.add_assoc]
  | assign position target value =>
    obtain ⟨v, value_ok, rfl⟩ := Lowering.expr_assign_ok ok
    simp only [List.length_append] at inside
    have below_value : v.slots.Below context.function.slots :=
      (Slots.below_insert v.slots target).trans below
    refine (expr_follows executes value value_ok placed.left (by omega) below_value holds
      above).bind ?_
    rintro ⟨result, vars⟩ after reached ⟨locals, holds, rfl⟩
    have member := v.slots.mem_insert target
    have copy := placed.right.head
    have store := placed.right.tail.head
    rw [← below.slotOf_eq member] at store
    have aboveCopy : activation.base ≤ (result :: values).length := Nat.le_succ_of_le above
    refine .step_weak (Activation.step_dup copy above) (Activation.read?_eq copy) ?_
    refine .step_pure (Activation.step_store store aboveCopy) (Activation.read?_eq store) rfl
      ⟨_, holds.set (below.mem member) result, ?_⟩
    simp only [List.length_append, List.length_cons, List.length_nil, Nat.add_assoc]
termination_by structural e

/-- Arguments are pushed in their order, so the last one comes to lie on top. -/
theorem exprs_follows (executes : Executes assembly arities fuel activation context)
    (es : List Expr) {start : Nat} {slots : Slots} {lowered : Lowered}
    (ok : Lowering.exprs arities start slots es = .ok lowered)
    (placed : Placed activation.routine start lowered.code)
    (inside : start + lowered.code.length < activation.routine.code.size)
    (below : lowered.slots.Below context.function.slots)
    {vars : Vars} {locals : Locals} (holds : Holds context.function.slots vars locals)
    {values : List Value} (above : activation.base ≤ values.length) {log : Log} :
    Follows assembly activation.sink fuel (activation.machine start locals values log.lines) log
      (Evaluation.exprs .flat context es vars)
      (YieldsAll activation context (start + lowered.code.length) es.length values) := by
  cases es with
  | nil =>
    obtain rfl := Lowering.exprs_nil_ok ok
    exact .pure rfl ⟨rfl, locals, holds, rfl⟩
  | cons first rest =>
    obtain ⟨f, r, first_ok, rest_ok, rfl⟩ := Lowering.exprs_cons_ok ok
    simp only [List.length_append] at inside
    have below_rest : f.slots.Below r.slots := Lowering.exprs_below rest_ok
    refine (expr_follows executes first first_ok placed.left (by omega) (below_rest.trans below)
      holds above).bind ?_
    rintro ⟨value, vars⟩ after reached ⟨locals, holds, rfl⟩
    have aboveFirst : activation.base ≤ (value :: values).length := Nat.le_succ_of_le above
    refine (exprs_follows executes rest rest_ok placed.right (by omega) below holds
      aboveFirst).bind ?_
    rintro ⟨others, vars⟩ after reached ⟨count_eq, locals, holds, rfl⟩
    refine .pure rfl ⟨by rw [List.length_cons, count_eq, List.length_cons], locals, holds, ?_⟩
    simp only [List.length_append, List.reverse_cons, List.append_assoc, List.singleton_append,
      Nat.add_assoc]
termination_by structural es

end

end

end ImpStack

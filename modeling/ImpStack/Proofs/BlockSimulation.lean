import ImpStack.Proofs.BlockScoping
import ImpStack.Proofs.CallSimulation

/-!
A checked program evaluates alike with flat variables and with block scoping, and never reads a name
that has no value. The frames of the check go along with both evaluations: behind a phrase they are
those of `ScopeCheck`, and the variables of the two sides mirror each other under them (`SameValue`,
`SameFlow`). A call that the lowering lets pass has as many arguments as parameters, which is why
calls are alike only under that condition (`CallsAlike`). The main result is `call_alike`.
-/
namespace ImpStack

open Evaluation (Context Flow)

/-- Both evaluations log the same, and they stop for the same reason, which is no missing value, or
have values that `post` relates. -/
def Alike {α β : Type} (post : α → β → Prop) (left : Eval α) (right : Eval β) : Prop :=
  ∀ log, match left log, right log with
    | .ok a after, .ok b other => other = after ∧ post a b
    | .error halt after, .error otherHalt other =>
      otherHalt = halt ∧ other = after ∧ ∀ name slot, halt ≠ .fault (.uninitializedSlot name slot)
    | _, _ => False

namespace Alike

variable {α β γ δ : Type} {post : α → β → Prop} {left : Eval α} {right : Eval β}

theorem pure {a : α} {b : β} (holds : post a b) : Alike post (Pure.pure a) (Pure.pure b) :=
  fun _ => ⟨rfl, holds⟩

/-- Both stop, for a reason other than a missing value. -/
theorem throw {halt : Halt} (given : ∀ name slot, halt ≠ .fault (.uninitializedSlot name slot)) :
    Alike post (throw halt) (throw halt) :=
  fun _ => ⟨rfl, rfl, given⟩

/-- Alike parts, followed by parts that are alike on related values. -/
theorem bind {last : γ → δ → Prop} {leftNext : α → Eval γ} {rightNext : β → Eval δ}
    (first : Alike post left right)
    (rest : ∀ a b, post a b → Alike last (leftNext a) (rightNext b)) :
    Alike last (left >>= leftNext) (right >>= rightNext) := by
  intro log
  have here := first log
  simp only [Bind.bind, EStateM.bind]
  cases leftResult : left log with
  | ok a after =>
    cases rightResult : right log with
    | ok b other =>
      rw [leftResult, rightResult] at here
      obtain ⟨rfl, holds⟩ := here
      exact rest a b holds other
    | error halt other =>
      rw [leftResult, rightResult] at here
      exact here.elim
  | error halt after =>
    cases rightResult : right log with
    | ok b other =>
      rw [leftResult, rightResult] at here
      exact here.elim
    | error otherHalt other =>
      rw [leftResult, rightResult] at here
      exact here

theorem record (read : Read) : Alike Eq (Evaluation.record read) (Evaluation.record read) :=
  fun _ => ⟨rfl, rfl⟩

theorem printLine (line : String) :
    Alike Eq (Evaluation.printLine line) (Evaluation.printLine line) :=
  fun _ => ⟨rfl, rfl⟩

end Alike

section

variable {arities : Arities} {function : Function}
  {flatCall blockCall : String → List Value → Eval Value}

/-- Calls with as many arguments as the function declares are alike. -/
def CallsAlike (arities : Arities) (flatCall blockCall : String → List Value → Eval Value) : Prop :=
  ∀ callee args, arities callee = some args.length →
    Alike Eq (flatCall callee args) (blockCall callee args)

/-- The results of phrases that evaluate alike: the same value, and variables that mirror each
other. -/
def SameValue {α : Type} (scopes : List Scope) (flat : α × Vars) (block : α × BlockVars) : Prop :=
  block.1 = flat.1 ∧ Mirrors scopes block.2 flat.2

/-- An operator does not look at variables. -/
theorem apply_alike (op : BinaryOp) (left right : Value) :
    Alike Eq (Evaluation.apply ⟨function, flatCall⟩ op left right)
      (Evaluation.apply ⟨function, blockCall⟩ op left right) := by
  cases op with
  | arithmetic op =>
    unfold Evaluation.apply
    dsimp only
    cases Value.combine? op left right with
    | some value => exact .pure rfl
    | none => exact .throw (by simp)
  | comparison comparison => exact .pure rfl

/-- A variable that passes the check is read as the same value on both sides. -/
theorem read_alike {scopes : Scopes} {name : String} {position : Position}
    (ok : scopes.checkVariable name position = .ok ()) {blocks : BlockVars} {vars : Vars}
    (mirrors : Mirrors scopes.inner blocks vars) :
    Alike Eq (Evaluation.read .flat ⟨function, flatCall⟩ vars name)
      (Evaluation.read .blocks ⟨function, blockCall⟩ blocks name) := by
  obtain ⟨resolution, found, initialized⟩ := Scopes.checkVariable_ok ok
  obtain ⟨value, blockValue, flatValue⟩ := mirrors.held found initialized
  unfold Evaluation.read
  simp only [Rules.flat, Rules.blocks, flatValue, blockValue]
  exact (Alike.record _).bind fun _ _ _ => .pure rfl

mutual

/-- An expression, under the frames in which it passes the check. -/
theorem expr_alike (calls : CallsAlike arities flatCall blockCall) (e : Expr) {scope : Scope}
    {outer : List Scope} {global : Scope} {after : Scopes}
    (outerSettled : ∀ scope ∈ outer, scope.Settled)
    (ok : Scopes.checkExpr ⟨scope :: outer, global⟩ e = .ok after)
    {start : Nat} {slots : Slots} {lowered : Lowered}
    (lowers : Lowering.expr arities start slots e = .ok lowered)
    {blocks : BlockVars} {vars : Vars} (mirrors : Mirrors (scope :: outer) blocks vars) :
    Alike (SameValue after.inner) (Evaluation.expr .flat ⟨function, flatCall⟩ e vars)
      (Evaluation.expr .blocks ⟨function, blockCall⟩ e blocks) := by
  cases e with
  | int position value =>
    obtain rfl := Except.ok.inj ok
    exact .pure ⟨rfl, mirrors⟩
  | float position value =>
    obtain rfl := Except.ok.inj ok
    exact .pure ⟨rfl, mirrors⟩
  | var position name =>
    obtain ⟨_, variable_ok, ok⟩ := bind_eq_ok ok
    obtain rfl := Except.ok.inj ok
    refine (read_alike variable_ok mirrors).bind ?_
    rintro value _ rfl
    exact .pure ⟨rfl, mirrors⟩
  | binary position op left right =>
    obtain ⟨l, r, left_lowers, right_lowers, _⟩ := Lowering.expr_binary_ok lowers
    obtain ⟨middle, left_ok, right_ok⟩ := bind_eq_ok ok
    obtain ⟨between, rfl, _⟩ := Scopes.checkExpr_eq left outerSettled left_ok
    refine (expr_alike calls left outerSettled left_ok left_lowers mirrors).bind ?_
    rintro ⟨_, vars⟩ ⟨leftValue, blocks⟩ ⟨rfl, mirrors⟩
    refine (expr_alike calls right outerSettled right_ok right_lowers mirrors).bind ?_
    rintro ⟨_, vars⟩ ⟨rightValue, blocks⟩ ⟨rfl, mirrors⟩
    refine (apply_alike op _ _).bind ?_
    rintro value _ rfl
    exact .pure ⟨rfl, mirrors⟩
  | negate position operand =>
    obtain ⟨o, operand_lowers, _⟩ := Lowering.expr_negate_ok lowers
    refine (expr_alike calls operand outerSettled ok operand_lowers mirrors).bind ?_
    rintro ⟨_, vars⟩ ⟨value, blocks⟩ ⟨rfl, mirrors⟩
    exact .pure ⟨rfl, mirrors⟩
  | call position callee args =>
    obtain ⟨known, a, args_lower, _⟩ := Lowering.expr_call_ok lowers
    rw [Scopes.checkExpr] at ok
    split at ok
    · refine (exprs_alike calls args outerSettled ok args_lower mirrors).bind ?_
      rintro ⟨_, vars⟩ ⟨argValues, blocks⟩ ⟨count_eq, rfl, mirrors⟩
      refine (calls callee _ (known.trans (congrArg some count_eq.symm))).bind ?_
      rintro value _ rfl
      exact .pure ⟨rfl, mirrors⟩
    · cases ok
  | assign position target value =>
    obtain ⟨v, value_lowers, _⟩ := Lowering.expr_assign_ok lowers
    obtain ⟨valued, value_ok, ok⟩ := bind_eq_ok ok
    obtain rfl := Except.ok.inj ok
    obtain ⟨declared, valuedScope, defined, declared_eq, rfl, defined_eq, known, initialized, _⟩ :=
      Scopes.assign_eq target outerSettled fun declared declared_eq =>
        Scopes.checkExpr_eq value outerSettled (declared_eq ▸ value_ok)
    rw [declared_eq] at value_ok
    -- the target is declared while the right side is evaluated, but it has no value yet
    refine (expr_alike calls value outerSettled value_ok value_lowers (mirrors.head known)).bind ?_
    rintro ⟨_, vars⟩ ⟨result, blocks⟩ ⟨rfl, mirrors⟩
    rw [defined_eq]
    exact .pure ⟨rfl, mirrors.write initialized _⟩
termination_by structural e

theorem exprs_alike (calls : CallsAlike arities flatCall blockCall) (es : List Expr)
    {scope : Scope} {outer : List Scope} {global : Scope} {after : Scopes}
    (outerSettled : ∀ scope ∈ outer, scope.Settled)
    (ok : Scopes.checkArgs ⟨scope :: outer, global⟩ es = .ok after)
    {start : Nat} {slots : Slots} {lowered : Lowered}
    (lowers : Lowering.exprs arities start slots es = .ok lowered)
    {blocks : BlockVars} {vars : Vars} (mirrors : Mirrors (scope :: outer) blocks vars) :
    Alike (fun flat block => flat.1.length = es.length ∧ SameValue after.inner flat block)
      (Evaluation.exprs .flat ⟨function, flatCall⟩ es vars)
      (Evaluation.exprs .blocks ⟨function, blockCall⟩ es blocks) := by
  cases es with
  | nil =>
    obtain rfl := Except.ok.inj ok
    exact .pure ⟨rfl, rfl, mirrors⟩
  | cons first rest =>
    obtain ⟨f, r, first_lowers, rest_lower, _⟩ := Lowering.exprs_cons_ok lowers
    obtain ⟨middle, first_ok, rest_ok⟩ := bind_eq_ok ok
    obtain ⟨between, rfl, _⟩ := Scopes.checkExpr_eq first outerSettled first_ok
    refine (expr_alike calls first outerSettled first_ok first_lowers mirrors).bind ?_
    rintro ⟨_, vars⟩ ⟨value, blocks⟩ ⟨rfl, mirrors⟩
    refine (exprs_alike calls rest outerSettled rest_ok rest_lower mirrors).bind ?_
    rintro ⟨_, vars⟩ ⟨values, blocks⟩ ⟨count_eq, rfl, mirrors⟩
    exact .pure ⟨congrArg Nat.succ count_eq, rfl, mirrors⟩
termination_by structural es

end

/-- The ends of statements that evaluate alike. Behind a return the variables do not matter. -/
def SameFlow (scopes : List Scope) (flat : Flow × Vars) (block : Flow × BlockVars) : Prop :=
  block.1 = flat.1 ∧ (flat.1 = .next → Mirrors scopes block.2 flat.2)

/-- Both sides judge a comparison by the same rule. -/
theorem condition_alike (calls : CallsAlike arities flatCall blockCall) {test : Expr}
    {scope : Scope} {outer : List Scope} {global : Scope} {after : Scopes}
    (outerSettled : ∀ scope ∈ outer, scope.Settled)
    (ok : Scopes.checkExpr ⟨scope :: outer, global⟩ test = .ok after)
    {start : Nat} {slots : Slots} {lowered : Lowered} {jump : Lowering.Test}
    (lowers : Lowering.condition arities start slots test = .ok (lowered, jump))
    {blocks : BlockVars} {vars : Vars} (mirrors : Mirrors (scope :: outer) blocks vars) :
    Alike (SameValue after.inner) (Evaluation.condition .flat ⟨function, flatCall⟩ test vars)
      (Evaluation.condition .blocks ⟨function, blockCall⟩ test blocks) := by
  obtain ⟨position, comparison, left, right, l, r, rfl, left_lowers, right_lowers, _⟩ |
    ⟨plain, value_lowers, _⟩ := Lowering.condition_ok lowers
  · obtain ⟨middle, left_ok, right_ok⟩ := bind_eq_ok ok
    obtain ⟨between, rfl, _⟩ := Scopes.checkExpr_eq left outerSettled left_ok
    refine (expr_alike calls left outerSettled left_ok left_lowers mirrors).bind ?_
    rintro ⟨_, vars⟩ ⟨leftValue, blocks⟩ ⟨rfl, mirrors⟩
    refine (expr_alike calls right outerSettled right_ok right_lowers mirrors).bind ?_
    rintro ⟨_, vars⟩ ⟨rightValue, blocks⟩ ⟨rfl, mirrors⟩
    exact .pure ⟨rfl, mirrors⟩
  · rw [Evaluation.condition_plain _ _ plain, Evaluation.condition_plain _ _ plain]
    refine (expr_alike calls test outerSettled ok value_lowers mirrors).bind ?_
    rintro ⟨_, vars⟩ ⟨value, blocks⟩ ⟨rfl, mirrors⟩
    exact .pure ⟨rfl, mirrors⟩

/-- A block that is entered with mirrored variables is left with such variables. -/
theorem within_alike {scope : Scope} {outer : List Scope} {global : Scope} {inside : Scopes}
    {body : List Stmt} (settled : ∀ inner ∈ scope :: outer, inner.Settled)
    (ok : Scopes.checkBody (Scopes.enter ⟨scope :: outer, global⟩) body = .ok inside)
    {flatBody : Vars → Eval (Flow × Vars)} {blockBody : BlockVars → Eval (Flow × BlockVars)}
    (alike : ∀ {blocks vars}, Mirrors (.empty :: scope :: outer) blocks vars →
      Alike (SameFlow inside.inner) (flatBody vars) (blockBody blocks))
    {blocks : BlockVars} {vars : Vars} (mirrors : Mirrors (scope :: outer) blocks vars) :
    Alike (SameFlow (scope :: outer)) (Evaluation.within .flat flatBody vars)
      (Evaluation.within .blocks blockBody blocks) := by
  obtain ⟨behind, rfl, _⟩ :=
    Scopes.checkBody_eq body (Scopes.settled_cons settled Scope.settled_empty) ok
  unfold Evaluation.within
  refine (alike mirrors.enter).bind ?_
  rintro ⟨_, vars⟩ ⟨flow, blocks⟩ ⟨rfl, same⟩
  exact .pure ⟨rfl, fun next => (same next).leave⟩

/-- The rounds of a loop. Its test and body are checked once, in frames that later rounds find with
more names initialized. -/
theorem rounds_alike {scope behind : Scope} {outer : List Scope} (grows : scope.Grows behind)
    {flatTest : Vars → Eval (Bool × Vars)} {blockTest : BlockVars → Eval (Bool × BlockVars)}
    {flatBody : Vars → Eval (Flow × Vars)} {blockBody : BlockVars → Eval (Flow × BlockVars)}
    (tests : ∀ {blocks vars}, Mirrors (scope :: outer) blocks vars →
      Alike (SameValue (behind :: outer)) (flatTest vars) (blockTest blocks))
    (bodies : ∀ {blocks vars}, Mirrors (behind :: outer) blocks vars →
      Alike (SameFlow (behind :: outer)) (flatBody vars) (blockBody blocks))
    (fuel : Nat) {blocks : BlockVars} {vars : Vars}
    (mirrors : Mirrors (scope :: outer) blocks vars) :
    Alike (SameFlow (behind :: outer)) (Evaluation.rounds flatTest flatBody fuel vars)
      (Evaluation.rounds blockTest blockBody fuel blocks) := by
  induction fuel generalizing blocks vars with
  | zero => exact .throw (by simp)
  | succ fuel ih =>
    unfold Evaluation.rounds
    refine (tests mirrors).bind ?_
    rintro ⟨_, vars⟩ ⟨goes, blocks⟩ ⟨rfl, mirrors⟩
    cases goes with
    | false => exact .pure ⟨rfl, fun _ => mirrors⟩
    | true =>
      refine (bodies mirrors).bind ?_
      rintro ⟨_, vars⟩ ⟨flow, blocks⟩ ⟨rfl, same⟩
      cases flow with
      -- the next round is checked as the first one was, with more names initialized
      | next => exact ih ((same rfl).head grows.initialized)
      | returned value => exact .pure ⟨rfl, fun never => by cases never⟩

mutual

/-- A statement, under the frames in which it passes the check. Behind a block the frames around it
are as before, so that both sides agree again on what is in scope. -/
theorem stmt_alike (calls : CallsAlike arities flatCall blockCall) (fuel : Nat) (statement : Stmt)
    {scope : Scope} {outer : List Scope} {global : Scope} {after : Scopes}
    (settled : ∀ inner ∈ scope :: outer, inner.Settled)
    (ok : Scopes.checkStmt ⟨scope :: outer, global⟩ statement = .ok after) {void : Bool}
    {start : Nat} {slots : Slots} {lowered : Lowered}
    (lowers : Lowering.stmt arities void start slots statement = .ok lowered)
    {blocks : BlockVars} {vars : Vars} (mirrors : Mirrors (scope :: outer) blocks vars) :
    Alike (SameFlow after.inner) (Evaluation.stmt .flat ⟨function, flatCall⟩ fuel statement vars)
      (Evaluation.stmt .blocks ⟨function, blockCall⟩ fuel statement blocks) := by
  have outerSettled := Scopes.settled_outer settled
  cases statement with
  | assign position target value =>
    obtain ⟨v, value_lowers, _⟩ := Lowering.stmt_assign_ok lowers
    obtain ⟨valued, value_ok, ok⟩ := bind_eq_ok ok
    obtain rfl := Except.ok.inj ok
    obtain ⟨declared, valuedScope, defined, declared_eq, rfl, defined_eq, known, initialized, _⟩ :=
      Scopes.assign_eq target outerSettled fun declared declared_eq =>
        Scopes.checkExpr_eq value outerSettled (declared_eq ▸ value_ok)
    rw [declared_eq] at value_ok
    -- The target is declared while its value is evaluated, but it has no value yet, so the frames
    -- in front of it mirror the variables as before.
    refine (expr_alike calls value outerSettled value_ok value_lowers (mirrors.head known)).bind ?_
    rintro ⟨_, vars⟩ ⟨result, blocks⟩ ⟨rfl, mirrors⟩
    rw [defined_eq]
    exact .pure ⟨rfl, fun _ => mirrors.write initialized _⟩
  | discard position value =>
    obtain ⟨v, value_lowers, _⟩ := Lowering.stmt_discard_ok lowers
    refine (expr_alike calls value outerSettled ok value_lowers mirrors).bind ?_
    rintro ⟨_, vars⟩ ⟨result, blocks⟩ ⟨rfl, mirrors⟩
    exact .pure ⟨rfl, fun _ => mirrors⟩
  | print position value =>
    obtain ⟨v, value_lowers, _⟩ := Lowering.stmt_print_ok lowers
    refine (expr_alike calls value outerSettled ok value_lowers mirrors).bind ?_
    rintro ⟨_, vars⟩ ⟨result, blocks⟩ ⟨rfl, mirrors⟩
    exact (Alike.printLine _).bind fun _ _ _ => .pure ⟨rfl, fun _ => mirrors⟩
  | branch position test body alternative =>
    cases alternative with
    | none =>
      obtain ⟨t, jump, b, test_lowers, body_lowers, _⟩ := Lowering.stmt_if_ok lowers
      obtain ⟨tested, test_ok, ok⟩ := bind_eq_ok ok
      obtain ⟨inside, body_ok, ok⟩ := bind_eq_ok ok
      obtain rfl := Except.ok.inj ok
      obtain ⟨behind, rfl, grows⟩ := Scopes.checkExpr_eq test outerSettled test_ok
      have behindSettled := Scopes.settled_behind settled grows
      -- Behind the branch stand the frames from behind its test, whether or not its body runs.
      rw [Scopes.exit_eq (Scopes.checkBody_eq body) behindSettled body_ok]
      refine (condition_alike calls outerSettled test_ok test_lowers mirrors).bind ?_
      rintro ⟨_, vars⟩ ⟨goes, blocks⟩ ⟨rfl, mirrors⟩
      cases goes with
      | false => exact .pure ⟨rfl, fun _ => mirrors⟩
      | true =>
        exact within_alike behindSettled body_ok
          (fun mirrors => stmts_alike calls fuel body
            (Scopes.settled_cons behindSettled Scope.settled_empty) body_ok body_lowers mirrors)
          mirrors
    | some alternative =>
      obtain ⟨t, jump, b, a, test_lowers, body_lowers, other_lowers, _⟩ :=
        Lowering.stmt_ifElse_ok lowers
      obtain ⟨tested, test_ok, ok⟩ := bind_eq_ok ok
      obtain ⟨inside, body_ok, ok⟩ := bind_eq_ok ok
      obtain ⟨other, other_ok, ok⟩ := bind_eq_ok ok
      obtain rfl := Except.ok.inj ok
      obtain ⟨behind, rfl, grows⟩ := Scopes.checkExpr_eq test outerSettled test_ok
      have behindSettled := Scopes.settled_behind settled grows
      have insideSettled := Scopes.settled_cons behindSettled Scope.settled_empty
      rw [Scopes.exit_eq (Scopes.checkBody_eq body) behindSettled body_ok] at other_ok
      rw [Scopes.exit_eq (Scopes.checkBody_eq alternative) behindSettled other_ok]
      refine (condition_alike calls outerSettled test_ok test_lowers mirrors).bind ?_
      rintro ⟨_, vars⟩ ⟨goes, blocks⟩ ⟨rfl, mirrors⟩
      cases goes with
      | false =>
        exact within_alike behindSettled other_ok
          (fun mirrors => stmts_alike calls fuel alternative insideSettled other_ok other_lowers
            mirrors)
          mirrors
      | true =>
        exact within_alike behindSettled body_ok
          (fun mirrors => stmts_alike calls fuel body insideSettled body_ok body_lowers mirrors)
          mirrors
  | loop position test body =>
    obtain ⟨t, jump, b, test_lowers, body_lowers, _⟩ := Lowering.stmt_loop_ok lowers
    obtain ⟨tested, test_ok, ok⟩ := bind_eq_ok ok
    obtain ⟨inside, body_ok, ok⟩ := bind_eq_ok ok
    obtain rfl := Except.ok.inj ok
    obtain ⟨behind, rfl, grows⟩ := Scopes.checkExpr_eq test outerSettled test_ok
    have behindSettled := Scopes.settled_behind settled grows
    rw [Scopes.exit_eq (Scopes.checkBody_eq body) behindSettled body_ok]
    -- The frames fit every round, since a later one only finds more names initialized.
    exact rounds_alike grows
      (fun mirrors => condition_alike calls outerSettled test_ok test_lowers mirrors)
      (fun mirrors => within_alike behindSettled body_ok
        (fun mirrors => stmts_alike calls fuel body
          (Scopes.settled_cons behindSettled Scope.settled_empty) body_ok body_lowers mirrors)
        mirrors)
      fuel mirrors
  | return_ position value =>
    cases value with
    | none =>
      obtain rfl := Except.ok.inj ok
      exact .pure ⟨rfl, fun _ => mirrors⟩
    | some value =>
      obtain ⟨v, value_lowers, _⟩ := Lowering.stmt_return_ok lowers
      refine (expr_alike calls value outerSettled ok value_lowers mirrors).bind ?_
      rintro ⟨_, vars⟩ ⟨result, blocks⟩ ⟨rfl, mirrors⟩
      exact .pure ⟨rfl, fun _ => mirrors⟩
  | block position body =>
    obtain ⟨inside, body_ok, ok⟩ := bind_eq_ok ok
    obtain rfl := Except.ok.inj ok
    rw [Scopes.exit_eq (Scopes.checkBody_eq body) settled body_ok]
    exact within_alike settled body_ok
      (fun mirrors => stmts_alike calls fuel body
        (Scopes.settled_cons settled Scope.settled_empty) body_ok
        (Lowering.stmt_block_ok lowers) mirrors)
      mirrors
termination_by structural statement

theorem stmts_alike (calls : CallsAlike arities flatCall blockCall) (fuel : Nat) (body : List Stmt)
    {scope : Scope} {outer : List Scope} {global : Scope} {after : Scopes}
    (settled : ∀ inner ∈ scope :: outer, inner.Settled)
    (ok : Scopes.checkBody ⟨scope :: outer, global⟩ body = .ok after) {void : Bool}
    {start : Nat} {slots : Slots} {lowered : Lowered}
    (lowers : Lowering.stmts arities void start slots body = .ok lowered)
    {blocks : BlockVars} {vars : Vars} (mirrors : Mirrors (scope :: outer) blocks vars) :
    Alike (SameFlow after.inner) (Evaluation.stmts .flat ⟨function, flatCall⟩ fuel body vars)
      (Evaluation.stmts .blocks ⟨function, blockCall⟩ fuel body blocks) := by
  cases body with
  | nil =>
    obtain rfl := Except.ok.inj ok
    exact .pure ⟨rfl, fun _ => mirrors⟩
  | cons first rest =>
    obtain ⟨f, r, first_lowers, rest_lower, _⟩ := Lowering.stmts_cons_ok lowers
    obtain ⟨middle, first_ok, rest_ok⟩ := bind_eq_ok ok
    obtain ⟨between, rfl, grows⟩ := Scopes.checkStmt_eq first settled first_ok
    refine (stmt_alike calls fuel first settled first_ok first_lowers mirrors).bind ?_
    rintro ⟨_, vars⟩ ⟨flow, blocks⟩ ⟨rfl, same⟩
    cases flow with
    | next =>
      exact stmts_alike calls fuel rest (Scopes.settled_behind settled grows) rest_ok rest_lower
        (same rfl)
    | returned value => exact .pure ⟨rfl, fun never => by cases never⟩
termination_by structural body

end

/-- At the start of a call both sides hold the arguments and nothing else. -/
theorem Mirrors.ofArgs {params : Scope} (distinct : function.paramNames.Nodup)
    (known : ∀ name, (name, true) ∈ params.entries → name ∈ function.paramNames)
    {args : List Value} (count_eq : args.length = function.paramNames.length) :
    Mirrors [params] [.ofArgs function.paramNames args] (.ofArgs function.paramNames args) where
  covers := by
    refine ⟨fun name member => ?_, trivial⟩
    have here := Vars.foldl_set_of_mem distinct (known name member) .empty count_eq
    have inside := List.idxOf_lt_length_of_mem (known name member)
    rw [BlockVars.read?_cons, Vars.ofArgs, here, List.getElem?_eq_getElem (count_eq ▸ inside)]
    simp
  single := ⟨fun _ _ => rfl, trivial⟩
  agrees := by
    intro name value here
    rw [BlockVars.read?_cons] at here
    simpa [BlockVars.read?] using here

/-- A call of a checked function, in a context whose calls are alike. -/
theorem invoke_alike (calls : CallsAlike arities flatCall blockCall) (fuel : Nat) {global : Scope}
    (ok : function.check global = .ok ()) {routine : Routine}
    (lowers : Lowering.routine arities function = .ok routine) {args : List Value}
    (count_eq : args.length = function.paramNames.length) :
    Alike Eq (Evaluation.invoke .flat ⟨function, flatCall⟩ fuel args)
      (Evaluation.invoke .blocks ⟨function, blockCall⟩ fuel args) := by
  obtain ⟨params, after, settled, distinct, known, body_ok⟩ := Function.check_ok ok
  obtain ⟨b, body_lowers, _⟩ := Lowering.routine_ok lowers
  have paramsSettled : ∀ inner ∈ [params], inner.Settled :=
    Scopes.settled_cons (fun inner member => (List.not_mem_nil member).elim) settled
  unfold Evaluation.invoke
  refine (within_alike paramsSettled body_ok (fun mirrors => stmts_alike calls fuel function.body
    (Scopes.settled_cons paramsSettled Scope.settled_empty) body_ok body_lowers mirrors)
    (Mirrors.ofArgs distinct known count_eq)).bind ?_
  rintro ⟨_, vars⟩ ⟨flow, blocks⟩ ⟨rfl, _⟩
  cases flow with
  | next => exact .pure rfl
  | returned value => exact .pure rfl

end

/-- Calls among checked functions, by induction on the fuel. -/
theorem call_alike {name : String} {program : Program} {assembly : Assembly} {global : Scope}
    (ok : Assembly.ofProgram name program = .ok assembly)
    (checked : ∀ function ∈ program.functions, function.check global = .ok ()) (fuel depth : Nat)
    {callee : String} {args : List Value}
    (known : program.arities callee = some args.length) :
    Alike Eq (Evaluation.call .flat program fuel depth callee args)
      (Evaluation.call .blocks program fuel depth callee args) := by
  induction fuel generalizing depth callee args with
  | zero => exact .throw (by simp)
  | succ fuel ih =>
    rw [Program.arities_eq] at known
    obtain ⟨function, found, arity_eq⟩ := Option.map_eq_some_iff.mp known
    obtain ⟨routine, _, routine_ok⟩ := Assembly.dispatch?_of_function? ok found
    have member : function ∈ program.functions :=
      List.mem_reverse.mp (List.mem_of_find?_eq_some found)
    have count_eq : args.length = function.paramNames.length := by
      rw [← arity_eq, Function.paramNames, List.length_map]
      rfl
    simp only [Evaluation.call_succ, found]
    split
    · exact .throw (by simp)
    · have calls : CallsAlike program.arities
          (Evaluation.callValue .flat program fuel (depth + 1))
          (Evaluation.callValue .blocks program fuel (depth + 1)) := by
        intro callee args known
        refine (ih (depth + 1) known).bind ?_
        rintro value _ rfl
        exact .pure rfl
      exact invoke_alike calls fuel (checked function member) routine_ok count_eq

end ImpStack

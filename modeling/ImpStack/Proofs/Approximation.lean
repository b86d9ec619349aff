import ImpStack.Proofs.Comparing
import ImpStack.Proofs.Dispatch
import ImpStack.Proofs.ForcedLowering

/-!
Evaluations that differ only where one of them stops early: for want of fuel, or at a comparison
that its rules leave open (`UpTo`). One induction over the tree serves both uses, an evaluation with
more fuel (`Feeds`) and one of a program with forced conditions (`Guards`, `Corresponds`); the main
result is `call_upTo`.
-/
namespace ImpStack

open Evaluation (Context Flow)

/-- As with flat variables, but a comparison at a chosen place that asks for the order of its
operands is left open when they have none. -/
def Rules.guarded (chosen : Position → Bool) : Rules Vars :=
  { Rules.flat with
    judge := fun position comparison left right =>
      if chosen position && (comparison.isOrdering && Value.unordered left right) then none
      else Rules.flat.judge position comparison left right }

/-- Whether a number is zero is never left open. -/
theorem Rules.guarded_judge_number (chosen : Position → Bool) (position : Position)
    (holds : Bool) :
    (Rules.guarded chosen).judge position .ne (.int (if holds then 1 else 0)) (.int 0) =
      some holds := by
  have ordered : (Comparison.ne.isOrdering &&
      Value.unordered (.int (if holds then 1 else 0)) (.int 0)) = false := rfl
  simp only [Rules.guarded, Rules.flat, ordered, Bool.and_false, Value.passes_of_ordered ordered]
  cases holds <;> rfl

theorem Rules.guarded_none : Rules.guarded (fun _ => false) = .flat := rfl

/-- The left evaluation does what the right one does, unless it stops for the reason `halt`. -/
def UpTo (halt : Halt) {α : Type} (left right : Eval α) : Prop :=
  ∀ log, left log = right log ∨ ∃ after, left log = .error halt after

namespace UpTo

variable {halt : Halt} {α β : Type}

theorem refl (eval : Eval α) : UpTo halt eval eval := fun _ => .inl rfl

theorem halted (right : Eval α) : UpTo halt (throw halt) right := fun log => .inr ⟨log, rfl⟩

/-- An early stop of the first part is one of the whole. -/
theorem bind {left right : Eval α} {leftNext rightNext : α → Eval β}
    (first : UpTo halt left right) (rest : ∀ a, UpTo halt (leftNext a) (rightNext a)) :
    UpTo halt (left >>= leftNext) (right >>= rightNext) := by
  intro log
  simp only [Bind.bind, EStateM.bind]
  obtain same | ⟨after, stopped⟩ := first log
  · rw [same]
    cases right log with
    | ok a after => exact rest a after
    | error other after => exact .inl rfl
  · rw [stopped]
    exact .inr ⟨after, rfl⟩

end UpTo

/-- Where the right evaluation has a condition forced, or does not leave open a comparison that the
left one may leave open, the left one may stop. -/
def Guards (halt : Halt) (guarded other forced : Position → Bool) : Prop :=
  ∀ position, guarded position = other position ∧ forced position = false ∨
    halt = .undecided ∧ guarded position = true

/-- Both evaluations have the same fuel, or the left one may stop for want of it. -/
def Feeds (halt : Halt) (less more : Nat) : Prop :=
  less = more ∨ halt = .outOfFuel ∧ less ≤ more

theorem Feeds.pred {halt : Halt} {less more : Nat} (feeds : Feeds halt (less + 1) (more + 1)) :
    Feeds halt less more := by
  obtain same | ⟨rfl, le⟩ := feeds
  · exact .inl (Nat.succ.inj same)
  · exact .inr ⟨rfl, Nat.le_of_succ_le_succ le⟩

/-- The right evaluation stands in the same function, with its conditions forced. -/
structure Corresponds (halt : Halt) (forced : Position → Bool) (context other : Context) :
    Prop where
  function_eq : other.function = context.function.force forced
  calls : ∀ callee args, UpTo halt (context.call callee args) (other.call callee args)

section

variable {halt : Halt} {guarded unguarded forced : Position → Bool} {context other : Context}

theorem Corresponds.apply_eq (corresponds : Corresponds halt forced context other) (op : BinaryOp)
    (left right : Value) :
    Evaluation.apply other op left right = Evaluation.apply context op left right := by
  unfold Evaluation.apply
  rw [corresponds.function_eq]
  rfl

theorem Corresponds.read_eq (corresponds : Corresponds halt forced context other) (vars : Vars)
    (name : String) :
    Evaluation.read (.guarded unguarded) other vars name =
      Evaluation.read (.guarded guarded) context vars name := by
  have slot_eq : other.function.slotOf name = context.function.slotOf name := by
    rw [corresponds.function_eq, Function.slotOf, Function.slots_force]
    rfl
  have name_eq : other.function.name = context.function.name := by
    rw [corresponds.function_eq]
    rfl
  unfold Evaluation.read
  rw [slot_eq, name_eq]
  rfl

mutual

/-- Expressions contain no condition, so only their calls can stop early. -/
theorem expr_upTo (corresponds : Corresponds halt forced context other) (e : Expr) (vars : Vars) :
    UpTo halt (Evaluation.expr (.guarded guarded) context e vars)
      (Evaluation.expr (.guarded unguarded) other e vars) := by
  cases e with
  | int position value => exact .refl _
  | float position value => exact .refl _
  | var position name =>
    rw [Evaluation.expr, Evaluation.expr, corresponds.read_eq]
    exact .refl _
  | binary position op left right =>
    rw [Evaluation.expr, Evaluation.expr]
    refine (expr_upTo corresponds left vars).bind fun ⟨leftValue, vars⟩ => ?_
    refine (expr_upTo corresponds right vars).bind fun ⟨rightValue, vars⟩ => ?_
    dsimp only
    rw [corresponds.apply_eq]
    exact .refl _
  | negate position operand =>
    rw [Evaluation.expr, Evaluation.expr]
    exact (expr_upTo corresponds operand vars).bind fun _ => .refl _
  | call position callee args =>
    rw [Evaluation.expr, Evaluation.expr]
    refine (exprs_upTo corresponds args vars).bind fun ⟨argValues, vars⟩ => ?_
    exact (corresponds.calls callee argValues).bind fun _ => .refl _
  | assign position target value =>
    rw [Evaluation.expr, Evaluation.expr]
    exact (expr_upTo corresponds value vars).bind fun _ => .refl _
termination_by structural e

theorem exprs_upTo (corresponds : Corresponds halt forced context other) (es : List Expr)
    (vars : Vars) :
    UpTo halt (Evaluation.exprs (.guarded guarded) context es vars)
      (Evaluation.exprs (.guarded unguarded) other es vars) := by
  cases es with
  | nil => exact .refl _
  | cons first rest =>
    rw [Evaluation.exprs, Evaluation.exprs]
    refine (expr_upTo corresponds first vars).bind fun ⟨value, vars⟩ => ?_
    exact (exprs_upTo corresponds rest vars).bind fun _ => .refl _
termination_by structural es

end

/-- The conditions that a comparison makes, forced or not, once its operands are known. -/
theorem judge_upTo (guards : Guards halt guarded unguarded forced) (position : Position)
    (comparison : Comparison) (left right : Value) (vars : Vars) :
    UpTo halt
      (match (Rules.guarded guarded).judge position comparison left right with
        | some holds => return (holds, vars)
        | none => throw .undecided)
      (if forced position then return (Value.holds comparison left right, vars)
        else match (Rules.guarded unguarded).judge position comparison left right with
          | some holds => return (holds, vars)
          | none => throw .undecided) := by
  simp only [Rules.guarded, Rules.flat]
  obtain ⟨same, notForced⟩ | ⟨rfl, isGuarded⟩ := guards position
  · rw [same, notForced]
    exact .refl _
  · cases isOpen : comparison.isOrdering && Value.unordered left right with
    | true =>
      rw [isGuarded]
      exact .halted _
    | false =>
      rw [Value.passes_of_ordered isOpen, Bool.and_false, Bool.and_false]
      cases forced position with
      | true => exact .refl _
      | false => exact .refl _

/-- A forced condition evaluates the comparison to a number and judges that; where the rules do not
leave the comparison open, the two judgements are the same. -/
theorem condition_upTo (guards : Guards halt guarded unguarded forced)
    (corresponds : Corresponds halt forced context other) (test : Expr) (vars : Vars) :
    UpTo halt (Evaluation.condition (.guarded guarded) context test vars)
      (Evaluation.condition (.guarded unguarded) other (test.forced forced) vars) := by
  unfold Expr.forced
  split
  · next position comparison left right =>
    split
    · next isForced =>
      simp only [Evaluation.condition, Evaluation.expr, bind_assoc, pure_bind]
      refine (expr_upTo corresponds left vars).bind fun ⟨leftValue, vars⟩ => ?_
      refine (expr_upTo corresponds right vars).bind fun ⟨rightValue, vars⟩ => ?_
      have judged := judge_upTo guards position comparison leftValue rightValue vars
      rw [if_pos isForced] at judged
      simp only [Evaluation.apply, pure_bind, Rules.guarded_judge_number]
      exact judged
    · next notForced =>
      rw [Evaluation.condition, Evaluation.condition]
      refine (expr_upTo corresponds left vars).bind fun ⟨leftValue, vars⟩ => ?_
      refine (expr_upTo corresponds right vars).bind fun ⟨rightValue, vars⟩ => ?_
      have judged := judge_upTo guards position comparison leftValue rightValue vars
      rw [if_neg notForced] at judged
      exact judged
  · next plain =>
    have isPlain : test.IsPlain := fun position comparison left right same =>
      plain position comparison left right same
    rw [Evaluation.condition_plain _ _ isPlain, Evaluation.condition_plain _ _ isPlain]
    exact (expr_upTo corresponds test vars).bind fun _ => .refl _

theorem within_upTo {leftBody rightBody : Vars → Eval (Flow × Vars)}
    (bodies : ∀ vars, UpTo halt (leftBody vars) (rightBody vars)) (vars : Vars) :
    UpTo halt (Evaluation.within (.guarded guarded) leftBody vars)
      (Evaluation.within (.guarded unguarded) rightBody vars) := by
  unfold Evaluation.within
  exact (bodies vars).bind fun _ => .refl _

/-- By induction on the fuel: fewer rounds stop for want of it. -/
theorem rounds_upTo {leftTest rightTest : Vars → Eval (Bool × Vars)}
    {leftBody rightBody : Vars → Eval (Flow × Vars)}
    (tests : ∀ vars, UpTo halt (leftTest vars) (rightTest vars))
    (bodies : ∀ vars, UpTo halt (leftBody vars) (rightBody vars)) {less more : Nat}
    (feeds : Feeds halt less more) (vars : Vars) :
    UpTo halt (Evaluation.rounds leftTest leftBody less vars)
      (Evaluation.rounds rightTest rightBody more vars) := by
  induction less generalizing more vars with
  | zero =>
    -- Without fuel the left side halts. Either the right one has none as well, or to run out of
    -- fuel is the halt left open.
    obtain rfl | ⟨rfl, _⟩ := feeds
    · exact .refl _
    · exact .halted _
  | succ less ih =>
    cases more with
    | zero =>
      obtain never | ⟨_, never⟩ := feeds
      · cases never
      · cases never
    | succ more =>
      unfold Evaluation.rounds
      refine (tests vars).bind fun ⟨goes, vars⟩ => ?_
      cases goes with
      | false => exact .refl _
      | true =>
        refine (bodies vars).bind fun ⟨flow, vars⟩ => ?_
        cases flow with
        | next => exact ih feeds.pred vars
        | returned value => exact .refl _

mutual

/-- Statements, by induction on the tree. Only conditions and loops differ. -/
theorem stmt_upTo (guards : Guards halt guarded unguarded forced)
    (corresponds : Corresponds halt forced context other) {less more : Nat}
    (feeds : Feeds halt less more) (statement : Stmt) (vars : Vars) :
    UpTo halt (Evaluation.stmt (.guarded guarded) context less statement vars)
      (Evaluation.stmt (.guarded unguarded) other more (statement.force forced) vars) := by
  -- Both sides take the same steps. The left one may halt first in a condition, in a call or where
  -- a loop runs out of fuel.
  cases statement with
  | assign position target value =>
    rw [Stmt.force, Evaluation.stmt, Evaluation.stmt]
    exact (expr_upTo corresponds value vars).bind fun _ => .refl _
  | discard position value =>
    rw [Stmt.force, Evaluation.stmt, Evaluation.stmt]
    exact (expr_upTo corresponds value vars).bind fun _ => .refl _
  | print position value =>
    rw [Stmt.force, Evaluation.stmt, Evaluation.stmt]
    exact (expr_upTo corresponds value vars).bind fun _ => .refl _
  | branch position test body alternative =>
    cases alternative with
    | none =>
      rw [Stmt.force, Evaluation.stmt, Evaluation.stmt]
      refine (condition_upTo guards corresponds test vars).bind fun ⟨goes, vars⟩ => ?_
      cases goes with
      | false => exact .refl _
      | true => exact within_upTo (stmts_upTo guards corresponds feeds body) vars
    | some alternative =>
      rw [Stmt.force, Evaluation.stmt, Evaluation.stmt]
      refine (condition_upTo guards corresponds test vars).bind fun ⟨goes, vars⟩ => ?_
      cases goes with
      | false => exact within_upTo (stmts_upTo guards corresponds feeds alternative) vars
      | true => exact within_upTo (stmts_upTo guards corresponds feeds body) vars
  | loop position test body =>
    rw [Stmt.force, Evaluation.stmt, Evaluation.stmt]
    exact rounds_upTo (condition_upTo guards corresponds test)
      (within_upTo (stmts_upTo guards corresponds feeds body)) feeds vars
  | return_ position value =>
    cases value with
    | none =>
      rw [Stmt.force, Evaluation.stmt, Evaluation.stmt, corresponds.function_eq]
      exact .refl _
    | some value =>
      rw [Stmt.force, Evaluation.stmt, Evaluation.stmt]
      exact (expr_upTo corresponds value vars).bind fun _ => .refl _
  | block position body =>
    rw [Stmt.force, Evaluation.stmt, Evaluation.stmt]
    exact within_upTo (stmts_upTo guards corresponds feeds body) vars
termination_by structural statement

theorem stmts_upTo (guards : Guards halt guarded unguarded forced)
    (corresponds : Corresponds halt forced context other) {less more : Nat}
    (feeds : Feeds halt less more) (body : List Stmt) (vars : Vars) :
    UpTo halt (Evaluation.stmts (.guarded guarded) context less body vars)
      (Evaluation.stmts (.guarded unguarded) other more (Stmt.forceAll forced body) vars) := by
  cases body with
  | nil => exact .refl _
  | cons first rest =>
    rw [Stmt.forceAll, Evaluation.stmts, Evaluation.stmts]
    refine (stmt_upTo guards corresponds feeds first vars).bind fun ⟨flow, vars⟩ => ?_
    cases flow with
    | next => exact stmts_upTo guards corresponds feeds rest vars
    | returned value => exact .refl _
termination_by structural body

end

/-- The body of a function, whose parameters are the same in both evaluations. -/
theorem invoke_upTo (guards : Guards halt guarded unguarded forced)
    (corresponds : Corresponds halt forced context other) {less more : Nat}
    (feeds : Feeds halt less more) (args : List Value) :
    UpTo halt (Evaluation.invoke (.guarded guarded) context less args)
      (Evaluation.invoke (.guarded unguarded) other more args) := by
  unfold Evaluation.invoke
  rw [corresponds.function_eq]
  refine (within_upTo (stmts_upTo guards corresponds feeds _) _).bind fun ⟨flow, _⟩ => ?_
  cases flow with
  | next => exact .refl _
  | returned value => exact .refl _

/-- Calls, by induction on the smaller fuel. -/
theorem call_upTo (guards : Guards halt guarded unguarded forced) (program : Program)
    {less more : Nat} (feeds : Feeds halt less more) (depth : Nat) (callee : String)
    (args : List Value) :
    UpTo halt (Evaluation.call (.guarded guarded) program less depth callee args)
      (Evaluation.call (.guarded unguarded) (program.force forced) more depth callee args) := by
  induction less generalizing more depth callee args with
  | zero =>
    obtain rfl | ⟨rfl, _⟩ := feeds
    · exact .refl _
    · exact .halted _
  | succ less ih =>
    cases more with
    | zero =>
      obtain never | ⟨_, never⟩ := feeds
      · cases never
      · cases never
    | succ more =>
      rw [Evaluation.call_succ, Evaluation.call_succ, Program.function?_force]
      cases program.function? callee with
      | none => exact .refl _
      | some function =>
        rw [Option.map_some]
        dsimp only
        split
        · exact .refl _
        · refine invoke_upTo guards ⟨rfl, fun callee args => ?_⟩ feeds.pred args
          exact (ih feeds.pred (depth + 1) callee args).bind fun _ => .refl _

end

end ImpStack

import ImpStack.Proofs.Foresight

/-!
Every parser of the language, with or without the rule for callees, agrees with the prospect that
has the parser's phrase as its topmost goal (`program_meets`).

There is one lemma for each parser, and its proof follows the parser: at every token that the parser
looks at, the move of the goal says what the parser does with it. The counts of turns are large
enough for the tokens ahead, so that no parser fails for want of turns (`Tokens.current_eq_eof`).
-/
namespace ImpStack

/-- A parser without turns has no tokens either, and stands before the end of the input. -/
theorem Tokens.current_eq_eof {tokens : Tokens} (empty : tokens.ahead.length = 0) :
    tokens.current.kind = .eof :=
  current_eof_iff.mpr (List.length_eq_zero_iff.mp empty)

namespace Prospect

variable {isName : Bool} {goals rest : List Goal} {token : Token} {closing : Symbol}

/-- In front of an expression that may be missing. -/
theorem step_optional (other : token.kind ≠ .symbol closing) :
    step ⟨isName, .optional closing :: rest⟩ token =
      step ⟨isName, .operand :: .operators .assignment :: rest⟩ token := by
  have same : (Goal.optional closing).move isName token =
      (Goal.operand.move isName token).andThen [.operators .assignment] := if_neg other
  exact step_congr same (Goal.moveOperand_ne_pass token)

/-- No argument stands between the parentheses. -/
theorem step_closing (kind : token.kind = .symbol .rightParen) :
    step ⟨isName, .optional .rightParen :: .moreArgs :: rest⟩ token = step ⟨false, rest⟩ token := by
  have here : (Goal.optional .rightParen).move isName token = .pass false := if_pos kind
  have there : Goal.moreArgs.move false token = .pass false := if_neg (by simp [kind])
  rw [step_pass here, step_pass there]

/-- A parameter stands behind the parenthesis. -/
theorem step_optionalName (other : token.kind ≠ .symbol .rightParen) :
    step ⟨isName, .optionalName :: rest⟩ token =
      step ⟨isName, .name :: rest⟩ token := by
  simp only [step, stepAlong, Goal.move, if_neg other]

end Prospect

namespace Parser

open Goal (moveOperand moveOperator moveStatement)

variable {rule : CalleeRule} {before : Tokens} {name : Bool} {rest : List Goal}

/-! ### Expressions -/

/-- A literal is taken if its text has a value, and refused otherwise. -/
theorem literal_meets {α : Type} {value? : Token → Option α} {build : Token → α → Expr}
    {failure : Token → SyntaxError} (real : before.current.kind ≠ .eof)
    (move : moveOperand before.current =
      if (value? before.current).isSome then .take false [] else .refuse)
    (plain : ∀ token value, (build token value).isName = false)
    (unreadable : value? before.current = none → (failure before.current).isUnexpected →
      before.current.Unreadable) :
    Meets rule 1 ⟨name, .operand :: rest⟩ (fun e => ⟨e.isName, rest⟩)
      (literal value? build failure) before := by
  unfold literal
  cases value : value? before.current with
  | none =>
    rw [value] at move
    exact .refuse rfl real (Prospect.step_refuse move) (by rw [value]) (unreadable value)
  | some number =>
    rw [value] at move
    refine .advance rfl real (Prospect.step_take move) fun _ => ?_
    rw [value]
    exact .pure (by rw [plain]; rfl)

/-- An integer may be out of range, which is no error about an unexpected token. -/
theorem intLiteral_meets (kind : before.current.kind = .intLiteral) :
    Meets rule 1 ⟨name, .operand :: rest⟩ (fun e => ⟨e.isName, rest⟩) intLiteral before := by
  rw [intLiteral_eq]
  refine literal_meets (by simp [kind]) ?_ (fun _ _ => rfl) (fun _ => nofun)
  simp only [moveOperand, kind]

theorem floatLiteral_meets (kind : before.current.kind = .floatLiteral) :
    Meets rule 1 ⟨name, .operand :: rest⟩ (fun e => ⟨e.isName, rest⟩) floatLiteral before := by
  rw [floatLiteral_eq]
  refine literal_meets (by simp [kind]) ?_ (fun _ _ => rfl) (fun absent _ => ⟨kind, absent⟩)
  simp only [moveOperand, kind]

/-- With the rule, a callee that is no name is an error of its own; without it there is none. -/
theorem callOf_meets {left : Expr} {paren : Token} {arguments : List Expr} :
    Meets rule 0 ⟨false, rest⟩ (fun e => ⟨e.isName, rest⟩)
      (By.callOf rule left paren arguments) before := by
  cases left with
  | var position callee => exact .pure rfl
  | _ =>
    cases rule with
    | any => exact .pure rfl
    | named => exact .callee rfl

mutual

/-- An expression is an operand and the operators behind it. -/
theorem expressionOf_meets (turns : Nat) {least : Strength} {before : Tokens} {name : Bool}
    {rest : List Goal} (enough : 4 * before.ahead.length + 1 ≤ turns) :
    Meets rule 1 ⟨name, .operand :: .operators least :: rest⟩ (fun e => ⟨e.isName, rest⟩)
      (By.expressionOf rule turns least) before := by
  cases turns with
  | zero => exact absurd enough (by simp)
  | succ turns =>
    rw [By.expressionOf]
    refine Meets.bind (operand_meets turns (by omega)) fun left after shorter => ?_
    exact operators_meets turns (by omega)
termination_by turns

/-- An operand begins with one of five kinds of tokens. Parentheses keep a lone name one. -/
theorem operand_meets (turns : Nat) {before : Tokens} {name : Bool} {rest : List Goal}
    (enough : 4 * before.ahead.length ≤ turns) :
    Meets rule 1 ⟨name, .operand :: rest⟩ (fun e => ⟨e.isName, rest⟩)
      (By.operand rule turns) before := by
  cases turns with
  | zero =>
    have kind := Tokens.current_eq_eof (show before.ahead.length = 0 by omega)
    exact .unexpected (Prospect.step_refuse (by simp only [Goal.move, moveOperand, kind]))
  | succ turns =>
    rw [By.operand]
    refine .peek ?_
    split
    · next kind => exact intLiteral_meets kind
    · next kind => exact floatLiteral_meets kind
    · next kind =>
      have move : moveOperand before.current = .take true [] := by simp only [moveOperand, kind]
      exact .advance kind (by simp) (Prospect.step_take move) fun _ => .pure rfl
    · next kind =>
      have move : moveOperand before.current =
          .take false [.operand, .operators .assignment, .groupClose] := by
        simp only [moveOperand, kind]
      refine .advance kind (by simp) (Prospect.step_take move) fun inside => ?_
      refine Meets.bind (expressionOf_meets turns (by omega)) fun inner after shorter => ?_
      refine .groupClose fun _ => .pure ?_
      rw [Expr.isName_moveTo]
      rfl
    · next kind =>
      have move : moveOperand before.current =
          .take false [.operand, .operators .negation, .plain] := by
        simp only [moveOperand, kind]
      refine .advance kind (by simp) (Prospect.step_take move) fun inside => ?_
      refine Meets.bind (expressionOf_meets turns (by omega)) fun inner after shorter => ?_
      exact .pure rfl
    · next other =>
      exact .unexpected (Prospect.step_refuse (by simp only [Goal.move, moveOperand]))
termination_by turns

/-- Operators that bind too loosely are left for the goals below. -/
theorem operators_meets (turns : Nat) {least : Strength} {left : Expr} {before : Tokens}
    {rest : List Goal} (enough : 4 * before.ahead.length ≤ turns) :
    Meets rule 0 ⟨left.isName, .operators least :: rest⟩ (fun e => ⟨e.isName, rest⟩)
      (By.operators rule turns least left) before := by
  cases turns with
  | zero =>
    have kind := Tokens.current_eq_eof (show before.ahead.length = 0 by omega)
    exact .pure (Prospect.step_pass (by simp only [Goal.move, kind, Kind.operator?]))
  | succ turns =>
    rw [By.operators]
    refine .peek ?_
    split
    · next none =>
      exact .pure (Prospect.step_pass (by simp only [Goal.move, none]))
    · next op next =>
      split
      · next binds =>
        refine Meets.bind (operation_meets turns (by omega) next binds) ?_
        intro whole after shorter
        exact operators_meets turns (by omega)
      · next loose =>
        exact .pure (Prospect.step_pass (by simp only [Goal.move, next, if_neg loose]))
termination_by turns

/-- Only a lone name may be assigned; any expression may be called or calculated with. -/
theorem operation_meets (turns : Nat) {least : Strength} {op : Operator} {left : Expr}
    {before : Tokens} {rest : List Goal} (enough : 4 * before.ahead.length ≤ turns + 1)
    (next : before.current.kind.operator? = some op) (binds : least ≤ op.strength) :
    Meets rule 1 ⟨left.isName, .operators least :: rest⟩
      (fun e => ⟨e.isName, .operators least :: rest⟩) (By.operation rule turns op left) before := by
  have kind := Kind.operator?_eq_some_iff.mp next
  have move : (Goal.operators least).move left.isName before.current =
      moveOperator left.isName least op := by
    simp only [Goal.move, next, if_pos binds]
  cases turns with
  | zero =>
    have eof := Tokens.current_eq_eof (show before.ahead.length = 0 by omega)
    cases kind.symm.trans eof
  | succ turns =>
    cases op with
    | assign =>
      rw [By.operation]
      cases left with
      | var position target =>
        refine .advance kind (by simp) (Prospect.step_take move) fun inside => ?_
        refine Meets.bind (expressionOf_meets turns (by omega)) fun value after shorter => ?_
        exact .pure rfl
      -- Only a name may stand to the left of `=`.
      | _ => exact .refuse kind (by simp) (Prospect.step_refuse move) rfl nofun
    | call =>
      rw [By.operation]
      refine .advance kind (by simp) (Prospect.step_take move) fun inside => .peek ?_
      split
      · next closing =>
        rw [pure_bind]
        exact .congr (Prospect.step_closing closing) (.sign fun _ => callOf_meets)
      · next opening =>
        refine .congr (Prospect.step_optional opening) ?_
        refine Meets.bind (args_meets turns (by omega)) fun arguments after shorter => ?_
        exact .sign fun _ => callOf_meets
    | binary op =>
      rw [By.operation]
      refine .advance kind (by simp) (Prospect.step_take move) fun inside => ?_
      refine Meets.bind (expressionOf_meets turns (by omega)) fun right after shorter => ?_
      exact .pure rfl
termination_by turns

/-- Arguments go on behind every comma. -/
theorem args_meets (turns : Nat) {before : Tokens} {name : Bool} {rest : List Goal}
    (enough : 4 * before.ahead.length + 2 ≤ turns) :
    Meets rule 1 ⟨name, .operand :: .operators .assignment :: .moreArgs :: rest⟩
      (fun _ => ⟨false, rest⟩) (By.args rule turns) before := by
  cases turns with
  | zero => exact absurd enough (by simp)
  | succ turns =>
    rw [By.args]
    refine Meets.bind (expressionOf_meets turns (by omega)) fun arg after shorter => ?_
    refine .accept (fun comma => Prospect.step_take (if_pos comma))
      (fun other => Prospect.step_pass (if_neg other)) (fun inside => ?_) (.pure rfl)
    refine Meets.bind (args_meets turns (by omega)) fun others after shorter => ?_
    exact .pure rfl
termination_by turns

end

theorem expression_meets :
    Meets rule 1 ⟨name, .operand :: .operators .assignment :: rest⟩ (fun e => ⟨e.isName, rest⟩)
      (By.expression rule) before :=
  .get (expressionOf_meets _ (by omega))

/-! ### Statements -/

theorem expressionStatement_meets {position : Position} :
    Meets rule 1
      ⟨name, .operand :: .operators .assignment :: .sign .semicolon :: rest⟩
      (fun _ => ⟨false, rest⟩) (By.expressionStatement rule position) before := by
  unfold By.expressionStatement
  refine Meets.bind expression_meets fun value after shorter => ?_
  exact .sign fun _ => .pure rfl

/-- An expression between parentheses, as after `if`, `while` and `print`. -/
theorem grouped_meets {α : Type} {opens closes : Expectation} {next : Expr → Parser α}
    {last : α → Prospect}
    (behind : ∀ e after, after.ahead.length < before.ahead.length →
      Meets rule 0 ⟨false, rest⟩ last (next e) after) :
    Meets rule 0
      ⟨name, .sign .leftParen :: .operand :: .operators .assignment ::
        .sign .rightParen :: rest⟩ last
      (expect (.symbol .leftParen) opens >>= fun _ => By.expression rule >>= fun e =>
        expect (.symbol .rightParen) closes >>= fun _ => next e) before := by
  refine .sign fun inside => ?_
  refine Meets.bind expression_meets fun e after shorter => ?_
  exact .sign fun closed => behind e _ (by omega)

theorem printStatement_meets {position : Position} :
    Meets rule 0
      ⟨name, .sign .leftParen :: .operand :: .operators .assignment ::
        .sign .rightParen :: .sign .semicolon :: rest⟩
      (fun _ => ⟨false, rest⟩) (By.printStatement rule position) before :=
  grouped_meets fun _ _ _ => .sign fun _ => .pure rfl

/-- The value of a return may be missing. -/
theorem returnStatement_meets {position : Position} :
    Meets rule 0 ⟨name, .optional .semicolon :: .sign .semicolon :: rest⟩
      (fun _ => ⟨false, rest⟩) (By.returnStatement rule position) before := by
  unfold By.returnStatement
  refine .peek ?_
  split
  · next closing =>
    have move : (Goal.optional .semicolon).move name before.current = .pass false := if_pos closing
    rw [pure_bind]
    exact .congr (Prospect.step_pass move) (.sign fun _ => .pure rfl)
  · next value =>
    rw [bind_map_left]
    refine .congr (Prospect.step_optional value) ?_
    refine Meets.bind expression_meets fun e after shorter => ?_
    exact .sign fun _ => .pure rfl

mutual

/-- The first token of a statement decides what it is. -/
theorem statementIn_meets (turns : Nat) {before : Tokens} {name : Bool} {rest : List Goal}
    (enough : 2 * before.ahead.length ≤ turns) :
    Meets rule 1 ⟨name, .statement :: rest⟩ (fun _ => ⟨false, rest⟩)
      (By.statementIn rule turns) before := by
  cases turns with
  | zero =>
    -- Without turns there are no tokens, and no statement begins with the end.
    have kind := Tokens.current_eq_eof (show before.ahead.length = 0 by omega)
    refine .unexpected (Prospect.step_refuse ?_)
    simp only [Goal.move, moveStatement, moveOperand, kind, Move.andThen]
  | succ turns =>
    rw [By.statementIn]
    refine .peek ?_
    split
    · next kind =>
      have move : moveStatement before.current =
          .take false [.sign .leftParen, .operand, .operators .assignment,
            .sign .rightParen, .statement, .otherwise] := by
        simp only [moveStatement, kind]
      refine .advance kind (by simp) (Prospect.step_take move) fun inside => ?_
      refine grouped_meets fun condition after shorter => ?_
      refine Meets.bind (statementIn_meets turns (by omega)) fun body after shorter => .peek ?_
      split
      · next alternative =>
        refine .advance alternative (by simp) (Prospect.step_take (if_pos alternative))
          fun inside => ?_
        refine Meets.bind (statementIn_meets turns (by omega)) fun other after shorter => ?_
        exact .pure rfl
      · next none => exact .pure (Prospect.step_pass (if_neg none))
    · next kind =>
      have move : moveStatement before.current =
          .take false [.sign .leftParen, .operand, .operators .assignment,
            .sign .rightParen, .statement] := by
        simp only [moveStatement, kind]
      refine .advance kind (by simp) (Prospect.step_take move) fun inside => ?_
      refine grouped_meets fun condition after shorter => ?_
      refine Meets.bind (statementIn_meets turns (by omega)) fun body after shorter => ?_
      exact .pure rfl
    · next kind =>
      have move : moveStatement before.current =
          .take false [.sign .leftParen, .operand, .operators .assignment,
            .sign .rightParen, .sign .semicolon] := by
        simp only [moveStatement, kind]
      refine .advance kind (by simp) (Prospect.step_take move) fun inside => ?_
      exact printStatement_meets
    · next kind =>
      have move : moveStatement before.current =
          .take false [.optional .semicolon, .sign .semicolon] := by
        simp only [moveStatement, kind]
      refine .advance kind (by simp) (Prospect.step_take move) fun inside => ?_
      exact returnStatement_meets
    · next kind =>
      have move : moveStatement before.current = .take false [.statements] := by
        simp only [moveStatement, kind]
      refine .advance kind (by simp) (Prospect.step_take move) fun inside => ?_
      refine Meets.bind (blockBodyIn_meets turns (by omega)) fun body after shorter => ?_
      exact .pure rfl
    · next other =>
      -- No keyword opens the statement, so it moves as an expression does.
      have same : Goal.statement.move name before.current =
          (Goal.operand.move name before.current).andThen
            [.operators .assignment, .sign .semicolon] := by
        simp only [Goal.move, moveStatement]
      have stays := Goal.moveOperand_ne_pass before.current
      exact .congr (Prospect.step_congr same stays) expressionStatement_meets
termination_by turns

/-- Statements go on up to the brace that closes them. -/
theorem blockBodyIn_meets (turns : Nat) {before : Tokens} {name : Bool} {rest : List Goal}
    (enough : 2 * before.ahead.length + 1 ≤ turns) :
    Meets rule 1 ⟨name, .statements :: rest⟩ (fun _ => ⟨false, rest⟩)
      (By.blockBodyIn rule turns) before := by
  cases turns with
  | zero => exact absurd enough (by simp)
  | succ turns =>
    rw [By.blockBodyIn]
    refine .peek ?_
    split
    · next last =>
      refine .expect (by simp) (fun closing => Prospect.step_take (if_pos closing))
        (fun other => Prospect.step_refuse ?_) fun _ => .pure rfl
      have eof := last.resolve_left other
      simp only [Goal.move, moveStatement, moveOperand, eof, Move.andThen]
      rfl
    · next more =>
      have other : before.current.kind ≠ .symbol .rightBrace := fun same => more (.inl same)
      have same : Goal.statements.move name before.current =
          (Goal.statement.move name before.current).andThen [.statements] := if_neg other
      have stays := Goal.moveStatement_ne_pass before.current
      refine .congr (Prospect.step_congr same stays) ?_
      refine Meets.bind (statementIn_meets turns (by omega)) fun first after shorter => ?_
      refine Meets.bind (blockBodyIn_meets turns (by omega)) fun others after shorter => ?_
      exact .pure rfl
termination_by turns

end

theorem blockBody_meets :
    Meets rule 1 ⟨name, .statements :: rest⟩ (fun _ => ⟨false, rest⟩) (By.blockBody rule) before :=
  .get (blockBodyIn_meets _ (by omega))

/-! ### Functions and programs -/

/-- Parameters go on behind every comma. -/
theorem paramsIn_meets (turns : Nat) (enough : before.ahead.length + 1 ≤ turns) :
    Meets rule 0 ⟨name, .name :: .moreNames :: rest⟩ (fun _ => ⟨false, rest⟩)
      (paramsIn turns) before := by
  induction turns generalizing before name with
  | zero => exact absurd enough (by simp)
  | succ turns ih =>
    rw [paramsIn]
    refine .name fun named => ?_
    refine .accept (fun comma => Prospect.step_take (if_pos comma))
      (fun other => Prospect.step_pass (if_neg other)) (fun inside => ?_) (.pure rfl)
    refine Meets.bind (ih (by omega)) fun others after shorter => ?_
    exact .pure rfl

/-- What follows the parameters, also when there is none. -/
theorem functionBehind_meets {keyword named : Token} {params : List Param} :
    Meets rule 0
      ⟨name, .sign .rightParen :: .sign .leftBrace :: .statements :: rest⟩
      (fun _ => ⟨false, rest⟩) (By.functionBehind rule keyword named params) before := by
  unfold By.functionBehind
  refine .sign fun closed => .sign fun opened => ?_
  refine Meets.bind blockBody_meets fun body after shorter => ?_
  exact .pure rfl

/-- From the word `function` on, up to the brace behind the body. -/
theorem function_meets (kind : before.current.kind = .keyword .function) :
    Meets rule 1 .start (fun _ => .start) (By.function rule) before := by
  have taken : Prospect.start.step before.current = some ⟨false, Goal.afterFunction⟩ := if_pos kind
  unfold By.function
  refine .expect (by simp) (fun _ => taken) (fun other => absurd kind other) fun atName => ?_
  refine .name fun atOpening => .sign fun inside => .peek ?_
  split
  · next closing =>
    have here : ∀ name, Goal.optionalName.move name before.advance.advance.advance.current =
      .pass false := fun _ => if_pos closing
    have there : ∀ name, Goal.moreNames.move name before.advance.advance.advance.current =
      .pass false := fun _ => if_neg (by simp [closing])
    rw [pure_bind]
    refine .congr ((Prospect.step_pass (here _)).trans (Prospect.step_pass (there _))) ?_
    exact functionBehind_meets
  · next other =>
    refine .congr (Prospect.step_optionalName other) (.get ?_)
    refine Meets.bind (paramsIn_meets _ (by omega)) fun params after shorter => ?_
    exact functionBehind_meets

/-- Behind a function stands another one or the end of the input. -/
theorem functionsIn_meets (turns : Nat) (enough : before.ahead.length + 1 ≤ turns) :
    Meets rule 0 .start (fun _ => .start) (By.functionsIn rule turns) before := by
  induction turns generalizing before with
  | zero => exact absurd enough (by simp)
  | succ turns ih =>
    rw [By.functionsIn]
    refine .peek ?_
    split
    · exact .pure rfl
    · next more =>
      split
      · next kind =>
        refine Meets.bind (function_meets kind) fun first after shorter => ?_
        refine Meets.bind (ih (by omega)) fun others after shorter => ?_
        exact .pure rfl
      · next other =>
        exact .unexpected ((if_neg other).trans (if_neg more))

/-- The parser of a program agrees with the prospect of one. -/
theorem program_meets : Meets rule 0 .start (fun _ => .start) (By.program rule) before := by
  unfold By.program
  refine .get ?_
  refine Meets.bind (functionsIn_meets _ (by omega)) fun functions after shorter => ?_
  exact .pure rfl

end Parser

end ImpStack

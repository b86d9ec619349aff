import ImpStack.Proofs.ProgramGrammar

/-!
The counts of turns of the recursive parsers are no part of what they do: from the same tokens, all
counts that are large enough lead to the same answer and leave the same tokens (`Parser.Steady`).
Every turn of a parser that repeats consumes a token, so that a few turns for every token are enough
(`Parser.runOn_expression`, `Parser.runOn_statement`, `Parser.runOn_program`).

The parsers of expressions call each other on a way of up to four calls between two tokens, those of
statements of up to two. The constants in front of the number of tokens come from there, and what is
added says where on the way a parser stands.
-/
namespace ImpStack

namespace Parser

variable {α β : Type} {least more : Nat} {before : Tokens}

theorem runOn_get_bind (next : Tokens → Parser β) (before : Tokens) :
    (get >>= next : Parser β).runOn before = (next before).runOn before := rfl

/-- The parsers do the same from these tokens, and where they succeed they consume at least `least`
tokens. -/
structure Steady (least : Nat) (first second : Parser α) (before : Tokens) : Prop where
  runOn_eq : first.runOn before = second.runOn before
  shorter : ∀ value after, Yields first before value after →
    least + after.ahead.length ≤ before.ahead.length

namespace Steady

variable {first second : Parser α}

theorem pure (value : α) : Steady 0 (Pure.pure value) (Pure.pure value) before where
  runOn_eq := rfl
  shorter := by
    intro result after yields
    obtain ⟨rfl, rfl⟩ := yields_pure_iff.mp yields
    omega

theorem throw (error : SyntaxError) :
    Steady least (MonadExcept.throw error : Parser α) (MonadExcept.throw error) before where
  runOn_eq := rfl
  shorter := fun _ _ yields => absurd yields not_yields_throw

theorem unexpected (expected : Expectation) :
    Steady least (Parser.unexpected expected : Parser α) (Parser.unexpected expected) before where
  runOn_eq := rfl
  shorter := fun _ _ yields => absurd yields not_yields_unexpected

/-- Two parsers in a row. The second one finds as many tokens less as the first one has consumed. -/
theorem bind {next other : α → Parser β} (head : Steady more first second before)
    (rest : ∀ value after, more + after.ahead.length ≤ before.ahead.length →
      Steady (least - more) (next value) (other value) after) :
    Steady least (first >>= next) (second >>= other) before where
  runOn_eq := by
    rw [runOn_bind, runOn_bind, ← head.runOn_eq]
    cases ran : first.runOn before with
    | mk result middle =>
      cases result with
      | error error => rfl
      | ok value => exact (rest value middle (head.shorter value middle ran)).runOn_eq
  shorter := by
    intro result after yields
    obtain ⟨value, middle, headYields, restYields⟩ := yields_bind_iff.mp yields
    have headShorter := head.shorter value middle headYields
    have restShorter := (rest value middle headShorter).shorter result after restYields
    omega

theorem get {next other : Tokens → Parser β}
    (rest : Steady least (next before) (other before) before) :
    Steady least (MonadState.get >>= next) (MonadState.get >>= other) before :=
  ⟨rest.runOn_eq, rest.shorter⟩

theorem peek {next other : Token → Parser β}
    (rest : Steady least (next before.current) (other before.current) before) :
    Steady least (Parser.peek >>= next) (Parser.peek >>= other) before :=
  ⟨rest.runOn_eq, rest.shorter⟩

/-- A token that is not the end of the input is consumed. -/
theorem advance {next other : Token → Parser β} {kind : Kind} (same : before.current.kind = kind)
    (real : kind ≠ .eof)
    (rest : before.advance.ahead.length < before.ahead.length →
      Steady (least - 1) (next before.current) (other before.current) before.advance) :
    Steady least (Parser.advance >>= next) (Parser.advance >>= other) before := by
  have consumed := (Tokens.passes_current same real).length_lt (by simp)
  refine ⟨(rest consumed).runOn_eq, fun value after yields => ?_⟩
  have restShorter := (rest consumed).shorter value after yields
  omega

/-- A token of the kind is consumed, any other stops both. -/
theorem expect {next other : Token → Parser β} {kind : Kind} {expected : Expectation}
    (real : kind ≠ .eof)
    (rest : before.advance.ahead.length < before.ahead.length →
      Steady (least - 1) (next before.current) (other before.current) before.advance) :
    Steady least (Parser.expect kind expected >>= next) (Parser.expect kind expected >>= other)
      before := by
  have run_eq := runOn_expect kind expected before
  by_cases same : before.current.kind = kind
  · have advanced := Steady.advance same real rest
    rw [if_pos same] at run_eq
    constructor
    · rw [runOn_bind, runOn_bind, run_eq]
      exact advanced.runOn_eq
    · intro value after yields
      exact advanced.shorter value after ((yields_bind_of_runOn run_eq).mp yields)
  · rw [if_neg same] at run_eq
    constructor
    · rw [runOn_bind, runOn_bind, run_eq]
    · intro value after yields
      exact absurd (yields_expect_bind_iff.mp yields).1 same

/-- A sign that may be missing is consumed by both or by none. -/
theorem accept {next other : Bool → Parser β} {sign : Symbol}
    (accepted : before.advance.ahead.length < before.ahead.length →
      Steady (least - 1) (next true) (other true) before.advance)
    (refused : Steady least (next false) (other false) before) :
    Steady least (Parser.accept sign >>= next) (Parser.accept sign >>= other) before := by
  have run_eq := runOn_accept sign before
  by_cases same : before.current.kind = .symbol sign
  · have advanced : Steady least (Parser.advance >>= fun _ => next true)
        (Parser.advance >>= fun _ => other true) before := .advance same (by simp) accepted
    rw [if_pos same] at run_eq
    constructor
    · rw [runOn_bind, runOn_bind, run_eq]
      exact advanced.runOn_eq
    · intro value after yields
      exact advanced.shorter value after ((yields_bind_of_runOn run_eq).mp yields)
  · rw [if_neg same] at run_eq
    constructor
    · rw [runOn_bind, runOn_bind, run_eq]
      exact refused.runOn_eq
    · intro value after yields
      exact refused.shorter value after ((yields_bind_of_runOn run_eq).mp yields)

end Steady

/-! ### Expressions -/

theorem literal_steady {value? : Token → Option α} {build : Token → α → Expr}
    {failure : Token → SyntaxError} (real : before.current.kind ≠ .eof) :
    Steady 1 (literal value? build failure) (literal value? build failure) before := by
  unfold literal
  refine .advance rfl real fun _ => ?_
  split
  · exact .pure _
  · exact .throw _

/-- What follows the arguments of a call needs no turns. -/
theorem callBehind_steady {left : Expr} {paren : Token} {arguments : List Expr} :
    Steady 0 (callBehind left paren arguments) (callBehind left paren arguments) before := by
  unfold callBehind
  refine .expect (by simp) fun _ => ?_
  split
  · exact .pure _
  · exact .throw _

mutual

/-- One turn of an expression is spent before its operand, the longest way to the next token. -/
theorem expressionOf_steady (turns other : Nat) (least : Strength) {before : Tokens}
    (enough : 4 * before.ahead.length + 3 ≤ min turns other) :
    Steady 1 (expressionOf turns least) (expressionOf other least) before := by
  obtain ⟨turns, rfl⟩ : ∃ fewer, turns = fewer + 1 := ⟨turns - 1, by omega⟩
  obtain ⟨other, rfl⟩ : ∃ fewer, other = fewer + 1 := ⟨other - 1, by omega⟩
  rw [expressionOf, expressionOf]
  refine (operand_steady turns other (by omega)).bind fun left after shorter => ?_
  exact operators_steady turns other least left (by omega)
termination_by turns

/-- An operand consumes a token before it comes to another expression. -/
theorem operand_steady (turns other : Nat) {before : Tokens}
    (enough : 4 * before.ahead.length + 2 ≤ min turns other) :
    Steady 1 (operand turns) (operand other) before := by
  obtain ⟨turns, rfl⟩ : ∃ fewer, turns = fewer + 1 := ⟨turns - 1, by omega⟩
  obtain ⟨other, rfl⟩ : ∃ fewer, other = fewer + 1 := ⟨other - 1, by omega⟩
  rw [operand, operand]
  refine .peek ?_
  split
  · next kind =>
    rw [intLiteral_eq]
    exact literal_steady (by simp [kind])
  · next kind =>
    rw [floatLiteral_eq]
    exact literal_steady (by simp [kind])
  · next kind => exact .advance kind (by simp) fun _ => .pure _
  · next kind =>
    refine .advance kind (by simp) fun inside => ?_
    refine (expressionOf_steady turns other _ (by omega)).bind fun _ _ _ => ?_
    exact .expect (by simp) fun _ => .pure _
  · next kind =>
    refine .advance kind (by simp) fun inside => ?_
    exact (expressionOf_steady turns other _ (by omega)).bind fun _ _ _ => .pure _
  · exact .unexpected .expression
termination_by turns

/-- Every operator consumes a token, so that the turns last for all of them. -/
theorem operators_steady (turns other : Nat) (least : Strength) (left : Expr) {before : Tokens}
    (enough : 4 * before.ahead.length + 2 ≤ min turns other) :
    Steady 0 (operators turns least left) (operators other least left) before := by
  obtain ⟨turns, rfl⟩ : ∃ fewer, turns = fewer + 1 := ⟨turns - 1, by omega⟩
  obtain ⟨other, rfl⟩ : ∃ fewer, other = fewer + 1 := ⟨other - 1, by omega⟩
  rw [operators, operators]
  refine .peek ?_
  split
  · exact .pure left
  · next op sign =>
    split
    · refine (operation_steady turns other left sign (by omega)).bind ?_
      intro whole after shorter
      exact operators_steady turns other least whole (by omega)
    · exact .pure left
termination_by turns

/-- The sign of the operator is there to be consumed. -/
theorem operation_steady (turns other : Nat) {op : Operator} (left : Expr) {before : Tokens}
    (sign : before.current.kind.operator? = some op)
    (enough : 4 * before.ahead.length + 1 ≤ min turns other) :
    Steady 1 (operation turns op left) (operation other op left) before := by
  have kind := Kind.operator?_eq_some_iff.mp sign
  obtain ⟨turns, rfl⟩ : ∃ fewer, turns = fewer + 1 := ⟨turns - 1, by omega⟩
  obtain ⟨other, rfl⟩ : ∃ fewer, other = fewer + 1 := ⟨other - 1, by omega⟩
  cases op with
  | assign =>
    rw [operation, operation]
    refine .advance kind (by simp) fun inside => ?_
    split
    · exact (expressionOf_steady turns other _ (by omega)).bind fun _ _ _ => .pure _
    · exact .throw _
  | call =>
    rw [operation, operation]
    refine .advance kind (by simp) fun inside => .peek ?_
    by_cases empty : before.advance.current.kind = .symbol .rightParen
    · simp only [if_pos empty, pure_bind]
      exact callBehind_steady
    · simp only [if_neg empty]
      exact (args_steady turns other (by omega)).bind fun _ _ _ => callBehind_steady
  | binary op =>
    rw [operation, operation]
    refine .advance kind (by simp) fun inside => ?_
    exact (expressionOf_steady turns other _ (by omega)).bind fun _ _ _ => .pure _
termination_by turns

/-- An argument is an expression, one call further away from it. -/
theorem args_steady (turns other : Nat) {before : Tokens}
    (enough : 4 * before.ahead.length + 4 ≤ min turns other) :
    Steady 0 (args turns) (args other) before := by
  obtain ⟨turns, rfl⟩ : ∃ fewer, turns = fewer + 1 := ⟨turns - 1, by omega⟩
  obtain ⟨other, rfl⟩ : ∃ fewer, other = fewer + 1 := ⟨other - 1, by omega⟩
  rw [args, args]
  refine (expressionOf_steady turns other _ (by omega)).bind fun arg after shorter => ?_
  refine .accept (fun behind => ?_) ?_
  · exact (args_steady turns other (by omega)).bind fun _ _ _ => .pure _
  · exact .pure _
termination_by turns

end

theorem expression_steady : Steady 1 expression expression before := by
  unfold expression
  exact .get (expressionOf_steady _ _ _ (by omega))

theorem runOn_expression {turns : Nat} (enough : 4 * before.ahead.length + 3 ≤ turns) :
    expression.runOn before = (expressionOf turns .assignment).runOn before := by
  rw [expression, runOn_get_bind]
  exact (expressionOf_steady _ turns _ (by omega)).runOn_eq

/-! ### Statements -/

theorem expressionStatement_steady (position : Position) :
    Steady 1 (expressionStatement position) (expressionStatement position) before := by
  rw [expressionStatement_eq]
  refine expression_steady.bind fun _ _ _ => ?_
  exact .expect (by simp) fun _ => .pure _

theorem printStatement_steady (position : Position) :
    Steady 0 (printStatement position) (printStatement position) before := by
  unfold printStatement
  refine .expect (by simp) fun _ => expression_steady.bind fun _ _ _ => ?_
  exact .expect (by simp) fun _ => .expect (by simp) fun _ => .pure _

theorem returnStatement_steady (position : Position) :
    Steady 0 (returnStatement position) (returnStatement position) before := by
  unfold returnStatement
  refine .peek ?_
  by_cases bare : before.current.kind = .symbol .semicolon
  · simp only [if_pos bare, pure_bind]
    exact .expect (by simp) fun _ => .pure _
  · simp only [if_neg bare, bind_map_left]
    refine expression_steady.bind fun _ _ _ => ?_
    exact .expect (by simp) fun _ => .pure _

mutual

/-- A statement consumes a token before it comes to another statement. -/
theorem statementIn_steady (turns other : Nat) {before : Tokens}
    (enough : 2 * before.ahead.length + 1 ≤ min turns other) :
    Steady 1 (statementIn turns) (statementIn other) before := by
  obtain ⟨turns, rfl⟩ : ∃ fewer, turns = fewer + 1 := ⟨turns - 1, by omega⟩
  obtain ⟨other, rfl⟩ : ∃ fewer, other = fewer + 1 := ⟨other - 1, by omega⟩
  rw [statementIn, statementIn]
  refine .peek ?_
  split
  · next kind =>
    refine .advance kind (by simp) fun _ => .expect (by simp) fun _ => ?_
    refine expression_steady.bind fun _ _ _ => .expect (by simp) fun _ => ?_
    refine (statementIn_steady turns other (by omega)).bind fun _ after _ => .peek ?_
    split
    · next kind =>
      refine .advance kind (by simp) fun _ => ?_
      exact (statementIn_steady turns other (by omega)).bind fun _ _ _ => .pure _
    · exact .pure _
  · next kind =>
    refine .advance kind (by simp) fun _ => .expect (by simp) fun _ => ?_
    refine expression_steady.bind fun _ _ _ => .expect (by simp) fun _ => ?_
    exact (statementIn_steady turns other (by omega)).bind fun _ _ _ => .pure _
  · next kind => exact .advance kind (by simp) fun _ => printStatement_steady _
  · next kind => exact .advance kind (by simp) fun _ => returnStatement_steady _
  · next kind =>
    refine .advance kind (by simp) fun _ => ?_
    exact (blockBodyIn_steady turns other (by omega)).bind fun _ _ _ => .pure _
  · exact expressionStatement_steady _
termination_by turns

/-- Every statement of a block consumes a token. -/
theorem blockBodyIn_steady (turns other : Nat) {before : Tokens}
    (enough : 2 * before.ahead.length + 2 ≤ min turns other) :
    Steady 0 (blockBodyIn turns) (blockBodyIn other) before := by
  obtain ⟨turns, rfl⟩ : ∃ fewer, turns = fewer + 1 := ⟨turns - 1, by omega⟩
  obtain ⟨other, rfl⟩ : ∃ fewer, other = fewer + 1 := ⟨other - 1, by omega⟩
  rw [blockBodyIn, blockBodyIn]
  refine .peek ?_
  split
  · exact .expect (by simp) fun _ => .pure _
  · refine (statementIn_steady turns other (by omega)).bind fun _ _ _ => ?_
    exact (blockBodyIn_steady turns other (by omega)).bind fun _ _ _ => .pure _
termination_by turns

end

theorem runOn_statement {turns : Nat} (enough : 2 * before.ahead.length + 1 ≤ turns) :
    statement.runOn before = (statementIn turns).runOn before := by
  rw [statement, runOn_get_bind]
  exact (statementIn_steady _ turns (by omega)).runOn_eq

theorem blockBody_steady : Steady 0 blockBody blockBody before := by
  unfold blockBody
  exact .get (blockBodyIn_steady _ _ (by omega))

theorem runOn_blockBody {turns : Nat} (enough : 2 * before.ahead.length + 2 ≤ turns) :
    blockBody.runOn before = (blockBodyIn turns).runOn before := by
  rw [blockBody, runOn_get_bind]
  exact (blockBodyIn_steady _ turns (by omega)).runOn_eq

/-! ### Functions and programs -/

/-- Every parameter consumes a token. -/
theorem paramsIn_steady (turns other : Nat) {before : Tokens}
    (enough : before.ahead.length + 1 ≤ min turns other) :
    Steady 0 (paramsIn turns) (paramsIn other) before := by
  induction turns generalizing other before with
  | zero => exact absurd enough (by omega)
  | succ turns ih =>
    obtain ⟨other, rfl⟩ : ∃ fewer, other = fewer + 1 := ⟨other - 1, by omega⟩
    rw [paramsIn, paramsIn]
    refine .expect (by simp) fun _ => .accept (fun _ => ?_) (.pure _)
    exact (ih other (by omega)).bind fun _ _ _ => .pure _

theorem functionBehind_steady {keyword name : Token} {params : List Param} :
    Steady 0 (functionBehind keyword name params) (functionBehind keyword name params) before := by
  unfold functionBehind
  refine .expect (by simp) fun _ => .expect (by simp) fun _ => ?_
  exact blockBody_steady.bind fun _ _ _ => .pure _

/-- A function consumes its keyword, whatever else it consumes. -/
theorem function_steady : Steady 1 function function before := by
  unfold function
  refine .expect (by simp) fun _ => .expect (by simp) fun _ => .expect (by simp) fun _ => .peek ?_
  split
  · simp only [pure_bind]
    exact functionBehind_steady
  · refine .get ((paramsIn_steady _ _ (by omega)).bind fun _ _ _ => ?_)
    exact functionBehind_steady

/-- Every function consumes tokens, so that the turns last for all of them. -/
theorem functionsIn_steady (turns other : Nat) {before : Tokens}
    (enough : before.ahead.length + 1 ≤ min turns other) :
    Steady 0 (functionsIn turns) (functionsIn other) before := by
  induction turns generalizing other before with
  | zero => exact absurd enough (by omega)
  | succ turns ih =>
    obtain ⟨other, rfl⟩ : ∃ fewer, other = fewer + 1 := ⟨other - 1, by omega⟩
    rw [functionsIn, functionsIn]
    refine .peek ?_
    split
    · exact .pure _
    · split
      · refine function_steady.bind fun _ _ _ => ?_
        exact (ih other (by omega)).bind fun _ _ _ => .pure _
      · exact .unexpected .topLevel

/-- Turns enough for a program. -/
theorem runOn_program {turns : Nat} (enough : before.ahead.length + 1 ≤ turns) :
    program.runOn before = (Program.mk <$> functionsIn turns).runOn before := by
  rw [program, runOn_get_bind, map_eq_pure_bind]
  have same : Steady 0 (functionsIn (before.ahead.length + 1)) (functionsIn turns) before :=
    functionsIn_steady _ turns (by omega)
  exact (same.bind fun functions after _ => .pure (Program.mk functions)).runOn_eq

end Parser

end ImpStack

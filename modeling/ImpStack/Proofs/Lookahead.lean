import ImpStack.Proofs.TurnCounts

/-!
How far a parser looks. What it answers, and how many tokens it consumes, depend on the tokens that
it consumes and on the one behind them, whether it succeeds or fails (`Parser.Confined`).

Parsers are given as many turns as there are tokens, so that other tokens behind the phrase give
them other counts. `Confined.of_turns` does away with the counts, as all that are large enough lead
to the same answer.
-/
namespace ImpStack

namespace Tokens

variable {before left other after : Tokens} {passed : List Token}

/-- At the end of the input nothing is ahead. -/
theorem eq_of_current_eof (ended : before.current.kind = .eof)
    (same : other.current = before.current) : other = before := by
  have ended' : other.current.kind = .eof := by rw [same, ended]
  have empty := current_eof_iff.mp ended
  have empty' := current_eof_iff.mp ended'
  have finish_eq : Token.eofAt other.finish = Token.eofAt before.finish := by
    simpa [current, empty, empty'] using same
  apply ext
  · rw [empty, empty']
  · exact congrArg Token.position finish_eq

/-- Where the same tokens are passed up to the same token, the same token stands first. -/
theorem Passes.current_congr (passes : before.Passes passed left)
    (others : other.Passes passed after)
    (same : after.current = left.current) : other.current = before.current := by
  cases passed with
  | nil =>
    rw [passes.eq_of_nil, others.eq_of_nil]
    exact same
  | cons token rest => rw [passes.current_eq, others.current_eq]

end Tokens

namespace Parser

variable {α β : Type} {parser : Parser α}

/-- Wherever the parser stops, it stops in the same way behind the same tokens if they stand before
the same token. -/
def Confined (parser : Parser α) : Prop :=
  ∀ before : Tokens, ∃ passed, before.Passes passed (parser.runOn before).2 ∧
    ∀ other after : Tokens, other.Passes passed after →
      after.current = (parser.runOn before).2.current →
      parser.runOn other = ((parser.runOn before).1, after)

namespace Confined

/-- A parser whose answer depends on the current token alone and that leaves all tokens. -/
theorem of_current (answer : Token → Except SyntaxError α)
    (runs : ∀ before, parser.runOn before = (answer before.current, before)) :
    Confined parser := by
  intro before
  rw [runs]
  refine ⟨[], .refl before, fun other after passes same => ?_⟩
  obtain rfl := passes.eq_of_nil
  rw [runs, same]

theorem pure (value : α) : Confined (Pure.pure value) :=
  of_current (fun _ => .ok value) fun _ => rfl

theorem throw (error : SyntaxError) : Confined (MonadExcept.throw error : Parser α) :=
  of_current (fun _ => .error error) fun _ => rfl

theorem unexpected (expected : Expectation) : Confined (Parser.unexpected expected : Parser α) :=
  of_current (fun token => .error (.ofToken expected token)) fun _ => rfl

theorem peek : Confined Parser.peek := of_current .ok fun _ => rfl

/-- A token is consumed, whatever it is and whatever stands behind it. -/
theorem advance : Confined Parser.advance := by
  intro before
  have ran : ∀ tokens, Parser.advance.runOn tokens = (.ok tokens.current, tokens.advance) :=
    fun _ => rfl
  simp only [ran]
  by_cases ended : before.current.kind = .eof
  · have stays : before.advance = before := by
      apply Tokens.ext
      · simp [Tokens.advance, Tokens.current_eof_iff.mp ended]
      · rfl
    rw [stays]
    refine ⟨[], .refl before, fun other after passes same => ?_⟩
    obtain rfl := passes.eq_of_nil
    obtain rfl := Tokens.eq_of_current_eof ended same
    rw [stays]
  · refine ⟨[before.current], Tokens.passes_current rfl ended, fun other after passes _ => ?_⟩
    rw [passes.current_eq, passes.advance_eq]

/-- The second parser begins where the first one has stopped, in both runs. -/
theorem bind {next : α → Parser β} (first : Confined parser)
    (rest : ∀ value, Confined (next value)) : Confined (parser >>= next) := by
  intro before
  obtain ⟨passed, passes, alike⟩ := first before
  simp only [runOn_bind]
  cases ran : parser.runOn before with
  | mk result middle =>
    rw [ran] at passes alike
    cases result with
    | error error =>
      refine ⟨passed, passes, fun other after otherPasses same => ?_⟩
      rw [alike other after otherPasses same]
    | ok value =>
      obtain ⟨later, laterPasses, laterAlike⟩ := rest value middle
      refine ⟨passed ++ later, passes.trans laterPasses, fun other after otherPasses same => ?_⟩
      obtain ⟨reached, otherFirst, otherLater⟩ := otherPasses.split
      rw [alike other reached otherFirst (laterPasses.current_congr otherLater same)]
      exact laterAlike reached after otherLater same

/-- With a count of turns that is large enough for both runs, the parser goes the same way in
both. -/
theorem of_turns {turned : Nat → Parser α} (need : Tokens → Nat)
    (same : ∀ before turns, need before ≤ turns → parser.runOn before = (turned turns).runOn before)
    (confined : ∀ turns, Confined (turned turns)) : Confined parser := by
  intro before
  obtain ⟨passed, passes, -⟩ := confined (need before) before
  rw [← same before _ (Nat.le_refl _)] at passes
  refine ⟨passed, passes, fun other after otherPasses current_eq => ?_⟩
  have here := same before (max (need before) (need other)) (Nat.le_max_left _ _)
  have there := same other (max (need before) (need other)) (Nat.le_max_right _ _)
  obtain ⟨also, alsoPasses, alike⟩ := confined (max (need before) (need other)) before
  rw [here] at passes current_eq ⊢
  rw [there]
  have passed_eq : also = passed :=
    List.append_cancel_right (alsoPasses.ahead_eq.symm.trans passes.ahead_eq)
  exact alike other after (passed_eq ▸ otherPasses) current_eq

theorem expect (kind : Kind) (expected : Expectation) : Confined (Parser.expect kind expected) := by
  refine peek.bind fun token => ?_
  split
  · exact advance
  · exact unexpected expected

theorem accept (sign : Symbol) : Confined (Parser.accept sign) := by
  refine peek.bind fun token => ?_
  split
  · exact advance.bind fun _ => pure true
  · exact pure false

end Confined

/-! ### Expressions -/

theorem literal_confined (value? : Token → Option α) (build : Token → α → Expr)
    (failure : Token → SyntaxError) : Confined (literal value? build failure) := by
  refine Confined.advance.bind fun token => ?_
  split
  · exact .pure _
  · exact .throw _

theorem callBehind_confined (left : Expr) (paren : Token) (arguments : List Expr) :
    Confined (callBehind left paren arguments) := by
  refine (Confined.expect _ _).bind fun _ => ?_
  split
  · exact .pure _
  · exact .throw _

mutual

/-- An expression looks at the token behind it, which may be an operator. -/
theorem expressionOf_confined (turns : Nat) (least : Strength) :
    Confined (expressionOf turns least) := by
  cases turns with
  | zero => exact .unexpected .expression
  | succ turns =>
    rw [expressionOf]
    exact (operand_confined turns).bind fun left => operators_confined turns least left
termination_by turns

theorem operand_confined (turns : Nat) : Confined (operand turns) := by
  cases turns with
  | zero => exact .unexpected .expression
  | succ turns =>
    rw [operand, intLiteral_eq, floatLiteral_eq]
    refine Confined.peek.bind fun token => ?_
    split
    · exact literal_confined _ _ _
    · exact literal_confined _ _ _
    · exact Confined.advance.bind fun _ => .pure _
    · refine Confined.advance.bind fun _ => ?_
      refine (expressionOf_confined turns _).bind fun inner => ?_
      exact (Confined.expect _ _).bind fun _ => .pure _
    · refine Confined.advance.bind fun _ => ?_
      exact (expressionOf_confined turns _).bind fun inner => .pure _
    · exact .unexpected .expression
termination_by turns

theorem operators_confined (turns : Nat) (least : Strength) (left : Expr) :
    Confined (operators turns least left) := by
  cases turns with
  | zero => exact .pure left
  | succ turns =>
    rw [operators]
    refine Confined.peek.bind fun token => ?_
    split
    · exact .pure left
    · next op _ =>
      split
      · refine (operation_confined turns op left).bind fun whole => ?_
        exact operators_confined turns least whole
      · exact .pure left
termination_by turns

theorem operation_confined (turns : Nat) (op : Operator) (left : Expr) :
    Confined (operation turns op left) := by
  cases turns with
  | zero => exact .unexpected .expression
  | succ turns =>
    cases op with
    | assign =>
      rw [operation]
      refine Confined.advance.bind fun sign => ?_
      split
      · exact (expressionOf_confined turns _).bind fun value => .pure _
      · exact .throw _
    | call =>
      rw [operation]
      refine Confined.advance.bind fun paren => Confined.peek.bind fun token => ?_
      by_cases empty : token.kind = .symbol .rightParen
      · simp only [if_pos empty, pure_bind]
        exact callBehind_confined left paren []
      · simp only [if_neg empty]
        exact (args_confined turns).bind fun arguments => callBehind_confined left paren arguments
    | binary op =>
      rw [operation]
      refine Confined.advance.bind fun _ => ?_
      exact (expressionOf_confined turns _).bind fun right => .pure _
termination_by turns

theorem args_confined (turns : Nat) : Confined (args turns) := by
  cases turns with
  | zero => exact .unexpected .expression
  | succ turns =>
    rw [args]
    refine (expressionOf_confined turns _).bind fun arg => ?_
    refine (Confined.accept _).bind fun more => ?_
    split
    · exact (args_confined turns).bind fun others => .pure _
    · exact .pure _
termination_by turns

end

theorem expression_confined : Confined expression :=
  .of_turns (fun before => 4 * before.ahead.length + 3) (fun _ _ => runOn_expression)
    fun turns => expressionOf_confined turns .assignment

/-! ### Statements -/

theorem expressionStatement_confined (position : Position) :
    Confined (expressionStatement position) := by
  rw [expressionStatement_eq]
  refine expression_confined.bind fun e => ?_
  exact (Confined.expect _ _).bind fun _ => .pure _

theorem printStatement_confined (position : Position) : Confined (printStatement position) := by
  refine (Confined.expect _ _).bind fun _ => expression_confined.bind fun value => ?_
  refine (Confined.expect _ _).bind fun _ => ?_
  exact (Confined.expect _ _).bind fun _ => .pure _

theorem returnStatement_confined (position : Position) : Confined (returnStatement position) := by
  refine Confined.peek.bind fun token => ?_
  by_cases bare : token.kind = .symbol .semicolon
  · simp only [if_pos bare, pure_bind]
    exact (Confined.expect _ _).bind fun _ => .pure _
  · simp only [if_neg bare, bind_map_left]
    refine expression_confined.bind fun value => ?_
    exact (Confined.expect _ _).bind fun _ => .pure _

mutual

/-- A statement looks at the token behind it, which may be an `else`. -/
theorem statementIn_confined (turns : Nat) : Confined (statementIn turns) := by
  cases turns with
  | zero => exact .unexpected .expression
  | succ turns =>
    rw [statementIn]
    refine Confined.peek.bind fun first => ?_
    split
    · refine Confined.advance.bind fun _ => (Confined.expect _ _).bind fun _ => ?_
      refine expression_confined.bind fun condition => (Confined.expect _ _).bind fun _ => ?_
      refine (statementIn_confined turns).bind fun body => Confined.peek.bind fun next => ?_
      split
      · refine Confined.advance.bind fun _ => ?_
        exact (statementIn_confined turns).bind fun alternative => .pure _
      · exact .pure _
    · refine Confined.advance.bind fun _ => (Confined.expect _ _).bind fun _ => ?_
      refine expression_confined.bind fun condition => (Confined.expect _ _).bind fun _ => ?_
      exact (statementIn_confined turns).bind fun body => .pure _
    · exact Confined.advance.bind fun _ => printStatement_confined _
    · exact Confined.advance.bind fun _ => returnStatement_confined _
    · refine Confined.advance.bind fun _ => ?_
      exact (blockBodyIn_confined turns).bind fun body => .pure _
    · exact expressionStatement_confined _
termination_by turns

theorem blockBodyIn_confined (turns : Nat) : Confined (blockBodyIn turns) := by
  cases turns with
  | zero => exact .unexpected .blockClose
  | succ turns =>
    rw [blockBodyIn]
    refine Confined.peek.bind fun next => ?_
    split
    · exact (Confined.expect _ _).bind fun _ => .pure _
    · refine (statementIn_confined turns).bind fun first => ?_
      exact (blockBodyIn_confined turns).bind fun others => .pure _
termination_by turns

end

theorem statement_confined : Confined statement :=
  .of_turns (fun before => 2 * before.ahead.length + 1) (fun _ _ => runOn_statement)
    statementIn_confined

theorem blockBody_confined : Confined blockBody :=
  .of_turns (fun before => 2 * before.ahead.length + 2) (fun _ _ => runOn_blockBody)
    blockBodyIn_confined

/-! ### Functions and programs -/

theorem paramsIn_confined (turns : Nat) : Confined (paramsIn turns) := by
  induction turns with
  | zero => exact .unexpected .paramName
  | succ turns ih =>
    rw [paramsIn]
    refine (Confined.expect _ _).bind fun name => (Confined.accept _).bind fun more => ?_
    split
    · exact ih.bind fun others => .pure _
    · exact .pure _

/-- The parameters, with as many turns as there are tokens. -/
theorem params_confined :
    Confined (get >>= fun tokens : Tokens => paramsIn (tokens.ahead.length + 1)) := by
  refine .of_turns (fun before => before.ahead.length + 1) (fun before turns enough => ?_)
    paramsIn_confined
  rw [runOn_get_bind]
  exact (paramsIn_steady _ turns (by omega)).runOn_eq

theorem functionBehind_confined (keyword name : Token) (params : List Param) :
    Confined (functionBehind keyword name params) := by
  refine (Confined.expect _ _).bind fun _ => (Confined.expect _ _).bind fun _ => ?_
  exact blockBody_confined.bind fun body => .pure _

theorem function_confined : Confined function := by
  refine (Confined.expect _ _).bind fun keyword => (Confined.expect _ _).bind fun name => ?_
  refine (Confined.expect _ _).bind fun _ => Confined.peek.bind fun token => ?_
  split
  · simp only [pure_bind]
    exact functionBehind_confined keyword name []
  · rw [← bind_assoc]
    exact params_confined.bind fun params => functionBehind_confined keyword name params

theorem functionsIn_confined (turns : Nat) : Confined (functionsIn turns) := by
  induction turns with
  | zero => exact .pure []
  | succ turns ih =>
    rw [functionsIn]
    refine Confined.peek.bind fun next => ?_
    split
    · exact .pure []
    · split
      · exact function_confined.bind fun first => ih.bind fun others => .pure _
      · exact .unexpected .topLevel

/-- A program looks as far as the end of the input, or as far as its first error. -/
theorem program_confined : Confined program := by
  refine .of_turns (fun before => before.ahead.length + 1) (fun _ _ => runOn_program)
    fun turns => ?_
  rw [map_eq_pure_bind]
  exact (functionsIn_confined turns).bind fun functions => .pure _

end Parser

end ImpStack

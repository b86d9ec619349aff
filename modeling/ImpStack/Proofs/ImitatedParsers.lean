import ImpStack.Proofs.Imitation

/-!
The parser with an index (SPEC_FULL, section 4.2) does what the parser on the remaining tokens does,
function by function (`Descent.program_imitates`). So it never leaves its list, its loops make a
step with every turn, and the table of strengths and the branches for operators agree.

The depth of calls inside each other and the turns of a loop are bounded by the tokens that are
left; the bounds go along as hypotheses, so that no case has to be excluded at the end.
-/
namespace ImpStack

namespace Kind

/-- The table of strengths and the operators that are recognised agree. -/
theorem level_eq_strength (kind : Kind) : kind.level = kind.strength := by
  cases kind with
  | symbol sign => cases sign <;> rfl
  | _ => rfl

/-- A sign that is recognised as a binary operator has a branch. -/
theorem binaryOp?_eq_some {kind : Kind} {op : BinaryOp}
    (sign : kind.operator? = some (.binary op)) : kind.binaryOp? = some op := by
  rw [operator?_eq_some_iff.mp sign]
  cases op with
  | arithmetic op => cases op <;> rfl
  | comparison op => cases op <;> rfl

end Kind

theorem Strength.assignment_le_tighter (strength : Strength) :
    .assignment ≤ strength.tighter := by
  cases strength <;> decide

namespace Descent

variable {before : Tokens}

/-! ### Expressions -/

/-- Where fewer than `bound` tokens are left, the parser for the expressions inside does what the
parser with enough turns does. -/
def Inner (inner : Strength → Descent Expr) (bound : Nat) : Prop :=
  ∀ (turns : Nat) (least : Strength) (before : Tokens), .assignment ≤ least →
    before.ahead.length < bound → 4 * before.ahead.length + 3 ≤ turns →
    Imitates 1 (inner least) (Parser.expressionOf turns least) before

variable {inner : Strength → Descent Expr} {bound turns : Nat}

/-- An operand, which may hold an expression of fewer tokens. -/
theorem operand_imitates (inside : Inner inner bound) (short : before.ahead.length ≤ bound)
    (enough : 4 * before.ahead.length + 2 ≤ turns) :
    Imitates 1 (operand inner) (Parser.operand turns) before := by
  obtain ⟨turns, rfl⟩ : ∃ fewer, turns = fewer + 1 := ⟨turns - 1, by omega⟩
  rw [Parser.operand]
  refine .peek (fun real => ?_) fun ended token alike => ?_
  · cases before.current.kind with
    | intLiteral =>
      refine .advance real fun _ => ?_
      cases Numeral.int32? before.current.lexeme.toList with
      | some value => exact .pure _
      | none => exact .throw _
    | floatLiteral =>
      refine .advance real fun _ => ?_
      cases Binary32.ofNumeral? before.current.lexeme.toList with
      | some value => exact .pure _
      | none => exact .throw _
    | identifier => exact .advance real fun _ => .pure _
    | symbol sign =>
      cases sign with
      | leftParen =>
        refine .advance real fun _ => ?_
        refine (inside _ _ _ (by decide) (by omega) (by omega)).bind fun grouped _ _ => ?_
        exact (Imitates.expect (by simp) .groupClose).bind fun _ _ _ => .pure _
      | minus =>
        refine .advance real fun _ => ?_
        exact (inside _ _ _ (by decide) (by omega) (by omega)).bind fun negated _ _ => .pure _
      | _ => exact .unexpected .expression
    | _ => exact .unexpected .expression
  · rw [alike.kind_eq, ended]
    exact .unexpected .expression

/-- Every argument, with the comma behind it, consumes tokens. -/
theorem arguments_imitates (inside : Inner inner bound) (short : before.ahead.length < bound)
    (enough : 4 * before.ahead.length + 4 ≤ turns) :
    Imitates 1 (commaSeparated (inner .assignment) (before.ahead.length + 1) [])
      (Parser.args turns) before := by
  rw [← id_map (Parser.args turns)]
  refine Imitates.commaSeparated (fun turns before => before.ahead.length < bound ∧
    4 * before.ahead.length + 4 ≤ turns) ?_ _ [] ⟨short, enough⟩ (Nat.lt_succ_self _)
  rintro turns before ⟨short, enough⟩
  obtain ⟨turns, rfl⟩ : ∃ fewer, turns = fewer + 1 := ⟨turns - 1, by omega⟩
  have argument := inside turns .assignment before (by decide) short (by omega)
  exact ⟨turns, _, rfl, argument, fun after shorter => by omega⟩

/-- What follows the arguments: the parenthesis, and the callee that is looked at only then. -/
theorem callBehind_imitates (callee : Expr) (paren : Token) (arguments : List Expr) :
    Imitates 0 (callBehind callee paren.position arguments)
      (Parser.callBehind callee paren arguments) before := by
  refine (Imitates.expect (by simp) .argsClose).bind fun _ _ _ => ?_
  cases callee with
  | var position name => exact .pure _
  | _ => exact .throw _

/-- A token with the strength of an operator is one. -/
theorem operation_imitates {op : Operator} (left : Expr) (inside : Inner inner bound)
    (sign : before.current.kind.operator? = some op) (short : before.ahead.length ≤ bound)
    (enough : 4 * before.ahead.length + 1 ≤ turns) :
    Imitates 1 (operation inner left) (Parser.operation turns op left) before := by
  obtain ⟨turns, rfl⟩ : ∃ fewer, turns = fewer + 1 := ⟨turns - 1, by omega⟩
  have kind := Kind.operator?_eq_some_iff.mp sign
  have real : before.current.kind ≠ .eof := by simp [kind]
  cases op with
  | assign =>
    rw [Parser.operation]
    refine .advance real fun _ => ?_
    rw [kind]
    cases left with
    | var position target =>
      exact (inside _ _ _ (by decide) (by omega) (by omega)).bind fun value _ _ => .pure _
    | _ => exact .throw _
  | call =>
    rw [Parser.operation]
    refine .advance real fun _ => ?_
    rw [kind]
    refine .peek_right (.check (fun closes => ?_) fun opens => ?_)
    · simp only [if_pos closes, if_true, pure_bind]
      exact callBehind_imitates left before.current []
    · simp only [if_neg opens, Bool.false_eq_true, if_false]
      refine .left ?_
      refine (arguments_imitates inside (by omega) (by omega)).bind fun arguments _ _ => ?_
      exact callBehind_imitates left before.current arguments
  | binary op =>
    rw [Parser.operation]
    refine .advance real fun _ => ?_
    -- The sign is looked up a second time as a binary operator. It is one, so the arm for a missing
    -- operator is never taken.
    have branch := Kind.binaryOp?_eq_some sign
    have tighter : before.current.kind.level.tighter = (Operator.binary op).strength.tighter := by
      rw [Kind.level_eq_strength, Kind.strength, sign]
    split
    · next isAssign =>
      rw [isAssign] at branch
      cases branch
    · next isCall =>
      rw [isCall] at branch
      cases branch
    · rw [branch]
      simp only [tighter]
      refine (inside _ _ _ ?_ (by omega) (by omega)).bind fun right _ _ => .pure _
      exact Strength.assignment_le_tighter _

/-- Whether the next token is an operator that binds tightly enough. -/
theorem binds_tells (least : Strength) :
    Tells (binds least) (decide (least ≤ before.current.kind.strength)) before := by
  intro tape shows
  obtain ⟨token, alike, ran⟩ := runOn_peek shows
  rw [binds, runOn_bind_ok _ ran, Kind.level_eq_strength, alike.kind_eq]
  rfl

/-- No token is left over at the strength of no operator, as no expression asks for that. -/
theorem operators_imitates {least : Strength} (left : Expr) (inside : Inner inner bound)
    (tight : .assignment ≤ least) (short : before.ahead.length ≤ bound)
    (enough : 4 * before.ahead.length + 2 ≤ turns) :
    Imitates 0 (whileDo (binds least) (operation inner) (before.ahead.length + 1) left)
      (Parser.operators turns least left) before := by
  rw [← bind_pure (whileDo _ _ _ _)]
  refine Imitates.whileDo (fun turns left => Parser.operators turns least left)
    (fun turns before => before.ahead.length ≤ bound ∧ 4 * before.ahead.length + 2 ≤ turns) ?_ _
    left ⟨short, enough⟩ (Nat.lt_succ_self _)
  rintro turns left before ⟨short, enough⟩
  obtain ⟨turns, rfl⟩ : ∃ fewer, turns = fewer + 1 := ⟨turns - 1, by omega⟩
  have tells : Tells (binds least) (decide (least ≤ before.current.kind.strength)) before :=
    binds_tells least
  rw [Kind.strength] at tells
  cases sign : before.current.kind.operator? with
  | none =>
    rw [sign] at tells
    have weak : ¬ least ≤ Strength.none := by
      intro loose
      exact absurd (Nat.le_trans tight loose) (by decide)
    rw [decide_eq_false weak] at tells
    refine .inl ⟨tells, (Imitates.pure left).congr_right ?_⟩
    rw [Parser.operators, Parser.runOn_peek_bind, sign]
  | some op =>
    rw [sign] at tells
    by_cases loose : least ≤ op.strength
    · rw [decide_eq_true loose] at tells
      have operation := operation_imitates left inside sign short
        (show 4 * before.ahead.length + 1 ≤ turns by omega)
      refine .inr ⟨tells, turns, _, ?_, operation, fun after shorter => by omega⟩
      rw [Parser.operators, Parser.runOn_peek_bind, sign]
      simp only [if_pos loose]
    · rw [decide_eq_false loose] at tells
      refine .inl ⟨tells, (Imitates.pure left).congr_right ?_⟩
      rw [Parser.operators, Parser.runOn_peek_bind, sign]
      simp only [if_neg loose]

/-- Expressions, by induction on the depth: what is inside one stands behind at least one token of
it. -/
theorem expressionOf_imitates (depth : Nat) : Inner (expressionOf depth) depth := by
  induction depth with
  | zero => exact fun _ _ _ _ short _ => absurd short (Nat.not_lt_zero _)
  | succ depth inside =>
    intro turns least before tight short enough
    obtain ⟨turns, rfl⟩ : ∃ fewer, turns = fewer + 1 := ⟨turns - 1, by omega⟩
    rw [expressionOf, Parser.expressionOf]
    refine (operand_imitates inside (by omega) (by omega)).bind fun first after shorter => ?_
    exact .left (operators_imitates first inside tight (by omega) (by omega))

theorem expression_imitates : Imitates 1 expression Parser.expression before := by
  refine .left ?_
  refine (expressionOf_imitates _ _ _ before (by decide) (Nat.lt_succ_self _)
    (Nat.le_refl _)).congr_right ?_
  exact Parser.runOn_expression (Nat.le_refl _)

/-! ### Statements -/

theorem expressionStatement_imitates (position : Position) :
    Imitates 1 (expressionStatement position) (Parser.expressionStatement position) before := by
  refine expression_imitates.bind fun e _ _ => ?_
  refine (Imitates.expect (by simp) .statementEnd).bind fun _ _ _ => ?_
  cases e <;> exact .pure _

theorem printStatement_imitates (position : Position) :
    Imitates 0 (printStatement position) (Parser.printStatement position) before := by
  refine (Imitates.expect (by simp) .printOpen).bind fun _ _ _ => ?_
  refine expression_imitates.bind fun value _ _ => ?_
  refine (Imitates.expect (by simp) .printClose).bind fun _ _ _ => ?_
  exact (Imitates.expect (by simp) .printEnd).bind fun _ _ _ => .pure _

theorem returnStatement_imitates (position : Position) :
    Imitates 0 (returnStatement position) (Parser.returnStatement position) before := by
  refine .peek_right (.check (fun bare => ?_) fun valued => ?_)
  · simp only [if_pos bare, if_true, pure_bind]
    exact (Imitates.expect (by simp) .returnEnd).bind fun _ _ _ => .pure _
  · simp only [if_neg valued, Bool.false_eq_true, if_false]
    refine (expression_imitates.map some).bind fun value _ _ => ?_
    exact (Imitates.expect (by simp) .returnEnd).bind fun _ _ _ => .pure _

/-- A block goes on until its brace or the end of the input. -/
theorem insideBlock_tells :
    Tells insideBlock (decide (¬ (before.current.kind = .symbol .rightBrace ∨
      before.current.kind = .eof))) before := by
  intro tape shows
  rw [insideBlock, runOn_bind_ok _ (runOn_check shows _)]
  by_cases closes : before.current.kind = .symbol .rightBrace
  · simp only [closes, decide_true, if_true, true_or, not_true_eq_false, decide_false]
    rfl
  · simp only [closes, decide_false, Bool.false_eq_true, if_false, false_or, decide_not]
    rw [atEnd, runOn_bind_ok _ (runOn_check shows .eof)]
    rfl

/-- The items of a loop are gathered in their order. -/
theorem append_imitates {α : Type} {item : Descent α} {parser : Parser α}
    (imitates : Imitates 1 item parser before) (items : List α) :
    Imitates 1 (append item items) ((fun last => items ++ [last]) <$> parser) before := by
  rw [map_eq_pure_bind]
  exact imitates.bind fun last _ _ => .pure _

/-- As `Inner`, for the statements inside. -/
def InnerStatement (inner : Descent Stmt) (bound : Nat) : Prop :=
  ∀ (turns : Nat) (before : Tokens), before.ahead.length < bound →
    2 * before.ahead.length + 1 ≤ turns → Imitates 1 inner (Parser.statementIn turns) before

/-- Every statement of a block consumes tokens, so that no turn is idle. -/
theorem blockBodyOf_imitates {inner : Descent Stmt} (inside : InnerStatement inner bound)
    (short : before.ahead.length < bound) (enough : 2 * before.ahead.length + 2 ≤ turns) :
    Imitates 0 (blockBodyOf inner) (Parser.blockBodyIn turns) before := by
  rw [← id_map (Parser.blockBodyIn turns)]
  refine .left ?_
  refine Imitates.whileDo (fun turns body => (body ++ ·) <$> Parser.blockBodyIn turns)
    (fun turns before => before.ahead.length < bound ∧ 2 * before.ahead.length + 2 ≤ turns) ?_ _
    [] ⟨short, enough⟩ (Nat.lt_succ_self _)
  rintro turns body before ⟨short, enough⟩
  obtain ⟨turns, rfl⟩ : ∃ fewer, turns = fewer + 1 := ⟨turns - 1, by omega⟩
  have tells : Tells insideBlock _ before := insideBlock_tells
  rw [Parser.blockBodyIn, map_eq_pure_bind, bind_assoc, Parser.runOn_peek_bind]
  by_cases closes : before.current.kind = .symbol .rightBrace ∨ before.current.kind = .eof
  · rw [decide_eq_false (not_not_intro closes)] at tells
    refine .inl ⟨tells, .peek_right ?_⟩
    simp only [if_pos closes, bind_assoc, pure_bind, List.append_nil]
    exact (Imitates.expect (by simp) .blockClose).bind fun _ _ _ => .pure _
  · rw [decide_eq_true closes] at tells
    have statement := inside turns before short (by omega)
    refine .inr ⟨tells, turns, _, ?_, append_imitates statement body, fun after shorter => by omega⟩
    simp only [if_neg closes, map_eq_pure_bind, bind_assoc, pure_bind, List.append_assoc,
      List.singleton_append]

theorem ifStatement_imitates {inner : Descent Stmt} (inside : InnerStatement inner bound)
    (position : Position) (short : before.ahead.length < bound)
    (enough : 2 * before.ahead.length + 1 ≤ turns) :
    Imitates 0 (ifStatement inner position) (do
      let _ ← Parser.expect (.symbol .leftParen) .ifOpen
      let condition ← Parser.expression
      let _ ← Parser.expect (.symbol .rightParen) .ifClose
      let body ← Parser.statementIn turns
      if (← Parser.peek).kind = .keyword .else_ then
        let _ ← Parser.advance
        let alternative ← Parser.statementIn turns
        return .branch position condition body.asBlock (some alternative.asBlock)
      else return .branch position condition body.asBlock none) before := by
  refine (Imitates.expect (by simp) .ifOpen).bind fun _ _ _ => ?_
  refine expression_imitates.bind fun condition _ _ => ?_
  refine (Imitates.expect (by simp) .ifClose).bind fun _ _ _ => ?_
  refine (inside turns _ (by omega) (by omega)).bind fun body _ _ => ?_
  refine .peek_right (.accept (fun more => ?_) fun single => ?_)
  · rw [if_pos rfl, if_pos more]
    refine .advance (by simp [more]) fun _ => ?_
    exact (inside turns _ (by omega) (by omega)).bind fun alternative _ _ => .pure _
  · rw [if_neg Bool.false_ne_true, if_neg single]
    exact .pure _

theorem whileStatement_imitates {inner : Descent Stmt} (inside : InnerStatement inner bound)
    (position : Position) (short : before.ahead.length < bound)
    (enough : 2 * before.ahead.length + 1 ≤ turns) :
    Imitates 0 (whileStatement inner position) (do
      let _ ← Parser.expect (.symbol .leftParen) .whileOpen
      let condition ← Parser.expression
      let _ ← Parser.expect (.symbol .rightParen) .whileClose
      let body ← Parser.statementIn turns
      return .loop position condition body.asBlock) before := by
  refine (Imitates.expect (by simp) .whileOpen).bind fun _ _ _ => ?_
  refine expression_imitates.bind fun condition _ _ => ?_
  refine (Imitates.expect (by simp) .whileClose).bind fun _ _ _ => ?_
  exact (inside turns _ (by omega) (by omega)).bind fun body _ _ => .pure _

/-- Statements, by induction on the depth, as expressions. -/
theorem statementOf_imitates (depth : Nat) : InnerStatement (statementOf depth) depth := by
  induction depth with
  | zero => exact fun _ _ short _ => absurd short (Nat.not_lt_zero _)
  | succ depth inside =>
    intro turns before short enough
    obtain ⟨turns, rfl⟩ : ∃ fewer, turns = fewer + 1 := ⟨turns - 1, by omega⟩
    rw [statementOf, Parser.statementIn]
    refine .peek (fun real => ?_) fun ended token alike => ?_
    · cases before.current.kind with
      | keyword word =>
        cases word with
        | if_ => exact .advance real fun _ => ifStatement_imitates inside _ (by omega) (by omega)
        | while_ =>
          exact .advance real fun _ => whileStatement_imitates inside _ (by omega) (by omega)
        | print => exact .advance real fun _ => printStatement_imitates _
        | return_ => exact .advance real fun _ => returnStatement_imitates _
        | _ => exact expressionStatement_imitates _
      | symbol sign =>
        cases sign with
        | leftBrace =>
          refine .advance real fun _ => ?_
          refine (blockBodyOf_imitates inside (by omega) (by omega)).bind fun body _ _ => .pure _
        | _ => exact expressionStatement_imitates _
      | _ => exact expressionStatement_imitates _
    · rw [alike.kind_eq, alike.position_eq, ended]
      exact expressionStatement_imitates _

theorem statement_imitates : Imitates 1 statement Parser.statement before := by
  refine .left ?_
  refine (statementOf_imitates _ _ before (Nat.lt_succ_self _) (Nat.le_refl _)).congr_right ?_
  exact Parser.runOn_statement (Nat.le_refl _)

theorem blockBody_imitates : Imitates 0 blockBody Parser.blockBody before := by
  refine .left ?_
  refine (blockBodyOf_imitates (statementOf_imitates _) (Nat.lt_succ_self _)
    (Nat.le_refl _)).congr_right ?_
  exact Parser.runOn_blockBody (Nat.le_refl _)

/-! ### Functions and programs -/

theorem params_imitates :
    Imitates 1 (commaSeparated param (before.ahead.length + 1) [])
      (Parser.paramsIn (before.ahead.length + 1)) before := by
  rw [← id_map (Parser.paramsIn _)]
  refine Imitates.commaSeparated (fun turns before => before.ahead.length + 1 ≤ turns) ?_ _ []
    (Nat.le_refl _) (Nat.lt_succ_self _)
  intro turns before enough
  obtain ⟨turns, rfl⟩ : ∃ fewer, turns = fewer + 1 := ⟨turns - 1, by omega⟩
  refine ⟨turns, do
    let name ← Parser.expect .identifier .paramName
    return ⟨name.lexeme, name.position⟩, ?_, ?_, fun after shorter => by omega⟩
  · rw [Parser.paramsIn, bind_assoc]
    simp only [pure_bind]
  · exact (Imitates.expect (by simp) .paramName).bind fun name _ _ => .pure _

theorem functionBehind_imitates (keyword name : Token) (params : List Param) :
    Imitates 0 (functionBehind keyword name params) (Parser.functionBehind keyword name params)
      before := by
  refine (Imitates.expect (by simp) .paramsClose).bind fun _ _ _ => ?_
  refine (Imitates.expect (by simp) .bodyOpen).bind fun _ _ _ => ?_
  exact blockBody_imitates.bind fun body _ _ => .pure _

/-- A function, of which the parser on remaining tokens reads the same parts. -/
theorem function_imitates : Imitates 1 function Parser.function before := by
  refine (Imitates.expect (by simp) .function).bind fun keyword _ _ => ?_
  refine (Imitates.expect (by simp) .functionName).bind fun name _ _ => ?_
  refine (Imitates.expect (by simp) .paramsOpen).bind fun _ after _ => ?_
  refine .peek_right (.check (fun closes => ?_) fun opens => ?_)
  · simp only [if_pos closes, if_true, pure_bind]
    exact functionBehind_imitates keyword name []
  · simp only [if_neg opens, Bool.false_eq_true, if_false]
    refine .left (.get_right ?_)
    exact params_imitates.bind fun params _ _ => functionBehind_imitates keyword name params

theorem topLevel_imitates : Imitates 1 topLevel (do
    if (← Parser.peek).kind = .keyword .function then Parser.function
    else Parser.unexpected .topLevel) before := by
  refine .peek_right (.check (fun found => ?_) fun missing => ?_)
  · rw [if_pos rfl, if_pos found]
    exact function_imitates
  · rw [if_neg Bool.false_ne_true, if_neg missing]
    exact .unexpected .topLevel

/-- A program goes on until the end of the input. -/
theorem insideProgram_tells :
    Tells insideProgram (decide (before.current.kind ≠ .eof)) before := by
  intro tape shows
  rw [insideProgram, atEnd, runOn_bind_ok _ (runOn_check shows .eof), decide_not]
  rfl

/-- Every function consumes tokens, so that the loop over them comes to an end. -/
theorem functions_imitates :
    Imitates 0 (whileDo insideProgram (append topLevel) (before.ahead.length + 1) [])
      (Parser.functionsIn (before.ahead.length + 1)) before := by
  rw [← id_map (Parser.functionsIn _), ← bind_pure (whileDo _ _ _ _)]
  refine Imitates.whileDo (fun turns functions => (functions ++ ·) <$> Parser.functionsIn turns)
    (fun turns before => before.ahead.length + 1 ≤ turns) ?_ _ [] (Nat.le_refl _)
    (Nat.lt_succ_self _)
  intro turns functions before enough
  obtain ⟨turns, rfl⟩ : ∃ fewer, turns = fewer + 1 := ⟨turns - 1, by omega⟩
  have tells : Tells insideProgram _ before := insideProgram_tells
  rw [Parser.functionsIn, map_eq_pure_bind, bind_assoc, Parser.runOn_peek_bind]
  by_cases ended : before.current.kind = .eof
  · rw [decide_eq_false (not_not_intro ended)] at tells
    refine .inl ⟨tells, .peek_right ?_⟩
    simp only [if_pos ended, pure_bind, List.append_nil]
    exact .pure _
  · rw [decide_eq_true ended] at tells
    refine .inr ⟨tells, turns, _, ?_, append_imitates topLevel_imitates functions,
      fun after shorter => by omega⟩
    simp only [if_neg ended, map_eq_pure_bind, bind_assoc, pure_bind, Parser.runOn_peek_bind]
    by_cases found : before.current.kind = .keyword .function
    · simp only [if_pos found, bind_assoc, pure_bind, List.append_assoc, List.singleton_append]
    · simp only [if_neg found]
      rfl

/-- A program, which may consume nothing. -/
theorem program_imitates : Imitates 0 program Parser.program before := by
  refine .left (.get_right ?_)
  exact functions_imitates.bind fun functions _ _ => .pure _

end Descent

/-- How many tokens a call at least consumes when it succeeds. -/
def Parser.Entry.least : Entry → Nat
  | program | blockBody => 0
  | function | statement | expression => 1

/-- All that the parser can be called for. -/
theorem Parser.Entry.imitates (entry : Parser.Entry) (before : Tokens) :
    Descent.Imitates entry.least entry.descent entry.parser before := by
  cases entry with
  | program => exact Descent.program_imitates.map _
  | function => exact Descent.function_imitates.map _
  | blockBody => exact Descent.blockBody_imitates.map _
  | statement => exact Descent.statement_imitates.map _
  | expression => exact Descent.expression_imitates.map _

end ImpStack

import ImpStack.Proofs.ExpressionGrammar

/-!
The parser (SPEC_FULL, section 4.2) reads a list of tokens exactly when it is a program of the
grammar, and its result is the reading in which each `else` belongs to the nearest `if`
(`Program.ofTokens_iff_programText`).

Both directions go through the parser function by function. What a parser has read is a phrase
(`Parser.statementIn_sound`), by induction on its turns; and with turns enough for the tokens of a
phrase it reads the phrase (`Parser.statementIn_complete`), by induction on the derivation.
-/
namespace ImpStack

namespace Parser

/-! ### Phrases of statements -/

/-- An expression between parentheses, as after `if`, `while` and `print`. -/
theorem yields_grouped_iff {β : Type} {opens closes : Expectation} {next : Expr → Parser β}
    {before after : Tokens} {result : β} :
    Yields (expect (.symbol .leftParen) opens >>= fun _ => expression >>= fun e =>
        expect (.symbol .rightParen) closes >>= fun _ => next e) before result after ↔
      ∃ opening tokens closing e middle, before.Passes (opening :: tokens ++ [closing]) middle ∧
        opening.kind = .symbol .leftParen ∧ Phrase .assignment tokens e ∧
        closing.kind = .symbol .rightParen ∧ Yields (next e) middle result after := by
  rw [yields_expect_bind_iff, yields_expression_expect_iff rfl]
  constructor
  · rintro ⟨openingKind, tokens, closing, e, middle, passes, phrase, closingKind, rest⟩
    have opening := Tokens.passes_current openingKind (by simp)
    exact ⟨_, tokens, closing, e, middle, opening.trans passes, openingKind, phrase, closingKind,
      rest⟩
  · rintro ⟨opening, tokens, closing, e, middle, passes, openingKind, phrase, closingKind, rest⟩
    rw [List.cons_append] at passes
    obtain ⟨inside, first, behind⟩ := passes.splitFirst
    obtain rfl := first.current_eq
    rw [first.advance_eq]
    exact ⟨openingKind, tokens, closing, e, middle, behind, phrase, closingKind, rest⟩

/-- The head of `if` and `while`: the keyword and an expression between parentheses. -/
theorem yields_head_iff {β : Type} {opens closes : Expectation} {next : Expr → Parser β}
    {before after : Tokens} {result : β} (real : before.current.kind ≠ .eof) :
    Yields (advance >>= fun _ => expect (.symbol .leftParen) opens >>= fun _ =>
        expression >>= fun e => expect (.symbol .rightParen) closes >>= fun _ => next e)
        before result after ↔
      ∃ opening tokens closing e middle,
        before.Passes (before.current :: opening :: tokens ++ [closing]) middle ∧
        opening.kind = .symbol .leftParen ∧ Phrase .assignment tokens e ∧
        closing.kind = .symbol .rightParen ∧ Yields (next e) middle result after := by
  have keyword := Tokens.passes_current rfl real
  rw [yields_advance_bind_iff, yields_grouped_iff]
  constructor
  · rintro ⟨opening, tokens, closing, e, middle, passes, rest⟩
    exact ⟨opening, tokens, closing, e, middle, keyword.trans passes, rest⟩
  · rintro ⟨opening, tokens, closing, e, middle, passes, rest⟩
    obtain ⟨inside, first, grouped⟩ := passes.splitFirst
    rw [first.advance_eq]
    exact ⟨opening, tokens, closing, e, middle, grouped, rest⟩

/-- An expression statement is an expression and the sign behind it. -/
theorem expressionStatement_eq (position : Position) :
    expressionStatement position = expression >>= fun e =>
      expect (.symbol .semicolon) .statementEnd >>= fun _ => pure (e.asStatement position) := by
  unfold expressionStatement
  congr 1
  funext e
  cases e <;> rfl

/-- What an expression statement is read from. -/
theorem yields_expressionStatement_iff {position : Position} {before after : Tokens}
    {statement : Stmt} :
    Yields (expressionStatement position) before statement after ↔
      ∃ tokens semicolon e, before.Passes (tokens ++ [semicolon]) after ∧
        Phrase .assignment tokens e ∧ semicolon.kind = .symbol .semicolon ∧
        statement = e.asStatement position := by
  rw [expressionStatement_eq, yields_expression_expect_iff rfl]
  constructor
  · rintro ⟨tokens, semicolon, e, middle, passes, phrase, kind, rest⟩
    obtain ⟨rfl, rfl⟩ := yields_pure_iff.mp rest
    exact ⟨tokens, semicolon, e, passes, phrase, kind, rfl⟩
  · rintro ⟨tokens, semicolon, e, passes, phrase, kind, rfl⟩
    exact ⟨tokens, semicolon, e, after, passes, phrase, kind, yields_pure_iff.mpr ⟨rfl, rfl⟩⟩

/-- What a print statement is read from, behind its keyword. -/
theorem yields_printStatement_iff {position : Position} {before after : Tokens}
    {statement : Stmt} :
    Yields (printStatement position) before statement after ↔
      ∃ opening tokens closing semicolon value,
        before.Passes (opening :: tokens ++ [closing, semicolon]) after ∧
        opening.kind = .symbol .leftParen ∧ Phrase .assignment tokens value ∧
        closing.kind = .symbol .rightParen ∧ semicolon.kind = .symbol .semicolon ∧
        statement = .print position value := by
  rw [printStatement, yields_grouped_iff]
  constructor
  · rintro ⟨opening, tokens, closing, value, middle, passes, openingKind, phrase, closingKind, rest⟩
    rw [yields_expect_bind_iff, yields_pure_iff] at rest
    obtain ⟨kind, rfl, rfl⟩ := rest
    have whole := passes.trans (Tokens.passes_current kind (by simp))
    rw [List.append_assoc] at whole
    exact ⟨opening, tokens, closing, _, value, whole, openingKind, phrase, closingKind, kind, rfl⟩
  · rintro ⟨opening, tokens, closing, semicolon, value, passes, openingKind, phrase, closingKind,
      kind, rfl⟩
    have regrouped : before.Passes (opening :: tokens ++ [closing] ++ [semicolon]) after :=
      passes.congr (by simp)
    obtain ⟨middle, grouped, last⟩ := regrouped.split
    obtain rfl := last.current_eq
    refine ⟨opening, tokens, closing, value, middle, grouped, openingKind, phrase, closingKind, ?_⟩
    rw [yields_expect_bind_iff, yields_pure_iff, last.advance_eq]
    exact ⟨kind, rfl, rfl⟩

/-- A return with or without a value. -/
theorem yields_returnStatement_iff {position : Position} {before after : Tokens}
    {statement : Stmt} :
    Yields (returnStatement position) before statement after ↔
      (∃ semicolon, before.Passes [semicolon] after ∧ semicolon.kind = .symbol .semicolon ∧
        statement = .return_ position none) ∨
      ∃ tokens semicolon value, before.Passes (tokens ++ [semicolon]) after ∧
        Phrase .assignment tokens value ∧ semicolon.kind = .symbol .semicolon ∧
        statement = .return_ position (some value) := by
  rw [returnStatement, yields_peek_bind_iff]
  by_cases bare : before.current.kind = .symbol .semicolon
  · simp only [if_pos bare, pure_bind]
    rw [yields_expect_bind_iff, yields_pure_iff]
    have semicolon := Tokens.passes_current bare (by simp)
    constructor
    · rintro ⟨_, rfl, rfl⟩
      exact .inl ⟨_, semicolon, bare, rfl⟩
    · rintro (⟨_, passes, _, rfl⟩ | ⟨tokens, _, _, passes, phrase, _⟩)
      · obtain rfl := passes.current_eq
        exact ⟨bare, rfl, passes.advance_eq.symm⟩
      · obtain ⟨first, rest, rfl, member⟩ := phrase.first_kind
        rw [passes.current_eq] at bare
        simp [bare, Phrase.firstKinds] at member
  · simp only [if_neg bare, bind_map_left]
    rw [yields_expression_expect_iff rfl]
    constructor
    · rintro ⟨tokens, semicolon, value, middle, passes, phrase, kind, rest⟩
      obtain ⟨rfl, rfl⟩ := yields_pure_iff.mp rest
      exact .inr ⟨tokens, semicolon, value, passes, phrase, kind, rfl⟩
    · rintro (⟨_, passes, kind, _⟩ | ⟨tokens, semicolon, value, passes, phrase, kind, rfl⟩)
      · exact absurd (passes.current_eq ▸ kind) bare
      · exact ⟨tokens, semicolon, value, after, passes, phrase, kind,
          yields_pure_iff.mpr ⟨rfl, rfl⟩⟩

/-! ### What is read is a statement -/

mutual

/-- What is read is a statement with each `else` at the nearest `if`: behind one that ends in an
`if` without it, no `else` stands. -/
theorem statementIn_sound (turns : Nat) {before after : Tokens} {statement : Stmt}
    (yields : Yields (statementIn turns) before statement after) :
    ∃ tokens dangling, before.Passes tokens after ∧ Statement .nearest dangling tokens statement ∧
      (dangling = true → after.current.kind ≠ .keyword .else_) := by
  cases turns with
  | zero => exact absurd yields not_yields_unexpected
  | succ turns =>
    rw [statementIn, yields_peek_bind_iff] at yields
    split at yields
    · next kind =>
      rw [yields_head_iff (by simp [kind])] at yields
      obtain ⟨opening, test, closing, condition, middle, headPasses, openingKind, phrase,
        closingKind, rest⟩ := yields
      rw [yields_bind_iff] at rest
      obtain ⟨body, behind, bodyYields, rest⟩ := rest
      obtain ⟨bodyTokens, inner, bodyPasses, bodyReading, follows⟩ :=
        statementIn_sound turns bodyYields
      have passes := headPasses.trans bodyPasses
      rw [yields_peek_bind_iff] at rest
      by_cases elseKind : behind.current.kind = .keyword .else_
      · rw [if_pos elseKind, yields_advance_bind_iff, yields_bind_iff] at rest
        obtain ⟨alternative, last, otherYields, rest⟩ := rest
        obtain ⟨rfl, rfl⟩ := yields_pure_iff.mp rest
        obtain ⟨otherTokens, dangling, otherPasses, otherReading, otherFollows⟩ :=
          statementIn_sound turns otherYields
        have else_ := Tokens.passes_current elseKind (by simp)
        -- the `else` is the nearest one: the body would have taken it if it could
        have closed : inner = false := Bool.eq_false_iff.mpr fun open_ => follows open_ elseKind
        have reading := Statement.branchElse kind openingKind phrase closingKind bodyReading
          (fun _ => closed) elseKind otherReading
        refine ⟨_, dangling, ?_, reading, otherFollows⟩
        exact (passes.trans (else_.trans otherPasses)).congr (by simp)
      · rw [if_neg elseKind, yields_pure_iff] at rest
        obtain ⟨rfl, rfl⟩ := rest
        have reading := Statement.branch kind openingKind phrase closingKind bodyReading
        exact ⟨_, true, passes.congr (by simp), reading, fun _ => elseKind⟩
    · next kind =>
      rw [yields_head_iff (by simp [kind])] at yields
      obtain ⟨opening, test, closing, condition, middle, headPasses, openingKind, phrase,
        closingKind, rest⟩ := yields
      rw [yields_bind_iff] at rest
      obtain ⟨body, behind, bodyYields, rest⟩ := rest
      obtain ⟨rfl, rfl⟩ := yields_pure_iff.mp rest
      obtain ⟨bodyTokens, dangling, bodyPasses, bodyReading, follows⟩ :=
        statementIn_sound turns bodyYields
      have passes := headPasses.trans bodyPasses
      have reading := Statement.loop kind openingKind phrase closingKind bodyReading
      exact ⟨_, dangling, passes.congr (by simp), reading, follows⟩
    · next kind =>
      have keyword := Tokens.passes_current kind (by simp)
      rw [yields_advance_bind_iff, yields_printStatement_iff] at yields
      obtain ⟨opening, tokens, closing, semicolon, value, passes, openingKind, phrase, closingKind,
        semicolonKind, rfl⟩ := yields
      exact ⟨_, false, keyword.trans passes,
        .print kind openingKind phrase closingKind semicolonKind, nofun⟩
    · next kind =>
      have keyword := Tokens.passes_current kind (by simp)
      rw [yields_advance_bind_iff, yields_returnStatement_iff] at yields
      rcases yields with ⟨semicolon, passes, semicolonKind, rfl⟩ |
        ⟨tokens, semicolon, value, passes, phrase, semicolonKind, rfl⟩
      · exact ⟨_, false, keyword.trans passes, .returnNone kind semicolonKind, nofun⟩
      · exact ⟨_, false, keyword.trans passes, .returnValue kind phrase semicolonKind, nofun⟩
    · next kind =>
      have opening := Tokens.passes_current kind (by simp)
      rw [yields_advance_bind_iff, yields_bind_iff] at yields
      obtain ⟨body, behind, bodyYields, rest⟩ := yields
      obtain ⟨rfl, rfl⟩ := yields_pure_iff.mp rest
      obtain ⟨tokens, closing, passes, closingKind, reading⟩ := blockBodyIn_sound turns bodyYields
      exact ⟨_, false, opening.trans passes, .block kind reading closingKind, nofun⟩
    · obtain ⟨tokens, semicolon, e, passes, phrase, semicolonKind, rfl⟩ :=
        yields_expressionStatement_iff.mp yields
      have reading : Statement .nearest false _ _ := .expression phrase semicolonKind
      have position_eq : place tokens = before.current.position := by
        obtain ⟨first, rest, rfl, _⟩ := phrase.first_kind
        rw [passes.current_eq]
        rfl
      rw [position_eq] at reading
      exact ⟨_, false, passes, reading, nofun⟩
termination_by turns

/-- What is read are statements and the brace behind them. -/
theorem blockBodyIn_sound (turns : Nat) {before after : Tokens} {body : List Stmt}
    (yields : Yields (blockBodyIn turns) before body after) :
    ∃ tokens closing, before.Passes (tokens ++ [closing]) after ∧
      closing.kind = .symbol .rightBrace ∧ Statements .nearest tokens body := by
  cases turns with
  | zero => exact absurd yields not_yields_unexpected
  | succ turns =>
    rw [blockBodyIn, yields_peek_bind_iff] at yields
    split at yields
    · rw [yields_expect_bind_iff, yields_pure_iff] at yields
      obtain ⟨kind, rfl, rfl⟩ := yields
      exact ⟨[], _, Tokens.passes_current kind (by simp), kind, .nil⟩
    · rw [yields_bind_iff] at yields
      obtain ⟨first, middle, firstYields, rest⟩ := yields
      rw [yields_bind_iff] at rest
      obtain ⟨others, last, othersYields, rest⟩ := rest
      obtain ⟨rfl, rfl⟩ := yields_pure_iff.mp rest
      obtain ⟨tokens, dangling, passes, reading, _⟩ := statementIn_sound turns firstYields
      obtain ⟨later, closing, laterPasses, kind, readings⟩ := blockBodyIn_sound turns othersYields
      refine ⟨tokens ++ later, closing, ?_, kind, .cons reading readings⟩
      exact (passes.trans laterPasses).congr (by simp)
termination_by turns

end

/-! ### A statement is read -/

/-- No statement begins with what ends a block or a branch. -/
theorem first_kind_of_statement {rule : ElseRule} {dangling : Bool} {tokens : List Token}
    {statement : Stmt} (reading : Statement rule dangling tokens statement) :
    ∃ first rest, tokens = first :: rest ∧ first.kind ≠ .symbol .rightBrace ∧
      first.kind ≠ .keyword .else_ := by
  match reading with
  | .branch kind _ _ _ _ => exact ⟨_, _, rfl, by simp [kind]⟩
  | .branchElse kind _ _ _ _ _ _ _ => exact ⟨_, _, rfl, by simp [kind]⟩
  | .loop kind _ _ _ _ => exact ⟨_, _, rfl, by simp [kind]⟩
  | .print kind _ _ _ _ => exact ⟨_, _, rfl, by simp [kind]⟩
  | .returnNone kind _ => exact ⟨_, _, rfl, by simp [kind]⟩
  | .returnValue kind _ _ => exact ⟨_, _, rfl, by simp [kind]⟩
  | .block kind _ _ => exact ⟨_, _, rfl, by simp [kind]⟩
  | .expression phrase _ =>
    obtain ⟨first, rest, rfl, member⟩ := phrase.first_kind
    refine ⟨_, _, rfl, fun kind => ?_, fun kind => ?_⟩ <;>
      simp [kind, Phrase.firstKinds] at member

/-- No `else` stands where statements up to a closing brace begin. -/
theorem current_ne_else {rule : ElseRule} {tokens : List Token} {body : List Stmt}
    {closing : Token} {before after : Tokens} (reading : Statements rule tokens body)
    (closingKind : closing.kind = .symbol .rightBrace)
    (passes : before.Passes (tokens ++ [closing]) after) :
    before.current.kind ≠ .keyword .else_ := by
  match reading with
  | .nil =>
    rw [passes.current_eq]
    simp [closingKind]
  | .cons first _ =>
    obtain ⟨token, rest, rfl, _, notElse⟩ := first_kind_of_statement first
    rw [passes.current_eq]
    exact notElse

/-- The head of a statement and what follows it. -/
theorem passes_head {before after : Tokens} {keyword opening closing : Token}
    {test later : List Token}
    (passes : before.Passes (keyword :: opening :: test ++ closing :: later) after) :
    ∃ middle, before.Passes (keyword :: opening :: test ++ [closing]) middle ∧
      middle.Passes later after :=
  (passes.congr (by simp)).split

mutual

/-- A statement is read if no `else` follows that it would take for its own. -/
theorem statementIn_complete (turns : Nat) {dangling : Bool} {tokens : List Token}
    {statement : Stmt} {before after : Tokens}
    (reading : Statement .nearest dangling tokens statement)
    (follows : dangling = true → after.current.kind ≠ .keyword .else_)
    (passes : before.Passes tokens after) (enough : 2 * before.ahead.length ≤ turns) :
    Yields (statementIn turns) before statement after := by
  obtain ⟨_, _, nonempty, _⟩ := first_kind_of_statement reading
  have shorter := passes.length_lt (by simp [nonempty])
  obtain ⟨fewer, rfl⟩ : ∃ fewer, turns = fewer + 1 := ⟨turns - 1, by omega⟩
  rw [statementIn, yields_peek_bind_iff]
  match reading with
  | .branch kind openingKind phrase closingKind body =>
    obtain ⟨middle, head, bodyPasses⟩ := passes_head passes
    obtain rfl := head.current_eq
    have fewerTokens := head.length_lt (by simp)
    have bodyYields := statementIn_complete fewer body (fun _ => follows rfl) bodyPasses (by omega)
    simp only [kind]
    rw [yields_head_iff (by simp [kind])]
    refine ⟨_, _, _, _, middle, head, openingKind, phrase, closingKind, ?_⟩
    refine yields_bind_iff.mpr ⟨_, _, bodyYields, ?_⟩
    -- An `if` without an `else` dangles, so no `else` follows it.
    rw [yields_peek_bind_iff, if_neg (follows rfl)]
    exact yields_pure_iff.mpr ⟨rfl, rfl⟩
  | .branchElse kind openingKind phrase closingKind body nearest elseKind other =>
    rw [List.append_assoc] at passes
    obtain ⟨middle, head, rest⟩ := passes_head passes
    obtain ⟨behind, bodyPasses, elsePasses⟩ := rest.split
    obtain ⟨last, else_, otherPasses⟩ := elsePasses.splitFirst
    obtain rfl := head.current_eq
    obtain rfl := else_.current_eq
    have fewerTokens := head.length_lt (by simp)
    have bodyTokens := bodyPasses.length_eq
    have lastTokens := else_.length_lt (by simp)
    have bodyYields := statementIn_complete fewer body
      -- The body in front of an `else` does not dangle, or the `else` would be its own.
      (fun dangles => absurd (nearest rfl) (by simp [dangles])) bodyPasses (by omega)
    have otherYields := statementIn_complete fewer other follows otherPasses (by omega)
    simp only [kind]
    rw [yields_head_iff (by simp [kind])]
    refine ⟨_, _, _, _, middle, head, openingKind, phrase, closingKind, ?_⟩
    refine yields_bind_iff.mpr ⟨_, _, bodyYields, ?_⟩
    rw [yields_peek_bind_iff, if_pos elseKind, yields_advance_bind_iff, else_.advance_eq]
    exact yields_bind_iff.mpr ⟨_, _, otherYields, yields_pure_iff.mpr ⟨rfl, rfl⟩⟩
  | .loop kind openingKind phrase closingKind body =>
    obtain ⟨middle, head, bodyPasses⟩ := passes_head passes
    obtain rfl := head.current_eq
    have fewerTokens := head.length_lt (by simp)
    have bodyYields := statementIn_complete fewer body follows bodyPasses (by omega)
    simp only [kind]
    rw [yields_head_iff (by simp [kind])]
    refine ⟨_, _, _, _, middle, head, openingKind, phrase, closingKind, ?_⟩
    exact yields_bind_iff.mpr ⟨_, _, bodyYields, yields_pure_iff.mpr ⟨rfl, rfl⟩⟩
  | .print kind openingKind phrase closingKind semicolonKind =>
    obtain ⟨inside, keyword, rest⟩ := passes.splitFirst
    obtain rfl := keyword.current_eq
    simp only [kind]
    rw [yields_advance_bind_iff, keyword.advance_eq, yields_printStatement_iff]
    exact ⟨_, _, _, _, _, rest, openingKind, phrase, closingKind, semicolonKind, rfl⟩
  | .returnNone kind semicolonKind =>
    obtain ⟨inside, keyword, rest⟩ := passes.splitFirst
    obtain rfl := keyword.current_eq
    simp only [kind]
    rw [yields_advance_bind_iff, keyword.advance_eq, yields_returnStatement_iff]
    exact .inl ⟨_, rest, semicolonKind, rfl⟩
  | .returnValue kind phrase semicolonKind =>
    rw [List.cons_append] at passes
    obtain ⟨inside, keyword, rest⟩ := passes.splitFirst
    obtain rfl := keyword.current_eq
    simp only [kind]
    rw [yields_advance_bind_iff, keyword.advance_eq, yields_returnStatement_iff]
    exact .inr ⟨_, _, _, rest, phrase, semicolonKind, rfl⟩
  | .block kind statements closingKind =>
    rw [List.cons_append] at passes
    obtain ⟨inside, opening, rest⟩ := passes.splitFirst
    obtain rfl := opening.current_eq
    have fewerTokens := opening.length_lt (by simp)
    have bodyYields := blockBodyIn_complete fewer statements closingKind rest (by omega)
    simp only [kind]
    rw [yields_advance_bind_iff, opening.advance_eq]
    exact yields_bind_iff.mpr ⟨_, _, bodyYields, yields_pure_iff.mpr ⟨rfl, rfl⟩⟩
  | .expression phrase semicolonKind =>
    obtain ⟨first, rest, rfl, member⟩ := phrase.first_kind
    obtain rfl := passes.current_eq
    have read : Yields (expressionStatement before.current.position) before _ after :=
      yields_expressionStatement_iff.mpr ⟨_, _, _, passes, phrase, semicolonKind, rfl⟩
    -- None of the kinds that an expression begins with is that of another statement.
    simp only [Phrase.firstKinds, List.mem_cons, List.not_mem_nil, or_false] at member
    rcases member with kind | kind | kind | kind | kind <;> simp only [kind] <;> exact read

/-- Statements are read up to the brace behind them. -/
theorem blockBodyIn_complete (turns : Nat) {tokens : List Token} {body : List Stmt}
    {closing : Token} {before after : Tokens} (reading : Statements .nearest tokens body)
    (closingKind : closing.kind = .symbol .rightBrace)
    (passes : before.Passes (tokens ++ [closing]) after)
    (enough : 2 * before.ahead.length + 1 ≤ turns) :
    Yields (blockBodyIn turns) before body after := by
  obtain ⟨fewer, rfl⟩ : ∃ fewer, turns = fewer + 1 := ⟨turns - 1, by omega⟩
  rw [blockBodyIn, yields_peek_bind_iff]
  match reading with
  | .nil =>
    obtain rfl := passes.current_eq
    rw [if_pos (.inl closingKind), yields_expect_bind_iff, yields_pure_iff]
    exact ⟨closingKind, rfl, passes.advance_eq.symm⟩
  | .cons first others =>
    obtain ⟨token, rest, rfl, notClosing, _⟩ := first_kind_of_statement first
    rw [List.append_assoc] at passes
    obtain ⟨middle, firstPasses, othersPasses⟩ := passes.split
    have current := firstPasses.current_eq
    have real := firstPasses.not_eof (List.mem_cons_self ..)
    have fewerTokens := firstPasses.length_lt (by simp)
    have firstYields := statementIn_complete fewer first
      (fun _ => current_ne_else others closingKind othersPasses) firstPasses (by omega)
    have othersYields := blockBodyIn_complete fewer others closingKind othersPasses (by omega)
    rw [current, if_neg (by simp [notClosing, real])]
    refine yields_bind_iff.mpr ⟨_, _, firstYields, ?_⟩
    exact yields_bind_iff.mpr ⟨_, _, othersYields, yields_pure_iff.mpr ⟨rfl, rfl⟩⟩

end

/-! ### Functions and programs -/

theorem paramsIn_sound (turns : Nat) {before after : Tokens} {params : List Param}
    (yields : Yields (paramsIn turns) before params after) :
    ∃ tokens, before.Passes tokens after ∧ ParamList tokens params := by
  induction turns generalizing before params with
  | zero => exact absurd yields not_yields_unexpected
  | succ turns ih =>
    rw [paramsIn, yields_expect_bind_iff] at yields
    obtain ⟨nameKind, rest⟩ := yields
    have name := Tokens.passes_current nameKind (by simp)
    simp only [yields_accept_bind_iff] at rest
    split at rest
    · next commaKind =>
      have comma := Tokens.passes_current commaKind (by simp)
      rw [if_pos trivial, yields_bind_iff] at rest
      obtain ⟨others, last, othersYields, rest⟩ := rest
      obtain ⟨rfl, rfl⟩ := yields_pure_iff.mp rest
      obtain ⟨later, passes, list⟩ := ih othersYields
      exact ⟨_, name.trans (comma.trans passes), .more nameKind commaKind list⟩
    · rw [if_neg Bool.false_ne_true] at rest
      obtain ⟨rfl, rfl⟩ := yields_pure_iff.mp rest
      exact ⟨_, name, .last nameKind⟩

/-- A list of parameters is read up to the parenthesis behind it. -/
theorem paramsIn_complete (turns : Nat) {tokens : List Token} {params : List Param}
    {before after : Tokens} (list : ParamList tokens params)
    (closing : after.current.kind = .symbol .rightParen) (passes : before.Passes tokens after)
    (enough : before.ahead.length ≤ turns) :
    Yields (paramsIn turns) before params after := by
  induction list generalizing turns before with
  | last nameKind =>
    obtain rfl := passes.current_eq
    have shorter := passes.length_lt (by simp)
    obtain ⟨fewer, rfl⟩ : ∃ fewer, turns = fewer + 1 := ⟨turns - 1, by omega⟩
    rw [paramsIn, yields_expect_bind_iff, passes.advance_eq]
    refine ⟨nameKind, ?_⟩
    simp only [yields_accept_bind_iff, closing, Bool.false_eq_true, if_false]
    rw [if_neg (by simp)]
    exact yields_pure_iff.mpr ⟨rfl, rfl⟩
  | more nameKind commaKind _ ih =>
    obtain ⟨inside, name, rest⟩ := passes.splitFirst
    obtain ⟨behind, comma, later⟩ := rest.splitFirst
    obtain rfl := name.current_eq
    obtain rfl := comma.current_eq
    have shorter := name.length_lt (by simp)
    have shorterStill := comma.length_lt (by simp)
    obtain ⟨fewer, rfl⟩ : ∃ fewer, turns = fewer + 1 := ⟨turns - 1, by omega⟩
    have others := ih fewer later (by omega)
    rw [paramsIn, yields_expect_bind_iff, name.advance_eq]
    refine ⟨nameKind, ?_⟩
    simp only [yields_accept_bind_iff, if_pos commaKind, comma.advance_eq, if_true]
    exact yields_bind_iff.mpr ⟨_, _, others, yields_pure_iff.mpr ⟨rfl, rfl⟩⟩

theorem yields_blockBody_iff {before after : Tokens} {body : Block} :
    Yields blockBody before body after ↔
      ∃ tokens closing, before.Passes (tokens ++ [closing]) after ∧
        closing.kind = .symbol .rightBrace ∧ Statements .nearest tokens body := by
  rw [blockBody, yields_get_bind_iff]
  constructor
  · exact blockBodyIn_sound _
  · rintro ⟨tokens, closing, passes, kind, reading⟩
    exact blockBodyIn_complete _ reading kind passes (by omega)

/-- What follows the parameters of a function. -/
def functionBehind (keyword name : Token) (params : List Param) : Parser Function := do
  let _ ← expect (.symbol .rightParen) .paramsClose
  let _ ← expect (.symbol .leftBrace) .bodyOpen
  let body ← blockBody
  return ⟨name.lexeme, params, body, keyword.position⟩

theorem yields_functionBehind_iff {keyword name : Token} {params : List Param}
    {before after : Tokens} {result : Function} :
    Yields (functionBehind keyword name params) before result after ↔
      ∃ closing bodyOpening tokens bodyClosing body,
        before.Passes (closing :: bodyOpening :: tokens ++ [bodyClosing]) after ∧
        closing.kind = .symbol .rightParen ∧ bodyOpening.kind = .symbol .leftBrace ∧
        Statements .nearest tokens body ∧ bodyClosing.kind = .symbol .rightBrace ∧
        result = ⟨name.lexeme, params, body, keyword.position⟩ := by
  unfold functionBehind
  rw [yields_expect_bind_iff, yields_expect_bind_iff, yields_bind_iff]
  constructor
  · rintro ⟨closingKind, openingKind, body, middle, bodyYields, rest⟩
    obtain ⟨rfl, rfl⟩ := yields_pure_iff.mp rest
    obtain ⟨tokens, bodyClosing, passes, kind, reading⟩ := yields_blockBody_iff.mp bodyYields
    have closing := Tokens.passes_current closingKind (by simp)
    have opening := Tokens.passes_current openingKind (by simp)
    exact ⟨_, _, tokens, bodyClosing, body, closing.trans (opening.trans passes), closingKind,
      openingKind, reading, kind, rfl⟩
  · rintro ⟨closing, opening, tokens, bodyClosing, body, passes, closingKind, openingKind, reading,
      kind, rfl⟩
    obtain ⟨inside, first, rest⟩ := passes.splitFirst
    obtain ⟨behind, second, bodyPasses⟩ := rest.splitFirst
    obtain rfl := first.current_eq
    obtain rfl := second.current_eq
    rw [first.advance_eq, second.advance_eq]
    refine ⟨closingKind, openingKind, body, after, ?_, yields_pure_iff.mpr ⟨rfl, rfl⟩⟩
    exact yields_blockBody_iff.mpr ⟨tokens, bodyClosing, bodyPasses, kind, reading⟩

/-- A function is read from the tokens that are one. -/
theorem yields_function_iff {before after : Tokens} {result : Function} :
    Yields function before result after ↔
      ∃ tokens, before.Passes tokens after ∧ FunctionText .nearest tokens result := by
  rw [function, yields_expect_bind_iff, yields_expect_bind_iff, yields_expect_bind_iff,
    yields_peek_bind_iff]
  constructor
  · rintro ⟨keywordKind, nameKind, openingKind, rest⟩
    have head := ((Tokens.passes_current keywordKind (by simp)).trans
      (Tokens.passes_current nameKind (by simp))).trans
      (Tokens.passes_current openingKind (by simp))
    obtain ⟨inner, params, middle, innerPasses, paramsText, rest⟩ :
        ∃ inner params middle, before.advance.advance.advance.Passes inner middle ∧
          ParamsText inner params ∧
          Yields (functionBehind before.current before.advance.current params) middle result
            after := by
      split at rest
      · simp only [pure_bind] at rest
        exact ⟨[], [], _, .refl _, .none, rest⟩
      · rw [yields_get_bind_iff, yields_bind_iff] at rest
        obtain ⟨params, middle, paramsYields, rest⟩ := rest
        obtain ⟨inner, passes, list⟩ := paramsIn_sound _ paramsYields
        exact ⟨inner, params, middle, passes, .some list, rest⟩
    obtain ⟨closing, bodyOpening, tokens, bodyClosing, body, passes, closingKind, bodyOpeningKind,
      reading, kind, rfl⟩ := yields_functionBehind_iff.mp rest
    refine ⟨_, ?_, .function keywordKind nameKind openingKind paramsText closingKind
      bodyOpeningKind reading kind⟩
    exact ((head.trans innerPasses).trans passes).congr (by simp)
  · rintro ⟨_, passes, text⟩
    match text with
    | @FunctionText.function _ keyword name opening closing bodyOpening bodyClosing inner tokens
        params body keywordKind nameKind openingKind paramsText closingKind bodyOpeningKind reading
        kind =>
      have regrouped : before.Passes ([keyword] ++ ([name] ++ ([opening] ++ (inner ++
          (closing :: bodyOpening :: tokens ++ [bodyClosing]))))) after := passes.congr (by simp)
      obtain ⟨atName, first, rest⟩ := regrouped.split
      obtain ⟨atOpening, second, rest⟩ := rest.split
      obtain ⟨inside, third, rest⟩ := rest.split
      obtain ⟨atClosing, innerPasses, behind⟩ := rest.split
      obtain rfl := first.current_eq
      obtain rfl := second.current_eq
      obtain rfl := third.current_eq
      have closed :
          Yields (functionBehind before.current atName.current params) atClosing _ after :=
        yields_functionBehind_iff.mpr ⟨_, _, _, _, _, behind, closingKind, bodyOpeningKind, reading,
          kind, rfl⟩
      rw [first.advance_eq, second.advance_eq, third.advance_eq]
      refine ⟨keywordKind, nameKind, openingKind, ?_⟩
      match paramsText with
      | .none =>
        obtain rfl := innerPasses.eq_of_nil
        rw [if_pos (behind.current_eq ▸ closingKind)]
        simp only [pure_bind]
        exact closed
      | .some list =>
        have notClosed : inside.current.kind ≠ .symbol .rightParen := by
          obtain ⟨name, rest, rfl, kind⟩ := list.first_kind
          rw [innerPasses.current_eq]
          simp [kind]
        have closing := behind.current_eq ▸ closingKind
        have paramsYields := paramsIn_complete (inside.ahead.length + 1) list closing innerPasses
          (Nat.le_succ _)
        rw [if_neg notClosed]
        exact yields_get_bind_iff.mpr (yields_bind_iff.mpr ⟨_, _, paramsYields, closed⟩)

/-- What is read are functions up to the end of the input. -/
theorem functionsIn_sound (turns : Nat) {before after : Tokens} {functions : List Function}
    (enough : before.ahead.length < turns)
    (yields : Yields (functionsIn turns) before functions after) :
    ∃ tokens, before.Passes tokens after ∧ ProgramText .nearest tokens ⟨functions⟩ ∧
      after.current.kind = .eof := by
  induction turns generalizing before functions with
  | zero => exact absurd enough (Nat.not_lt_zero _)
  | succ turns ih =>
    rw [functionsIn, yields_peek_bind_iff] at yields
    split at yields
    · next ended =>
      obtain ⟨rfl, rfl⟩ := yields_pure_iff.mp yields
      exact ⟨[], .refl _, .nil, ended⟩
    · split at yields
      · rw [yields_bind_iff] at yields
        obtain ⟨first, middle, firstYields, rest⟩ := yields
        rw [yields_bind_iff] at rest
        obtain ⟨others, last, othersYields, rest⟩ := rest
        obtain ⟨rfl, rfl⟩ := yields_pure_iff.mp rest
        obtain ⟨tokens, passes, text⟩ := yields_function_iff.mp firstYields
        obtain ⟨_, _, nonempty, _⟩ := text.first_kind
        have shorter := passes.length_lt (by simp [nonempty])
        obtain ⟨later, laterPasses, texts, ended⟩ := ih (by omega) othersYields
        exact ⟨tokens ++ later, passes.trans laterPasses, .cons text texts, ended⟩
      · exact absurd yields not_yields_unexpected

/-- Functions are read up to the end of the input. -/
theorem functionsIn_complete (turns : Nat) {tokens : List Token} {result : Program}
    {before after : Tokens} (text : ProgramText .nearest tokens result)
    (ended : after.current.kind = .eof) (passes : before.Passes tokens after)
    (enough : before.ahead.length < turns) :
    Yields (functionsIn turns) before result.functions after := by
  induction text generalizing turns before with
  | nil =>
    obtain rfl := passes.eq_of_nil
    obtain ⟨fewer, rfl⟩ : ∃ fewer, turns = fewer + 1 := ⟨turns - 1, by omega⟩
    rw [functionsIn, yields_peek_bind_iff, if_pos ended]
    exact yields_pure_iff.mpr ⟨rfl, rfl⟩
  | cons first _ ih =>
    obtain ⟨middle, firstPasses, rest⟩ := passes.split
    obtain ⟨token, behind, rfl, kind⟩ := first.first_kind
    have shorter := firstPasses.length_lt (by simp)
    obtain ⟨fewer, rfl⟩ : ∃ fewer, turns = fewer + 1 := ⟨turns - 1, by omega⟩
    have keyword : before.current.kind = .keyword .function := firstPasses.current_eq ▸ kind
    rw [functionsIn, yields_peek_bind_iff, if_neg (by simp [keyword]), if_pos keyword]
    refine yields_bind_iff.mpr ⟨_, _, yields_function_iff.mpr ⟨_, firstPasses, first⟩, ?_⟩
    have others := ih fewer rest (by omega)
    exact yields_bind_iff.mpr ⟨_, _, others, yields_pure_iff.mpr ⟨rfl, rfl⟩⟩

/-- A program is read from the tokens that are one, up to the end of the input. -/
theorem yields_program_iff {before after : Tokens} {result : Program} :
    Yields program before result after ↔
      ∃ tokens, before.Passes tokens after ∧ ProgramText .nearest tokens result ∧
        after.current.kind = .eof := by
  rw [program, yields_get_bind_iff, yields_bind_iff]
  constructor
  · rintro ⟨functions, middle, functionsYields, rest⟩
    obtain ⟨rfl, rfl⟩ := yields_pure_iff.mp rest
    exact functionsIn_sound _ (Nat.lt_succ_self _) functionsYields
  · rintro ⟨tokens, passes, text, ended⟩
    have yields := functionsIn_complete _ text ended passes (Nat.lt_succ_self _)
    exact ⟨_, _, yields, yields_pure_iff.mpr ⟨rfl, rfl⟩⟩

end Parser

/-! ### The parser and the grammar -/

theorem Tokens.current_eof_iff {tokens : Tokens} :
    tokens.current.kind = .eof ↔ tokens.ahead = [] := by
  constructor
  · intro ended
    cases ahead : tokens.ahead with
    | nil => rfl
    | cons token rest =>
      have real := tokens.not_eof token (by simp [ahead])
      simp only [Tokens.current, ahead, List.headD_cons] at ended
      exact absurd ended real
  · intro nothing
    simp [Tokens.current, nothing, Token.eofAt]

theorem Tokens.ahead_ofList {body : List Token} {finish : Token}
    (inside : ∀ token ∈ body, token.kind ≠ .eof) (ends : finish.kind = .eof) :
    (Tokens.ofList (body ++ [finish])).ahead = body := by
  have passed : ∀ token ∈ body, (!token.isEof) = true := by
    intro token member
    simp [Token.isEof, inside token member]
  show (body ++ [finish]).takeWhile (!·.isEof) = body
  rw [List.takeWhile_append_of_pos passed]
  simp [Token.isEof, ends]

/-- The programs that are read are those of the grammar with each `else` at the nearest `if`. -/
theorem Program.ofTokens_eq_ok_iff {body : List Token} {finish : Token}
    (inside : ∀ token ∈ body, token.kind ≠ .eof) (ends : finish.kind = .eof) (program : Program) :
    Program.ofTokens (body ++ [finish]) = .ok program ↔ ProgramText .nearest body program := by
  have ahead_eq := Tokens.ahead_ofList inside ends
  constructor
  · intro ok
    have yields : Parser.Yields Parser.program _ program _ := Prod.ext ok rfl
    obtain ⟨tokens, passes, text, ended⟩ := Parser.yields_program_iff.mp yields
    have all := passes.ahead_eq
    rw [Tokens.current_eof_iff.mp ended, List.append_nil, ahead_eq] at all
    exact all ▸ text
  · intro text
    let after : Tokens := ⟨[], (Tokens.ofList (body ++ [finish])).finish, nofun⟩
    have passes : (Tokens.ofList (body ++ [finish])).Passes body after :=
      ⟨by rw [ahead_eq, List.append_nil], rfl⟩
    have yields : Parser.Yields Parser.program _ program after :=
      Parser.yields_program_iff.mpr ⟨body, passes, text, rfl⟩
    exact congrArg Prod.fst yields

/-- A list of tokens is read exactly if it is a program of the grammar, whichever `if` each `else`
may belong to, and the result is its reading with the nearest. -/
theorem Program.ofTokens_iff_programText {body : List Token} {finish : Token}
    (inside : ∀ token ∈ body, token.kind ≠ .eof) (ends : finish.kind = .eof) :
    ((∃ program, Program.ofTokens (body ++ [finish]) = .ok program) ↔
      ∃ program, ProgramText .any body program) ∧
    ∀ program, Program.ofTokens (body ++ [finish]) = .ok program ↔
      ProgramText .nearest body program := by
  refine ⟨?_, Program.ofTokens_eq_ok_iff inside ends⟩
  rw [exists_programText_iff]
  exact exists_congr (Program.ofTokens_eq_ok_iff inside ends)

/-- `function f() {if (a) if (b) (a) = b = c - 1 - c; else f(-a * b);}`, all on one line. -/
def Token.nestedElse : List Token := [
  ⟨.keyword .function, "function", ⟨1, 1⟩⟩, ⟨.identifier, "f", ⟨1, 10⟩⟩,
  ⟨.symbol .leftParen, "(", ⟨1, 11⟩⟩, ⟨.symbol .rightParen, ")", ⟨1, 12⟩⟩,
  ⟨.symbol .leftBrace, "\x7b", ⟨1, 14⟩⟩,
  ⟨.keyword .if_, "if", ⟨1, 15⟩⟩, ⟨.symbol .leftParen, "(", ⟨1, 18⟩⟩,
  ⟨.identifier, "a", ⟨1, 19⟩⟩, ⟨.symbol .rightParen, ")", ⟨1, 20⟩⟩,
  ⟨.keyword .if_, "if", ⟨1, 22⟩⟩, ⟨.symbol .leftParen, "(", ⟨1, 25⟩⟩,
  ⟨.identifier, "b", ⟨1, 26⟩⟩, ⟨.symbol .rightParen, ")", ⟨1, 27⟩⟩,
  ⟨.symbol .leftParen, "(", ⟨1, 29⟩⟩, ⟨.identifier, "a", ⟨1, 30⟩⟩,
  ⟨.symbol .rightParen, ")", ⟨1, 31⟩⟩, ⟨.symbol .assign, "=", ⟨1, 33⟩⟩,
  ⟨.identifier, "b", ⟨1, 35⟩⟩, ⟨.symbol .assign, "=", ⟨1, 37⟩⟩, ⟨.identifier, "c", ⟨1, 39⟩⟩,
  ⟨.symbol .minus, "-", ⟨1, 41⟩⟩, ⟨.intLiteral, "1", ⟨1, 43⟩⟩, ⟨.symbol .minus, "-", ⟨1, 45⟩⟩,
  ⟨.identifier, "c", ⟨1, 47⟩⟩, ⟨.symbol .semicolon, ";", ⟨1, 48⟩⟩,
  ⟨.keyword .else_, "else", ⟨1, 50⟩⟩, ⟨.identifier, "f", ⟨1, 55⟩⟩,
  ⟨.symbol .leftParen, "(", ⟨1, 56⟩⟩, ⟨.symbol .minus, "-", ⟨1, 57⟩⟩,
  ⟨.identifier, "a", ⟨1, 58⟩⟩, ⟨.symbol .times, "*", ⟨1, 60⟩⟩, ⟨.identifier, "b", ⟨1, 62⟩⟩,
  ⟨.symbol .rightParen, ")", ⟨1, 63⟩⟩, ⟨.symbol .semicolon, ";", ⟨1, 64⟩⟩,
  ⟨.symbol .rightBrace, "\x7d", ⟨1, 65⟩⟩]

def Program.nestedElse : Program where
  functions := [
    ⟨"f", [],
      [.branch ⟨1, 15⟩ (.var ⟨1, 19⟩ "a")
        [.branch ⟨1, 22⟩ (.var ⟨1, 26⟩ "b")
          [.assign ⟨1, 29⟩ "a" (.assign ⟨1, 35⟩ "b"
            (.binary ⟨1, 39⟩ (.arithmetic .sub)
              (.binary ⟨1, 39⟩ (.arithmetic .sub) (.var ⟨1, 39⟩ "c") (.int ⟨1, 43⟩ 1))
              (.var ⟨1, 47⟩ "c")))]
          (some [.discard ⟨1, 55⟩ (.call ⟨1, 55⟩ "f"
            [.binary ⟨1, 57⟩ (.arithmetic .mul) (.negate ⟨1, 57⟩ (.var ⟨1, 58⟩ "a"))
              (.var ⟨1, 62⟩ "b")])])]
        none], ⟨1, 1⟩⟩]

theorem Program.ofTokens_iff_programText_nestedElse :
    (∀ token ∈ Token.nestedElse, token.kind ≠ .eof) ∧
      Program.ofTokens (Token.nestedElse ++ [.eofAt ⟨1, 66⟩]) = .ok .nestedElse ∧
      ProgramText .nearest Token.nestedElse .nestedElse := by
  have inside : ∀ token ∈ Token.nestedElse, token.kind ≠ .eof := by decide
  have read : Program.ofTokens (Token.nestedElse ++ [.eofAt ⟨1, 66⟩]) = .ok .nestedElse := by
    rfl
  exact ⟨inside, read, ((Program.ofTokens_iff_programText inside rfl).2 _).mp read⟩

end ImpStack

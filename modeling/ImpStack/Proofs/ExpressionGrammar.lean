import ImpStack.Proofs.Grammar
import ImpStack.Proofs.Parsing

/-!
The parser of expressions (SPEC_FULL, section 4.2) reads the expressions of the grammar and no
others: what it has read is an expression that the next operator does not continue
(`Parser.expressionOf_sound`), and it reads every expression behind which no operator stands that
would continue it (`Parser.reads_of_phrase`). In front of a closing sign the two meet
(`Parser.yields_expression_expect_iff`).

The grammar has levels and the parser strengths. `followRank` ties them together: it says which
operators behind an expression of a level are left to someone else.
-/
namespace ImpStack

/-! ### Levels and strengths -/

namespace Level

/-- The strength that asks for an expression of the level. -/
def strength : Level → Strength
  | assignment => .assignment
  | equality => .equality
  | relational => .ordering
  | additive => .sum
  | multiplicative => .product
  | unary => .negation
  | call => .call
  | primary => .primary

/-- Levels and strengths are ordered alike. -/
theorem rank_strength (level : Level) : level.strength.rank = level.rank := by
  cases level <;> rfl

/-- An operator of lesser rank that follows an expression of the level does not become a part of
it. -/
def followRank : Level → Nat
  | assignment => 1
  | equality => 3
  | relational => 4
  | additive => 5
  | multiplicative => 6
  | unary => 6
  | call => 8
  | primary => 8

theorem followRank_le (level : Level) : level.followRank ≤ level.rank + 1 := by
  cases level <;> decide

/-- What stops an expression of a level stops one of the next level too. -/
theorem followRank_next (level : Level) : level.followRank ≤ level.next.followRank := by
  cases level <;> decide

end Level

namespace Operator

/-- The level of the expressions that the operator builds. -/
def level : Operator → Level
  | assign => .assignment
  | call => .call
  | binary op => op.level

theorem rank_strength (op : Operator) : op.strength.rank = op.level.rank := by
  cases op with
  | assign => rfl
  | call => rfl
  | binary op =>
    cases op with
    | arithmetic op => cases op <;> rfl
    | comparison op => cases op <;> rfl

end Operator

/-- An operator is strong enough exactly if its level is tight enough. -/
theorem Level.strength_le_iff {level : Level} {op : Operator} :
    level.strength ≤ op.strength ↔ level.rank ≤ op.level.rank := by
  show level.strength.rank ≤ op.strength.rank ↔ _
  rw [Level.rank_strength, op.rank_strength]

namespace BinaryOp

/-- The right operand is of the next level, which is what makes operators of a level lean to the
left. -/
theorem tighter_strength (op : BinaryOp) :
    (Operator.binary op).strength.tighter = op.level.next.strength := by
  cases op with
  | arithmetic op => cases op <;> rfl
  | comparison op => cases op <;> rfl

theorem operator?_symbol (op : BinaryOp) : op.symbol.operator? = some (.binary op) := by
  cases op with
  | arithmetic op => cases op <;> rfl
  | comparison op => cases op <;> rfl

theorem followRank_level (op : BinaryOp) : op.level.followRank = op.level.next.rank := by
  cases op with
  | arithmetic op => cases op <;> rfl
  | comparison op => cases op <;> rfl

theorem rank_level_next (op : BinaryOp) : op.level.next.rank = op.level.rank + 1 := by
  cases op with
  | arithmetic op => cases op <;> rfl
  | comparison op => cases op <;> rfl

theorem rank_level_le (op : BinaryOp) : op.level.rank ≤ 5 := by
  cases op with
  | arithmetic op => cases op <;> decide
  | comparison op => cases op <;> decide

end BinaryOp

/-- The sign of an operator. -/
def Operator.symbol : Operator → Symbol
  | assign => .assign
  | call => .leftParen
  | binary op => op.symbol

/-- Each operator has a sign of its own. -/
theorem Kind.operator?_eq_some_iff {kind : Kind} {op : Operator} :
    kind.operator? = some op ↔ kind = .symbol op.symbol := by
  constructor
  · intro found
    cases kind with
    | symbol sign => cases sign <;> cases found <;> rfl
    | _ => cases found
  · rintro rfl
    cases op with
    | assign => rfl
    | call => rfl
    | binary op => exact op.operator?_symbol

/-- If an operator comes next, its rank is less than the bound. -/
def Tokens.NextBelow (tokens : Tokens) (bound : Nat) : Prop :=
  ∀ op, tokens.current.kind.operator? = some op → op.level.rank < bound

theorem Tokens.NextBelow.mono {tokens : Tokens} {bound other : Nat}
    (below : tokens.NextBelow bound) (le : bound ≤ other) : tokens.NextBelow other :=
  fun op found => Nat.lt_of_lt_of_le (below op found) le

/-- Every operator is looser than a primary expression. -/
theorem Tokens.nextBelow_eight (tokens : Tokens) : tokens.NextBelow 8 := by
  intro op _
  cases op with
  | assign => decide
  | call => decide
  | binary op => exact Nat.lt_of_le_of_lt op.rank_level_le (by decide)

namespace Parser

/-- A token that stands for an expression if its text has a value. -/
def literal {α : Type} (value? : Token → Option α) (build : Token → α → Expr)
    (failure : Token → SyntaxError) : Parser Expr := do
  let token ← advance
  match value? token with
  | some value => return build token value
  | none => throw (failure token)

/-- A literal is read if its text has a value. -/
theorem yields_literal_iff {α : Type} {value? : Token → Option α} {build : Token → α → Expr}
    {failure : Token → SyntaxError} {before after : Tokens} {e : Expr}
    (real : before.current.kind ≠ .eof) :
    Yields (literal value? build failure) before e after ↔
      ∃ value, value? before.current = some value ∧ e = build before.current value ∧
        before.Passes [before.current] after := by
  have passes := Tokens.passes_current rfl real
  rw [literal, yields_advance_bind_iff]
  cases value? before.current with
  | none => simp [not_yields_throw]
  | some value =>
    rw [yields_pure_iff]
    constructor
    · rintro ⟨rfl, rfl⟩
      exact ⟨value, rfl, rfl, passes⟩
    · rintro ⟨_, same, rfl, other⟩
      cases same
      exact ⟨rfl, other.unique passes⟩

theorem intLiteral_eq :
    intLiteral = literal (fun token => Numeral.int32? token.lexeme.toList)
      (fun token => .int token.position)
      fun token => .integerRange token.lexeme token.position := by
  refine bind_congr fun token => ?_
  dsimp only
  cases Numeral.int32? token.lexeme.toList <;> rfl

theorem floatLiteral_eq :
    floatLiteral = literal (fun token => Binary32.ofNumeral? token.lexeme.toList)
      (fun token => .float token.position) (.unexpectedToken .floatLiteral) := by
  refine bind_congr fun token => ?_
  dsimp only
  cases Binary32.ofNumeral? token.lexeme.toList <;> rfl

/-- What follows the arguments of a call whose parenthesis is `paren`. -/
def callBehind (left : Expr) (paren : Token) (arguments : List Expr) : Parser Expr := do
  let _ ← expect (.symbol .rightParen) .argsClose
  match left with
  | .var position callee => return .call position callee arguments
  | _ => throw (.callTarget paren.position)

theorem yields_callBehind_iff {left : Expr} {paren : Token} {arguments : List Expr}
    {before after : Tokens} {e : Expr} :
    Yields (callBehind left paren arguments) before e after ↔
      ∃ position callee, left = .var position callee ∧
        before.current.kind = .symbol .rightParen ∧ e = .call position callee arguments ∧
        after = before.advance := by
  unfold callBehind
  rw [yields_expect_bind_iff]
  cases left with
  | var position callee =>
    rw [yields_pure_iff]
    constructor
    · rintro ⟨closing, rfl, rfl⟩
      exact ⟨position, callee, rfl, closing, rfl, rfl⟩
    · rintro ⟨_, _, same, closing, rfl, rfl⟩
      cases same
      exact ⟨closing, rfl, rfl⟩
  | _ => simp [not_yields_throw]

/-! ### What is read is an expression -/

mutual

/-- An expression at least as tight as asked for, in front of no operator that would continue it. -/
theorem expressionOf_sound (turns : Nat) (least : Level) {before after : Tokens} {e : Expr}
    (enough : 4 * before.ahead.length + 1 ≤ turns) (loose : least.rank ≤ Level.unary.rank)
    (yields : Yields (expressionOf turns least.strength) before e after) :
    ∃ tokens, before.Passes tokens after ∧ Phrase least tokens e ∧
      after.NextBelow least.rank := by
  cases turns with
  | zero => exact absurd enough (by simp)
  | succ turns =>
    rw [expressionOf, yields_bind_iff] at yields
    obtain ⟨left, middle, leftYields, rest⟩ := yields
    obtain ⟨first, level, firstPasses, nonempty, firstPhrase, tight, follows⟩ :=
      operand_sound turns (by omega) leftYields
    have shorter := firstPasses.length_lt nonempty
    obtain ⟨tokens, passes, phrase, stops⟩ :=
      operators_sound turns (by omega) firstPhrase (Nat.le_trans loose tight) follows rest
    exact ⟨first ++ tokens, firstPasses.trans passes, phrase, stops⟩
termination_by turns

/-- An operand is a unary expression or a primary one. -/
theorem operand_sound (turns : Nat) {before after : Tokens} {e : Expr}
    (enough : 4 * before.ahead.length ≤ turns) (yields : Yields (operand turns) before e after) :
    ∃ tokens level, before.Passes tokens after ∧ tokens ≠ [] ∧ Phrase level tokens e ∧
      Level.unary.rank ≤ level.rank ∧ after.NextBelow level.followRank := by
  cases turns with
  | zero => exact absurd yields not_yields_unexpected
  | succ turns =>
    rw [operand, yields_peek_bind_iff] at yields
    split at yields
    · next kind =>
      rw [intLiteral_eq, yields_literal_iff (by simp [kind])] at yields
      obtain ⟨value, reads, rfl, passes⟩ := yields
      exact ⟨_, _, passes, by simp, .int kind reads, by decide, after.nextBelow_eight⟩
    · next kind =>
      rw [floatLiteral_eq, yields_literal_iff (by simp [kind])] at yields
      obtain ⟨value, reads, rfl, passes⟩ := yields
      exact ⟨_, _, passes, by simp, .float kind reads, by decide, after.nextBelow_eight⟩
    · next kind =>
      rw [yields_advance_bind_iff, yields_pure_iff] at yields
      obtain ⟨rfl, rfl⟩ := yields
      have passes := Tokens.passes_current kind (by simp)
      exact ⟨_, _, passes, by simp, .var kind, by decide, before.advance.nextBelow_eight⟩
    · next kind =>
      have opening := Tokens.passes_current kind (by simp)
      rw [yields_advance_bind_iff, yields_bind_iff] at yields
      obtain ⟨inner, middle, innerYields, rest⟩ := yields
      rw [yields_expect_bind_iff, yields_pure_iff] at rest
      obtain ⟨closingKind, rfl, rfl⟩ := rest
      have shorter := opening.length_lt (by simp)
      obtain ⟨tokens, passes, phrase, _⟩ := expressionOf_sound turns .assignment
        (by omega) (by decide) innerYields
      have closing := Tokens.passes_current closingKind (by simp)
      exact ⟨_, _, (opening.trans passes).trans closing, by simp,
        .group kind phrase closingKind, by decide, middle.advance.nextBelow_eight⟩
    · next kind =>
      have sign := Tokens.passes_current kind (by simp)
      rw [yields_advance_bind_iff, yields_bind_iff] at yields
      obtain ⟨inner, middle, innerYields, rest⟩ := yields
      obtain ⟨rfl, rfl⟩ := yields_pure_iff.mp rest
      have shorter := sign.length_lt (by simp)
      obtain ⟨tokens, passes, phrase, stops⟩ := expressionOf_sound turns .unary
        (by omega) (by decide) innerYields
      exact ⟨_, .unary, sign.trans passes, by simp, .negate kind phrase, by decide, stops⟩
    · exact absurd yields not_yields_unexpected
termination_by turns

/-- The operators behind an expression make it the left part of a larger one, as long as they
bind. -/
theorem operators_sound (turns : Nat) {least level : Level} {before after : Tokens} {left e : Expr}
    {earlier : List Token} (enough : 4 * before.ahead.length ≤ turns)
    (phrase : Phrase level earlier left) (loose : least.rank ≤ level.rank)
    (follows : before.NextBelow level.followRank)
    (yields : Yields (operators turns least.strength left) before e after) :
    ∃ tokens, before.Passes tokens after ∧ Phrase least (earlier ++ tokens) e ∧
      after.NextBelow least.rank := by
  have whole : Phrase least (earlier ++ []) left := by
    rw [List.append_nil]
    exact phrase.loosenTo loose
  cases turns with
  | zero =>
    obtain ⟨rfl, rfl⟩ := yields_pure_iff.mp yields
    have nothing : after.ahead = [] := List.length_eq_zero_iff.mp (by omega)
    refine ⟨[], .refl _, whole, fun op next => ?_⟩
    simp [Tokens.current, nothing, Token.eofAt, Kind.operator?] at next
  | succ turns =>
    rw [operators, yields_peek_bind_iff] at yields
    split at yields
    · next none =>
      obtain ⟨rfl, rfl⟩ := yields_pure_iff.mp yields
      refine ⟨[], .refl _, whole, fun op next => ?_⟩
      rw [none] at next
      cases next
    · next op next =>
      by_cases binds : least.strength ≤ op.strength
      · rw [if_pos binds, yields_bind_iff] at yields
        obtain ⟨middleExpr, middle, operationYields, rest⟩ := yields
        have tight := follows op next
        have bound := level.followRank_le
        -- The operation becomes the left operand of what follows, at its own level.
        obtain ⟨first, firstPasses, nonempty, firstPhrase, firstFollows⟩ :=
          operation_sound turns (by omega) next phrase (by omega) operationYields
        have shorter := firstPasses.length_lt nonempty
        obtain ⟨tokens, passes, lastPhrase, stops⟩ := operators_sound turns (by omega) firstPhrase
          (Level.strength_le_iff.mp binds) firstFollows rest
        rw [List.append_assoc] at lastPhrase
        exact ⟨first ++ tokens, firstPasses.trans passes, lastPhrase, stops⟩
      · rw [if_neg binds, yields_pure_iff] at yields
        obtain ⟨rfl, rfl⟩ := yields
        -- The next operator is too loose to belong to the phrase.
        refine ⟨[], .refl _, whole, fun other found => ?_⟩
        obtain rfl := Option.some.inj (next.symm.trans found)
        exact Nat.lt_of_not_le fun le => binds (Level.strength_le_iff.mpr le)
termination_by turns

/-- One operation takes an expression of a level to one of the level of its operator. -/
theorem operation_sound (turns : Nat) {op : Operator} {level : Level} {before after : Tokens}
    {left e : Expr} {earlier : List Token} (enough : 4 * before.ahead.length ≤ turns + 1)
    (next : before.current.kind.operator? = some op) (phrase : Phrase level earlier left)
    (loose : op.level.rank ≤ level.rank)
    (yields : Yields (operation turns op left) before e after) :
    ∃ tokens, before.Passes tokens after ∧ tokens ≠ [] ∧ Phrase op.level (earlier ++ tokens) e ∧
      after.NextBelow op.level.followRank := by
  have kind := Kind.operator?_eq_some_iff.mp next
  have sign := Tokens.passes_current kind (by simp)
  have shorter := sign.length_lt (by simp)
  cases turns with
  | zero => exact absurd yields not_yields_unexpected
  | succ turns =>
    cases op with
    | assign =>
      rw [operation, yields_advance_bind_iff] at yields
      split at yields
      · next position target =>
        rw [yields_bind_iff] at yields
        obtain ⟨value, middle, valueYields, rest⟩ := yields
        obtain ⟨rfl, rfl⟩ := yields_pure_iff.mp rest
        obtain ⟨tokens, passes, valuePhrase, stops⟩ := expressionOf_sound turns .assignment
          (by omega) (by decide) valueYields
        have targetPhrase := (phrase.loneName rfl).phrase .equality
        obtain rfl : position = place earlier := phrase.position_eq
        exact ⟨_, sign.trans passes, by simp, .assign targetPhrase kind valuePhrase, stops⟩
      · exact absurd yields not_yields_throw
    | call =>
      rw [operation, yields_advance_bind_iff, yields_peek_bind_iff] at yields
      -- The two ways to come to the closing parenthesis meet again there.
      obtain ⟨inner, arguments, middle, innerPasses, argumentsText, rest⟩ :
          ∃ inner arguments middle, before.advance.Passes inner middle ∧
            Arguments inner arguments ∧
            Yields (callBehind left before.current arguments) middle e after := by
        by_cases empty : before.advance.current.kind = .symbol .rightParen
        · simp only [if_pos empty, pure_bind] at yields
          exact ⟨[], [], _, .refl _, .none, yields⟩
        · simp only [if_neg empty, yields_bind_iff] at yields
          obtain ⟨arguments, middle, argsYields, rest⟩ := yields
          obtain ⟨inner, passes, list⟩ := args_sound turns (by omega) argsYields
          exact ⟨inner, arguments, middle, passes, .some list, yields_bind_iff.mpr rest⟩
      obtain ⟨position, callee, rfl, closingKind, rfl, rfl⟩ := yields_callBehind_iff.mp rest
      have closing := Tokens.passes_current closingKind (by simp)
      have calleePhrase := (phrase.loneName rfl).phrase .call
      obtain rfl : position = place earlier := phrase.position_eq
      have whole := Phrase.call calleePhrase kind argumentsText closingKind
      rw [List.append_assoc] at whole
      exact ⟨_, (sign.trans innerPasses).trans closing, by simp, whole, Tokens.nextBelow_eight _⟩
    | binary op =>
      rw [operation, yields_advance_bind_iff, yields_bind_iff] at yields
      obtain ⟨right, middle, rightYields, rest⟩ := yields
      obtain ⟨rfl, rfl⟩ := yields_pure_iff.mp rest
      rw [op.tighter_strength] at rightYields
      -- the left side may be of the level of the operator itself, the right side only of the next
      have bound := op.rank_level_le
      have step := op.rank_level_next
      obtain ⟨tokens, passes, rightPhrase, stops⟩ := expressionOf_sound turns op.level.next
        (by omega) (step ▸ Nat.succ_le_succ bound) rightYields
      rw [phrase.position_eq]
      refine ⟨_, sign.trans passes, by simp, ?_, op.followRank_level ▸ stops⟩
      exact .binary (phrase.loosenTo loose) kind rightPhrase
termination_by turns

theorem args_sound (turns : Nat) {before after : Tokens} {es : List Expr}
    (enough : 4 * before.ahead.length + 2 ≤ turns) (yields : Yields (args turns) before es after) :
    ∃ tokens, before.Passes tokens after ∧ ArgumentList tokens es := by
  cases turns with
  | zero => exact absurd yields not_yields_unexpected
  | succ turns =>
    rw [args, yields_bind_iff] at yields
    obtain ⟨arg, middle, argYields, rest⟩ := yields
    obtain ⟨tokens, passes, phrase, _⟩ := expressionOf_sound turns .assignment (by omega)
      (by decide) argYields
    rw [yields_accept_bind_iff] at rest
    split at rest
    · next commaKind =>
      have comma := Tokens.passes_current commaKind (by simp)
      have shorter := comma.length_lt (by simp)
      have lengths := passes.length_eq
      rw [if_pos rfl, yields_bind_iff] at rest
      obtain ⟨args, last, argsYields, rest⟩ := rest
      obtain ⟨rfl, rfl⟩ := yields_pure_iff.mp rest
      obtain ⟨later, laterPasses, list⟩ := args_sound turns (by omega) argsYields
      exact ⟨_, passes.trans (comma.trans laterPasses), .more phrase commaKind list⟩
    · rw [if_neg Bool.false_ne_true] at rest
      obtain ⟨rfl, rfl⟩ := yields_pure_iff.mp rest
      exact ⟨tokens, passes, .last phrase⟩
termination_by turns

end


/-! ### An expression is read -/

/-- In front of a looser operator nothing more is read. -/
theorem operators_stop {least : Level} {after : Tokens} (stops : after.NextBelow least.rank)
    (turns : Nat) (e : Expr) : Yields (operators turns least.strength e) after e after := by
  cases turns with
  | zero => exact yields_pure_iff.mpr ⟨rfl, rfl⟩
  | succ turns =>
    rw [operators, yields_peek_bind_iff]
    split
    · exact yields_pure_iff.mpr ⟨rfl, rfl⟩
    · next op next =>
      have less := stops op next
      rw [if_neg fun binds => Nat.not_lt_of_le (Level.strength_le_iff.mp binds) less]
      exact yields_pure_iff.mpr ⟨rfl, rfl⟩

/-- With turns enough for what is left, an expression at least as tight as `least` comes down to
going on behind `e`. -/
def Reads (turns : Nat) (least : Level) (before : Tokens) (e : Expr) (after : Tokens) : Prop :=
  ∃ rest, 4 * after.ahead.length ≤ rest ∧ ∀ result last,
    Yields (operators rest least.strength e) after result last →
      Yields (expressionOf turns least.strength) before result last

namespace Reads

variable {turns : Nat} {least : Level} {before middle after : Tokens} {left e : Expr}

/-- An expression behind which nothing binds has been read as a whole. -/
theorem ends (reads : Reads turns least before e after) (stops : after.NextBelow least.rank) :
    Yields (expressionOf turns least.strength) before e after := by
  obtain ⟨rest, _, continues⟩ := reads
  exact continues e after (operators_stop stops rest e)

/-- A primary expression is an operand. -/
theorem of_operand (yields : Yields (operand turns) before e after)
    (enough : 4 * after.ahead.length ≤ turns) : Reads (turns + 1) least before e after := by
  refine ⟨turns, enough, fun result last continues => ?_⟩
  rw [expressionOf]
  exact yields_bind_iff.mpr ⟨e, after, yields, continues⟩

/-- What comes down to going on behind the left side comes down to going on behind the whole. -/
theorem operation (reads : Reads turns least before left middle) {op : Operator}
    {tokens : List Token} (passes : middle.Passes tokens after) (nonempty : tokens ≠ [])
    (next : middle.current.kind.operator? = some op) (binds : least.rank ≤ op.level.rank)
    (operates : ∀ turns, 4 * middle.ahead.length ≤ turns + 2 →
      Yields (operation (turns + 1) op left) middle e after) :
    Reads turns least before e after := by
  obtain ⟨rest, enough, continues⟩ := reads
  have shorter := passes.length_lt nonempty
  obtain ⟨fewer, rfl⟩ : ∃ fewer, rest = fewer + 2 := ⟨rest - 2, by omega⟩
  refine ⟨fewer + 1, by omega, fun result last behind => continues result last ?_⟩
  rw [operators, yields_peek_bind_iff, next]
  simp only [if_pos (Level.strength_le_iff.mpr binds)]
  exact yields_bind_iff.mpr ⟨e, after, operates fewer enough, behind⟩

/-! One rule for each form of expression, given how its parts are read. -/

variable {inside behind : Tokens} {tokens : List Token}

theorem group (openingKind : before.current.kind = .symbol .leftParen)
    (opens : before.Passes [before.current] inside)
    (inner : Yields (expressionOf turns .assignment) inside e behind)
    (closingKind : behind.current.kind = .symbol .rightParen)
    (closes : behind.Passes [behind.current] after) (enough : 4 * after.ahead.length ≤ turns + 1) :
    Reads (turns + 2) least before (e.moveTo before.current.position) after := by
  refine .of_operand ?_ enough
  rw [operand, yields_peek_bind_iff]
  simp only [openingKind]
  rw [yields_advance_bind_iff, opens.advance_eq, yields_bind_iff]
  refine ⟨_, _, inner, ?_⟩
  rw [yields_expect_bind_iff, yields_pure_iff, closes.advance_eq]
  exact ⟨closingKind, rfl, rfl⟩

theorem negate (signKind : before.current.kind = .symbol .minus)
    (sign : before.Passes [before.current] inside)
    (inner : Yields (expressionOf turns .negation) inside e after)
    (enough : 4 * after.ahead.length ≤ turns + 1) :
    Reads (turns + 2) least before (.negate before.current.position e) after := by
  refine .of_operand ?_ enough
  rw [operand, yields_peek_bind_iff]
  simp only [signKind]
  rw [yields_advance_bind_iff, sign.advance_eq, yields_bind_iff]
  exact ⟨_, _, inner, yields_pure_iff.mpr ⟨rfl, rfl⟩⟩

theorem call {position : Position} {name : String} {arguments : List Expr}
    (reads : Reads turns least before (.var position name) middle)
    (openingKind : middle.current.kind = .symbol .leftParen)
    (opens : middle.Passes [middle.current] inside) (inner : inside.Passes tokens behind)
    (closingKind : behind.current.kind = .symbol .rightParen)
    (closes : behind.Passes [behind.current] after) (loose : least.rank ≤ Level.call.rank)
    (bare : inside.current.kind = .symbol .rightParen → arguments = [] ∧ behind = inside)
    (listed : inside.current.kind ≠ .symbol .rightParen →
      ∀ turns, 4 * inside.ahead.length + 2 ≤ turns →
        Yields (args turns) inside arguments behind) :
    Reads turns least before (.call position name arguments) after := by
  have passes := opens.trans (inner.trans closes)
  have next : middle.current.kind.operator? = some .call :=
    Kind.operator?_eq_some_iff.mpr openingKind
  have fewerTokens := opens.length_lt (by simp)
  have closed : Yields (callBehind (.var position name) middle.current arguments) behind
      (.call position name arguments) after :=
    yields_callBehind_iff.mpr ⟨_, _, rfl, closingKind, rfl, closes.advance_eq.symm⟩
  refine reads.operation passes (by simp) next
    (show least.rank ≤ Operator.call.level.rank from loose) fun turns enough => ?_
  rw [Parser.operation, yields_advance_bind_iff, yields_peek_bind_iff, opens.advance_eq]
  by_cases empty : inside.current.kind = .symbol .rightParen
  · obtain ⟨rfl, rfl⟩ := bare empty
    simp only [if_pos empty, pure_bind]
    exact closed
  · simp only [if_neg empty]
    exact yields_bind_iff.mpr ⟨_, _, listed empty turns (by omega), closed⟩

theorem binary {op : BinaryOp} {right : Expr} (reads : Reads turns least before left middle)
    (signKind : middle.current.kind = .symbol op.symbol)
    (sign : middle.Passes [middle.current] inside) (rightPasses : inside.Passes tokens after)
    (loose : least.rank ≤ op.level.rank)
    (inner : ∀ turns, 4 * inside.ahead.length + 1 ≤ turns →
      Yields (expressionOf turns op.level.next.strength) inside right after) :
    Reads turns least before (.binary left.position op left right) after := by
  have next : middle.current.kind.operator? = some (.binary op) :=
    Kind.operator?_eq_some_iff.mpr signKind
  have fewerTokens := sign.length_lt (by simp)
  refine reads.operation (sign.trans rightPasses) (by simp) next loose fun turns enough => ?_
  rw [Parser.operation, yields_advance_bind_iff, sign.advance_eq, op.tighter_strength,
    yields_bind_iff]
  exact ⟨_, _, inner turns (by omega), yields_pure_iff.mpr ⟨rfl, rfl⟩⟩

theorem assign {position : Position} {target : String} {value : Expr}
    (reads : Reads turns least before (.var position target) middle)
    (signKind : middle.current.kind = .symbol .assign)
    (sign : middle.Passes [middle.current] inside) (valuePasses : inside.Passes tokens after)
    (loose : least.rank ≤ Level.assignment.rank)
    (inner : ∀ turns, 4 * inside.ahead.length + 1 ≤ turns →
      Yields (expressionOf turns .assignment) inside value after) :
    Reads turns least before (.assign position target value) after := by
  have next : middle.current.kind.operator? = some .assign :=
    Kind.operator?_eq_some_iff.mpr signKind
  have fewerTokens := sign.length_lt (by simp)
  refine reads.operation (sign.trans valuePasses) (by simp) next loose fun turns enough => ?_
  rw [Parser.operation, yields_advance_bind_iff, sign.advance_eq, yields_bind_iff]
  exact ⟨_, _, inner turns (by omega), yields_pure_iff.mpr ⟨rfl, rfl⟩⟩

end Reads

/-- A token that is no operator stops every expression. -/
theorem nextBelow_of_kind {tokens : Tokens} {kind : Kind} (same : tokens.current.kind = kind)
    (none : kind.operator? = none) (bound : Nat) : tokens.NextBelow bound := by
  intro op next
  rw [same, none] at next
  cases next

mutual

/-- Every expression of the grammar is read, by induction on its derivation. -/
theorem reads_of_phrase (turns : Nat) (least : Level) {level : Level} {tokens : List Token}
    {e : Expr} {before after : Tokens} (phrase : Phrase level tokens e)
    (loose : least.rank ≤ level.rank) (low : least.rank ≤ Level.unary.rank)
    (follows : after.NextBelow level.followRank) (passes : before.Passes tokens after)
    (enough : 4 * before.ahead.length + 1 ≤ turns) :
    Reads turns least before e after := by
  have shorter := passes.length_lt phrase.ne_nil
  obtain ⟨fewer, rfl⟩ : ∃ fewer, turns = fewer + 2 := ⟨turns - 2, by omega⟩
  -- By induction on the phrase, with the turns left as the bound on its length. What is read as the
  -- left operand of an operator keeps the strength asked for, a right operand asks for the next.
  match phrase with
  | .int kind reads =>
    obtain rfl := passes.current_eq
    refine .of_operand ?_ (by omega)
    rw [operand, yields_peek_bind_iff]
    simp only [kind]
    rw [intLiteral_eq, yields_literal_iff (by simp [kind])]
    exact ⟨_, reads, rfl, passes⟩
  | .float kind reads =>
    obtain rfl := passes.current_eq
    refine .of_operand ?_ (by omega)
    rw [operand, yields_peek_bind_iff]
    simp only [kind]
    rw [floatLiteral_eq, yields_literal_iff (by simp [kind])]
    exact ⟨_, reads, rfl, passes⟩
  | .var kind =>
    obtain rfl := passes.current_eq
    refine .of_operand ?_ (by omega)
    rw [operand, yields_peek_bind_iff]
    simp only [kind]
    rw [yields_advance_bind_iff, yields_pure_iff, passes.advance_eq]
    exact ⟨rfl, rfl⟩
  | .group openingKind whole closingKind =>
    rw [List.cons_append] at passes
    obtain ⟨inside, opens, passes⟩ := passes.splitFirst
    obtain ⟨behind, inner, closes⟩ := passes.split
    obtain rfl := opens.current_eq
    obtain rfl := closes.current_eq
    have fewerTokens := opens.length_lt (by simp)
    have read := reads_of_phrase fewer .assignment whole (Nat.le_refl _)
      (by decide) (nextBelow_of_kind closingKind rfl _) inner (by omega)
    exact .group openingKind opens (read.ends (nextBelow_of_kind closingKind rfl _)) closingKind
      closes (by omega)
  | .call callee openingKind arguments closingKind =>
    rw [List.append_assoc, List.cons_append] at passes
    obtain ⟨middle, calleePasses, passes⟩ := passes.split
    obtain ⟨inside, opens, argPasses⟩ := passes.splitFirst
    obtain ⟨behind, inner, closes⟩ := argPasses.split
    obtain rfl := opens.current_eq
    obtain rfl := closes.current_eq
    have read := reads_of_phrase (fewer + 2) least callee loose low middle.nextBelow_eight
      calleePasses enough
    -- A closing parenthesis behind the opening one tells that there are no arguments, and no
    -- argument begins with one.
    rw [← callee.position_eq]
    match arguments with
    | .none =>
      obtain rfl := inner.eq_of_nil
      exact read.call openingKind opens inner closingKind closes loose (fun _ => ⟨rfl, rfl⟩)
        fun notClosed => absurd closingKind notClosed
    | .some list =>
      have notClosed : inside.current.kind ≠ .symbol .rightParen := by
        obtain ⟨first, rest, rfl, member⟩ := list.first_kind
        rw [inner.current_eq]
        rintro same
        simp [same, Phrase.firstKinds] at member
      exact read.call openingKind opens inner closingKind closes loose
        (fun closed => absurd closed notClosed)
        fun _ turns enough => args_of_argumentList turns list closingKind inner enough
  | .negate signKind operandPhrase =>
    obtain ⟨inside, sign, operandPasses⟩ := passes.splitFirst
    obtain rfl := sign.current_eq
    have fewerTokens := sign.length_lt (by simp)
    have enoughInside : 4 * inside.ahead.length + 1 ≤ fewer := by omega
    have read := reads_of_phrase fewer .unary operandPhrase (Nat.le_refl _) (Nat.le_refl _) follows
      operandPasses enoughInside
    exact .negate signKind sign (read.ends follows) (by omega)
  | @Phrase.binary op _ _ _ _ _ leftPhrase signKind rightPhrase =>
    obtain ⟨middle, leftPasses, passes⟩ := passes.split
    obtain ⟨inside, sign, rightPasses⟩ := passes.splitFirst
    obtain rfl := sign.current_eq
    have bound := op.rank_level_le
    have step := op.rank_level_next
    have next : middle.current.kind.operator? = some (.binary op) :=
      Kind.operator?_eq_some_iff.mpr signKind
    -- The operand on the left stops at the operator, which binds no tighter than its level.
    have leftFollows : middle.NextBelow op.level.followRank := by
      intro other found
      cases next.symm.trans found
      rw [op.followRank_level, step]
      exact Nat.lt_succ_self _
    have stops : after.NextBelow op.level.next.rank := op.followRank_level ▸ follows
    have read := reads_of_phrase (fewer + 2) least leftPhrase loose low leftFollows leftPasses
      enough
    rw [← leftPhrase.position_eq]
    refine read.binary signKind sign rightPasses loose fun turns enoughInside => ?_
    have right := reads_of_phrase turns op.level.next rightPhrase (Nat.le_refl _)
      (step ▸ Nat.succ_le_succ bound) (follows.mono op.level.followRank_next) rightPasses
      enoughInside
    exact right.ends stops
  | .assign targetPhrase signKind valuePhrase =>
    obtain ⟨middle, targetPasses, passes⟩ := passes.split
    obtain ⟨inside, sign, valuePasses⟩ := passes.splitFirst
    obtain rfl := sign.current_eq
    have next : middle.current.kind.operator? = some .assign :=
      Kind.operator?_eq_some_iff.mpr signKind
    have targetFollows : middle.NextBelow Level.equality.followRank := by
      intro other found
      cases next.symm.trans found
      decide
    have read := reads_of_phrase (fewer + 2) least targetPhrase
      (Nat.le_trans loose (Level.rank_le_next .assignment)) low targetFollows targetPasses enough
    rw [← targetPhrase.position_eq]
    refine read.assign signKind sign valuePasses loose fun turns enoughInside => ?_
    have value := reads_of_phrase turns .assignment valuePhrase (Nat.le_refl _) (by decide) follows
      valuePasses enoughInside
    exact value.ends follows
  | .loosen tighter =>
    exact reads_of_phrase (fewer + 2) least tighter (Nat.le_trans loose (Level.rank_le_next _)) low
      (follows.mono (Level.followRank_next _)) passes enough

/-- Every list of arguments is read up to the parenthesis behind it. -/
theorem args_of_argumentList (turns : Nat) {tokens : List Token} {args : List Expr}
    {before after : Tokens} (list : ArgumentList tokens args)
    (closing : after.current.kind = .symbol .rightParen) (passes : before.Passes tokens after)
    (enough : 4 * before.ahead.length + 2 ≤ turns) :
    Yields (Parser.args turns) before args after := by
  obtain ⟨fewer, rfl⟩ : ∃ fewer, turns = fewer + 1 := ⟨turns - 1, by omega⟩
  rw [Parser.args, yields_bind_iff]
  match list with
  | .last phrase =>
    have read := reads_of_phrase fewer .assignment phrase (Nat.le_refl _) (by decide)
      (nextBelow_of_kind closing rfl _) passes (by omega)
    refine ⟨_, _, read.ends (nextBelow_of_kind closing rfl _), ?_⟩
    rw [yields_accept_bind_iff, if_neg (by simp [closing])]
    exact yields_pure_iff.mpr ⟨rfl, rfl⟩
  | .more phrase commaKind rest =>
    obtain ⟨middle, argPasses, laterPasses⟩ := passes.split
    obtain ⟨behind, comma, restPasses⟩ := laterPasses.splitFirst
    obtain rfl := comma.current_eq
    have fewerTokens := comma.length_lt (by simp)
    have lengths := argPasses.length_eq
    have enoughBehind : 4 * behind.ahead.length + 2 ≤ fewer := by omega
    have read := reads_of_phrase fewer .assignment phrase (Nat.le_refl _) (by decide)
      (nextBelow_of_kind commaKind rfl _) argPasses (by omega)
    refine ⟨_, _, read.ends (nextBelow_of_kind commaKind rfl _), ?_⟩
    rw [yields_accept_bind_iff, if_pos commaKind, comma.advance_eq, if_pos rfl, yields_bind_iff]
    have others := args_of_argumentList fewer rest closing restPasses enoughBehind
    exact ⟨_, _, others, yields_pure_iff.mpr ⟨rfl, rfl⟩⟩

end

/-! ### Expressions in front of a closing sign -/

/-- In front of a sign that is no operator the parser reads exactly the expressions. -/
theorem yields_expression_expect_iff {β : Type} {sign : Symbol} (none : sign.operator? = none)
    {expected : Expectation} {next : Expr → Parser β} {before after : Tokens} {result : β} :
    Yields (expression >>= fun e => expect (.symbol sign) expected >>= fun _ => next e)
        before result after ↔
      ∃ tokens closing e middle, before.Passes (tokens ++ [closing]) middle ∧
        Phrase .assignment tokens e ∧ closing.kind = .symbol sign ∧
        Yields (next e) middle result after := by
  rw [yields_bind_iff]
  constructor
  · rintro ⟨e, behind, expressionYields, rest⟩
    rw [yields_expect_bind_iff] at rest
    obtain ⟨closingKind, rest⟩ := rest
    rw [expression, yields_get_bind_iff] at expressionYields
    obtain ⟨tokens, passes, phrase, _⟩ := expressionOf_sound _ .assignment (by omega) (by decide)
      expressionYields
    have closing := Tokens.passes_current closingKind (by simp)
    exact ⟨tokens, behind.current, e, _, passes.trans closing, phrase, closingKind, rest⟩
  · rintro ⟨tokens, closing, e, middle, passes, phrase, closingKind, rest⟩
    obtain ⟨behind, inner, closes⟩ := passes.split
    obtain rfl := closes.current_eq
    have stops := fun bound => nextBelow_of_kind closingKind none bound
    have read := reads_of_phrase (4 * (before.ahead.length + 1)) .assignment phrase (Nat.le_refl _)
      (by decide) (stops _) inner (by omega)
    refine ⟨e, behind, ?_, ?_⟩
    · rw [expression, yields_get_bind_iff]
      exact read.ends (stops _)
    · rw [yields_expect_bind_iff, closes.advance_eq]
      exact ⟨closingKind, rest⟩

end Parser

end ImpStack

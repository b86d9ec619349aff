import ImpStack.Binary32.Numeral
import ImpStack.Syntax.Tree
import ImpStack.Token.Basic

/-!
The grammar of programs over lists of tokens (SPEC_FULL, section 4.2), with the tree of every
phrase. It is stratified by levels of expressions and leaves open to which `if` an `else` belongs;
the rule that it belongs to the nearest one is a condition on top of it, and costs no program
(`exists_programText_iff`).

A derivation fixes the tree and its positions. That an expression in parentheses takes the place of
the opening one, and that a target may be in parentheses too, is part of the rules.
-/
namespace ImpStack

/-- The kinds of expressions, from the loosest to the tightest. -/
inductive Level where
  | assignment | equality | relational | additive | multiplicative | unary | call | primary
  deriving DecidableEq, Repr

namespace Level

/-- An expression of the next level is one of this level. -/
def next : Level → Level
  | assignment => equality
  | equality => relational
  | relational => additive
  | additive => multiplicative
  | multiplicative => unary
  | unary => call
  | call => primary
  | primary => primary

/-- The number of a level, from the loosest on. -/
def rank : Level → Nat
  | assignment => 1
  | equality => 2
  | relational => 3
  | additive => 4
  | multiplicative => 5
  | unary => 6
  | call => 7
  | primary => 8

/-- Levels have consecutive ranks, up to the tightest. -/
theorem rank_next {level : Level} (lt : level.rank < 8) : level.next.rank = level.rank + 1 := by
  cases level with
  | primary => exact absurd lt (Nat.lt_irrefl 8)
  | _ => rfl

theorem rank_le_next (level : Level) : level.rank ≤ level.next.rank := by
  cases level <;> decide

theorem rank_le (level : Level) : level.rank ≤ 8 := by
  cases level <;> decide

theorem eq_of_rank_eq {level other : Level} (same : level.rank = other.rank) : level = other := by
  revert same
  cases level <;> cases other <;> decide

end Level

namespace BinaryOp

def level : BinaryOp → Level
  | .comparison .eq | .comparison .ne => .equality
  | .comparison .lt | .comparison .le | .comparison .gt | .comparison .ge => .relational
  | .arithmetic .add | .arithmetic .sub => .additive
  | .arithmetic .mul | .arithmetic .div | .arithmetic .rem => .multiplicative

/-- The sign that stands for the operator. -/
def symbol : BinaryOp → Symbol
  | .comparison .eq => .equal
  | .comparison .ne => .notEqual
  | .comparison .lt => .less
  | .comparison .le => .lessEqual
  | .comparison .gt => .greater
  | .comparison .ge => .greaterEqual
  | .arithmetic .add => .plus
  | .arithmetic .sub => .minus
  | .arithmetic .mul => .times
  | .arithmetic .div => .divide
  | .arithmetic .rem => .modulo

end BinaryOp

/-- The position of a phrase is that of its first token. -/
def place : List Token → Position
  | [] => .start
  | first :: _ => first.position

mutual

/-- The tokens are an expression of the level, and the tree is its reading. Since trees forget
parentheses, a tree that is a variable stands for a lone identifier, whatever parentheses are
around it. -/
inductive Phrase : Level → List Token → Expr → Prop where
  | int {token : Token} {value : Int32} (kind : token.kind = .intLiteral)
      (reads : Numeral.int32? token.lexeme.toList = some value) :
      Phrase .primary [token] (.int token.position value)
  | float {token : Token} {value : Float32} (kind : token.kind = .floatLiteral)
      (reads : Binary32.ofNumeral? token.lexeme.toList = some value) :
      Phrase .primary [token] (.float token.position value)
  | var {token : Token} (kind : token.kind = .identifier) :
      Phrase .primary [token] (.var token.position token.lexeme)
  | group {opening closing : Token} {inner : List Token} {e : Expr}
      (openingKind : opening.kind = .symbol .leftParen) (whole : Phrase .assignment inner e)
      (closingKind : closing.kind = .symbol .rightParen) :
      Phrase .primary (opening :: inner ++ [closing]) (e.moveTo opening.position)
  | call {opening closing : Token} {left inner : List Token} {position : Position}
      {callee : String} {args : List Expr} (calleePhrase : Phrase .call left (.var position callee))
      (openingKind : opening.kind = .symbol .leftParen) (arguments : Arguments inner args)
      (closingKind : closing.kind = .symbol .rightParen) :
      Phrase .call (left ++ opening :: inner ++ [closing]) (.call (place left) callee args)
  | negate {sign : Token} {right : List Token} {operand : Expr}
      (signKind : sign.kind = .symbol .minus) (operandPhrase : Phrase .unary right operand) :
      Phrase .unary (sign :: right) (.negate sign.position operand)
  | binary {op : BinaryOp} {sign : Token} {left right : List Token} {l r : Expr}
      (leftPhrase : Phrase op.level left l) (signKind : sign.kind = .symbol op.symbol)
      (rightPhrase : Phrase op.level.next right r) :
      Phrase op.level (left ++ sign :: right) (.binary (place left) op l r)
  | assign {sign : Token} {left right : List Token} {position : Position} {target : String}
      {value : Expr} (targetPhrase : Phrase .equality left (.var position target))
      (signKind : sign.kind = .symbol .assign) (valuePhrase : Phrase .assignment right value) :
      Phrase .assignment (left ++ sign :: right) (.assign (place left) target value)
  | loosen {level : Level} {tokens : List Token} {e : Expr} (tighter : Phrase level.next tokens e) :
      Phrase level tokens e

/-- What may stand between the parentheses of a call. -/
inductive Arguments : List Token → List Expr → Prop where
  | none : Arguments [] []
  | some {tokens : List Token} {args : List Expr} (list : ArgumentList tokens args) :
      Arguments tokens args

/-- Arguments with commas between them. -/
inductive ArgumentList : List Token → List Expr → Prop where
  | last {tokens : List Token} {arg : Expr} (phrase : Phrase .assignment tokens arg) :
      ArgumentList tokens [arg]
  | more {comma : Token} {tokens later : List Token} {arg : Expr} {args : List Expr}
      (phrase : Phrase .assignment tokens arg) (commaKind : comma.kind = .symbol .comma)
      (rest : ArgumentList later args) :
      ArgumentList (tokens ++ comma :: later) (arg :: args)

end

/-- An expression as a statement; an assignment is a statement of its own. -/
def Expr.asStatement (position : Position) : Expr → Stmt
  | .assign _ target value => .assign position target value
  | e => .discard position e

/-- To which `if` an `else` may belong. -/
inductive ElseRule where
  | any
  /-- To the nearest one before it that has none yet. -/
  | nearest
  deriving DecidableEq, Repr

mutual

/-- The tokens are a statement, and the tree is its reading. A statement is `dangling` if it ends
in an `if` without an `else`, to which an `else` behind it would be nearest. -/
inductive Statement (rule : ElseRule) : (dangling : Bool) → List Token → Stmt → Prop where
  | branch {keyword opening closing : Token} {test body : List Token} {condition : Expr}
      {thenBody : Stmt} {dangling : Bool} (keywordKind : keyword.kind = .keyword .if_)
      (openingKind : opening.kind = .symbol .leftParen)
      (testPhrase : Phrase .assignment test condition)
      (closingKind : closing.kind = .symbol .rightParen)
      (bodyStatement : Statement rule dangling body thenBody) :
      Statement rule true (keyword :: opening :: test ++ closing :: body)
        (.branch keyword.position condition thenBody.asBlock none)
  | branchElse {keyword opening closing else_ : Token} {test body other : List Token}
      {condition : Expr} {thenBody elseBody : Stmt} {inner last : Bool}
      (keywordKind : keyword.kind = .keyword .if_)
      (openingKind : opening.kind = .symbol .leftParen)
      (testPhrase : Phrase .assignment test condition)
      (closingKind : closing.kind = .symbol .rightParen)
      (bodyStatement : Statement rule inner body thenBody)
      (nearest : rule = .nearest → inner = false) (elseKind : else_.kind = .keyword .else_)
      (otherStatement : Statement rule last other elseBody) :
      Statement rule last (keyword :: opening :: test ++ closing :: body ++ else_ :: other)
        (.branch keyword.position condition thenBody.asBlock (some elseBody.asBlock))
  | loop {keyword opening closing : Token} {test body : List Token} {condition : Expr}
      {loopBody : Stmt} {dangling : Bool} (keywordKind : keyword.kind = .keyword .while_)
      (openingKind : opening.kind = .symbol .leftParen)
      (testPhrase : Phrase .assignment test condition)
      (closingKind : closing.kind = .symbol .rightParen)
      (bodyStatement : Statement rule dangling body loopBody) :
      Statement rule dangling (keyword :: opening :: test ++ closing :: body)
        (.loop keyword.position condition loopBody.asBlock)
  | print {keyword opening closing semicolon : Token} {tokens : List Token} {value : Expr}
      (keywordKind : keyword.kind = .keyword .print)
      (openingKind : opening.kind = .symbol .leftParen)
      (valuePhrase : Phrase .assignment tokens value)
      (closingKind : closing.kind = .symbol .rightParen)
      (semicolonKind : semicolon.kind = .symbol .semicolon) :
      Statement rule false (keyword :: opening :: tokens ++ [closing, semicolon])
        (.print keyword.position value)
  | returnNone {keyword semicolon : Token} (keywordKind : keyword.kind = .keyword .return_)
      (semicolonKind : semicolon.kind = .symbol .semicolon) :
      Statement rule false [keyword, semicolon] (.return_ keyword.position none)
  | returnValue {keyword semicolon : Token} {tokens : List Token} {value : Expr}
      (keywordKind : keyword.kind = .keyword .return_)
      (valuePhrase : Phrase .assignment tokens value)
      (semicolonKind : semicolon.kind = .symbol .semicolon) :
      Statement rule false (keyword :: tokens ++ [semicolon])
        (.return_ keyword.position (some value))
  | block {opening closing : Token} {tokens : List Token} {body : List Stmt}
      (openingKind : opening.kind = .symbol .leftBrace) (statements : Statements rule tokens body)
      (closingKind : closing.kind = .symbol .rightBrace) :
      Statement rule false (opening :: tokens ++ [closing]) (.block opening.position body)
  | expression {semicolon : Token} {tokens : List Token} {e : Expr}
      (phrase : Phrase .assignment tokens e)
      (semicolonKind : semicolon.kind = .symbol .semicolon) :
      Statement rule false (tokens ++ [semicolon]) (e.asStatement (place tokens))

/-- Statements one behind the other. -/
inductive Statements (rule : ElseRule) : List Token → List Stmt → Prop where
  | nil : Statements rule [] []
  | cons {dangling : Bool} {tokens later : List Token} {statement : Stmt} {rest : List Stmt}
      (first : Statement rule dangling tokens statement) (others : Statements rule later rest) :
      Statements rule (tokens ++ later) (statement :: rest)

end

/-- Parameters with commas between them. -/
inductive ParamList : List Token → List Param → Prop where
  | last {name : Token} (nameKind : name.kind = .identifier) :
      ParamList [name] [⟨name.lexeme, name.position⟩]
  | more {name comma : Token} {later : List Token} {params : List Param}
      (nameKind : name.kind = .identifier) (commaKind : comma.kind = .symbol .comma)
      (rest : ParamList later params) :
      ParamList (name :: comma :: later) (⟨name.lexeme, name.position⟩ :: params)

/-- What may stand between the parentheses of a function. -/
inductive ParamsText : List Token → List Param → Prop where
  | none : ParamsText [] []
  | some {tokens : List Token} {params : List Param} (list : ParamList tokens params) :
      ParamsText tokens params

/-- The tokens are a function, and the tree is its reading. Its place is that of its first word. -/
inductive FunctionText (rule : ElseRule) : List Token → Function → Prop where
  | function {keyword name opening closing bodyOpening bodyClosing : Token}
      {inner tokens : List Token} {params : List Param} {body : List Stmt}
      (keywordKind : keyword.kind = .keyword .function) (nameKind : name.kind = .identifier)
      (openingKind : opening.kind = .symbol .leftParen) (paramsText : ParamsText inner params)
      (closingKind : closing.kind = .symbol .rightParen)
      (bodyOpeningKind : bodyOpening.kind = .symbol .leftBrace)
      (statements : Statements rule tokens body)
      (bodyClosingKind : bodyClosing.kind = .symbol .rightBrace) :
      FunctionText rule
        (keyword :: name :: opening :: inner ++ closing :: bodyOpening :: tokens ++ [bodyClosing])
        ⟨name.lexeme, params, body, keyword.position⟩

/-- The tokens are a program, and the tree is its reading. -/
inductive ProgramText (rule : ElseRule) : List Token → Program → Prop where
  | nil : ProgramText rule [] ⟨[]⟩
  | cons {tokens later : List Token} {function : Function} {rest : List Function}
      (first : FunctionText rule tokens function) (others : ProgramText rule later ⟨rest⟩) :
      ProgramText rule (tokens ++ later) ⟨function :: rest⟩

/-! ### Expressions -/

/-- What stands behind a phrase does not change its place. -/
theorem place_append {tokens : List Token} (nonempty : tokens ≠ []) (later : List Token) :
    place (tokens ++ later) = place tokens := by
  cases tokens with
  | nil => exact absurd rfl nonempty
  | cons first rest => rfl

theorem Expr.position_moveTo (position : Position) (e : Expr) :
    (e.moveTo position).position = position := by
  cases e <;> rfl

/-- A variable that has been moved was a variable. -/
theorem Expr.eq_var_of_moveTo {position other : Position} {name : String} {e : Expr}
    (moved : e.moveTo position = .var other name) :
    position = other ∧ ∃ inner, e = .var inner name := by
  cases e with
  | var inner found =>
    cases moved
    exact ⟨rfl, inner, rfl⟩
  | _ => cases moved

namespace Phrase

theorem ne_nil {level : Level} {tokens : List Token} {e : Expr} (phrase : Phrase level tokens e) :
    tokens ≠ [] := by
  match phrase with
  | .int _ _ => simp
  | .float _ _ => simp
  | .var _ => simp
  | .group _ _ _ => simp
  | .call _ _ _ _ => simp
  | .negate _ _ => simp
  | .binary _ _ _ => simp
  | .assign _ _ _ => simp
  | .loosen tighter => exact tighter.ne_nil

/-- The kinds of the tokens that an expression may begin with. -/
def firstKinds : List Kind :=
  [.intLiteral, .floatLiteral, .identifier, .symbol .leftParen, .symbol .minus]

/-- What an expression begins with is the beginning of an operand. -/
theorem first_kind {level : Level} {tokens : List Token} {e : Expr}
    (phrase : Phrase level tokens e) :
    ∃ first rest, tokens = first :: rest ∧ first.kind ∈ firstKinds := by
  match phrase with
  | .int kind _ => exact ⟨_, _, rfl, by simp [kind, firstKinds]⟩
  | .float kind _ => exact ⟨_, _, rfl, by simp [kind, firstKinds]⟩
  | .var kind => exact ⟨_, _, rfl, by simp [kind, firstKinds]⟩
  | .group kind _ _ => exact ⟨_, _, rfl, by simp [kind, firstKinds]⟩
  | .call callee _ _ _ =>
    obtain ⟨first, rest, rfl, member⟩ := callee.first_kind
    exact ⟨_, _, rfl, member⟩
  | .negate kind _ => exact ⟨_, _, rfl, by simp [kind, firstKinds]⟩
  | .binary left _ _ =>
    obtain ⟨first, rest, rfl, member⟩ := left.first_kind
    exact ⟨_, _, rfl, member⟩
  | .assign target _ _ =>
    obtain ⟨first, rest, rfl, member⟩ := target.first_kind
    exact ⟨_, _, rfl, member⟩
  | .loosen tighter => exact tighter.first_kind

/-- An expression has the position of its first token. -/
theorem position_eq {level : Level} {tokens : List Token} {e : Expr}
    (phrase : Phrase level tokens e) : e.position = place tokens := by
  match phrase with
  | .int _ _ => rfl
  | .float _ _ => rfl
  | .var _ => rfl
  | .group _ _ _ => exact Expr.position_moveTo _ _
  | .call callee _ _ _ => rw [List.append_assoc, place_append callee.ne_nil]; rfl
  | .negate _ _ => rfl
  | .binary left _ _ => rw [place_append left.ne_nil]; rfl
  | .assign target _ _ => rw [place_append target.ne_nil]; rfl
  | .loosen tighter => exact tighter.position_eq

end Phrase

theorem ArgumentList.first_kind {tokens : List Token} {args : List Expr}
    (list : ArgumentList tokens args) :
    ∃ first rest, tokens = first :: rest ∧ first.kind ∈ Phrase.firstKinds := by
  match list with
  | .last phrase => exact phrase.first_kind
  | .more phrase _ _ =>
    obtain ⟨first, rest, rfl, member⟩ := phrase.first_kind
    exact ⟨_, _, rfl, member⟩

/-- An expression of a tighter level is one of a looser level. -/
theorem Phrase.loosenTo {level other : Level} {tokens : List Token} {e : Expr}
    (phrase : Phrase other tokens e) (le : level.rank ≤ other.rank) : Phrase level tokens e := by
  have bound := other.rank_le
  by_cases same : level.rank = other.rank
  · exact Level.eq_of_rank_eq same ▸ phrase
  · have step := Level.rank_next (show level.rank < 8 by omega)
    exact .loosen (phrase.loosenTo (by omega))
termination_by other.rank - level.rank

/-- A lone identifier, whatever parentheses are around it. -/
inductive LoneName : List Token → String → Prop where
  | bare {token : Token} (kind : token.kind = .identifier) : LoneName [token] token.lexeme
  | group {opening closing : Token} {inner : List Token} {name : String}
      (openingKind : opening.kind = .symbol .leftParen) (lone : LoneName inner name)
      (closingKind : closing.kind = .symbol .rightParen) :
      LoneName (opening :: inner ++ [closing]) name

/-- A lone name is an expression of every level. -/
theorem LoneName.phrase {tokens : List Token} {name : String} (lone : LoneName tokens name)
    (level : Level) : Phrase level tokens (.var (place tokens) name) := by
  induction lone generalizing level with
  | bare kind => exact (Phrase.var kind).loosenTo level.rank_le
  | group openingKind _ closingKind ih =>
    exact (Phrase.group openingKind (ih .assignment) closingKind).loosenTo level.rank_le

/-- Only a lone name is read as a variable. -/
theorem Phrase.loneName {level : Level} {tokens : List Token} {e : Expr} {position : Position}
    {name : String} (phrase : Phrase level tokens e) (variable_ : e = .var position name) :
    LoneName tokens name := by
  match phrase with
  | .int _ _ => cases variable_
  | .float _ _ => cases variable_
  | .var kind =>
    cases variable_
    exact .bare kind
  | .group openingKind whole closingKind =>
    obtain ⟨rfl, inner, same⟩ := Expr.eq_var_of_moveTo variable_
    exact .group openingKind (whole.loneName same) closingKind
  | .call _ _ _ _ => cases variable_
  | .negate _ _ => cases variable_
  | .binary _ _ _ => cases variable_
  | .assign _ _ _ => cases variable_
  | .loosen tighter => exact tighter.loneName variable_

/-! ### An `else` and its `if` -/

mutual

/-- The rule of the nearest `if` only excludes readings. -/
theorem Statement.forget {dangling : Bool} {tokens : List Token} {statement : Stmt}
    (reading : Statement .nearest dangling tokens statement) :
    Statement .any dangling tokens statement := by
  match reading with
  | .branch keyword opening test closing body =>
    exact .branch keyword opening test closing body.forget
  | .branchElse keyword opening test closing body _ else_ other =>
    exact .branchElse keyword opening test closing body.forget nofun else_ other.forget
  | .loop keyword opening test closing body =>
    exact .loop keyword opening test closing body.forget
  | .print keyword opening value closing semicolon =>
    exact .print keyword opening value closing semicolon
  | .returnNone keyword semicolon => exact .returnNone keyword semicolon
  | .returnValue keyword value semicolon => exact .returnValue keyword value semicolon
  | .block opening statements closing => exact .block opening statements.forget closing
  | .expression phrase semicolon => exact .expression phrase semicolon

theorem Statements.forget {tokens : List Token} {body : List Stmt}
    (reading : Statements .nearest tokens body) : Statements .any tokens body := by
  match reading with
  | .nil => exact .nil
  | .cons first others => exact .cons first.forget others.forget

end

/-- An `else` behind a dangling statement can be given to the `if` that it ends in. -/
theorem Statement.attach {dangling : Bool} {tokens : List Token} {statement : Stmt}
    (reading : Statement .nearest dangling tokens statement) (dangles : dangling = true)
    {else_ : Token} (elseKind : else_.kind = .keyword .else_) {last : Bool} {other : List Token}
    {elseBody : Stmt} (otherReading : Statement .nearest last other elseBody) :
    ∃ dangling statement, Statement .nearest dangling (tokens ++ else_ :: other) statement := by
  -- The `else` goes to the innermost `if` without one, found along the last parts of the statement.
  match reading with
  | @Statement.branch _ _ _ _ _ _ _ _ false keyword opening test closing body =>
    have whole := Statement.branchElse keyword opening test closing body (fun _ => rfl) elseKind
      otherReading
    exact ⟨last, _, whole⟩
  | @Statement.branch _ _ _ _ _ _ _ _ true keyword opening test closing body =>
    obtain ⟨_, _, longer⟩ := body.attach rfl elseKind otherReading
    have whole := Statement.branch keyword opening test closing longer
    rw [← List.cons_append, ← List.append_assoc] at whole
    exact ⟨true, _, whole⟩
  | .branchElse keyword opening test closing body nearest kind other =>
    obtain ⟨longerDangling, _, longer⟩ := other.attach dangles elseKind otherReading
    have whole := Statement.branchElse keyword opening test closing body nearest kind longer
    rw [← List.cons_append, ← List.append_assoc] at whole
    exact ⟨longerDangling, _, whole⟩
  | .loop keyword opening test closing body =>
    obtain ⟨longerDangling, _, longer⟩ := body.attach dangles elseKind otherReading
    have whole := Statement.loop keyword opening test closing longer
    rw [← List.cons_append, ← List.append_assoc] at whole
    exact ⟨longerDangling, _, whole⟩
  | .print _ _ _ _ _ => cases dangles
  | .returnNone _ _ => cases dangles
  | .returnValue _ _ _ => cases dangles
  | .block _ _ _ => cases dangles
  | .expression _ _ => cases dangles

mutual

/-- Each `else` can be given to the nearest `if`, whatever reading there was before. -/
theorem Statement.regroup {dangling : Bool} {tokens : List Token} {statement : Stmt}
    (reading : Statement .any dangling tokens statement) :
    ∃ dangling statement, Statement .nearest dangling tokens statement := by
  match reading with
  | .branch keyword opening test closing body =>
    obtain ⟨_, _, inner⟩ := body.regroup
    exact ⟨_, _, .branch keyword opening test closing inner⟩
  | .branchElse keyword opening test closing body _ elseKind other =>
    obtain ⟨bodyDangling, _, inner⟩ := body.regroup
    obtain ⟨_, _, last⟩ := other.regroup
    -- A body that dangles takes the `else` itself.
    cases bodyDangling with
    | false =>
      exact ⟨_, _, .branchElse keyword opening test closing inner (fun _ => rfl) elseKind last⟩
    | true =>
      have open_ := Statement.branch keyword opening test closing inner
      exact open_.attach rfl elseKind last
  | .loop keyword opening test closing body =>
    obtain ⟨_, _, inner⟩ := body.regroup
    exact ⟨_, _, .loop keyword opening test closing inner⟩
  | .print keyword opening value closing semicolon =>
    exact ⟨_, _, .print keyword opening value closing semicolon⟩
  | .returnNone keyword semicolon => exact ⟨_, _, .returnNone keyword semicolon⟩
  | .returnValue keyword value semicolon => exact ⟨_, _, .returnValue keyword value semicolon⟩
  | .block opening statements closing =>
    obtain ⟨_, inner⟩ := statements.regroup
    exact ⟨_, _, .block opening inner closing⟩
  | .expression phrase semicolon => exact ⟨_, _, .expression phrase semicolon⟩

theorem Statements.regroup {tokens : List Token} {body : List Stmt}
    (reading : Statements .any tokens body) : ∃ body, Statements .nearest tokens body := by
  match reading with
  | .nil => exact ⟨_, .nil⟩
  | .cons first others =>
    obtain ⟨_, _, head⟩ := first.regroup
    obtain ⟨_, tail⟩ := others.regroup
    exact ⟨_, .cons head tail⟩

end

/-- A list of tokens that is a program with some choice for each `else` is one with the nearest. -/
theorem exists_programText_iff (tokens : List Token) :
    (∃ program, ProgramText .any tokens program) ↔
      ∃ program, ProgramText .nearest tokens program := by
  constructor
  · rintro ⟨program, reading⟩
    induction reading with
    | nil => exact ⟨_, .nil⟩
    | cons first _ ih =>
      cases first with
      | function keyword name opening params closing bodyOpening statements bodyClosing =>
        obtain ⟨_, inner⟩ := statements.regroup
        obtain ⟨⟨functions⟩, others⟩ := ih
        exact ⟨_, .cons (.function keyword name opening params closing bodyOpening inner
          bodyClosing) others⟩
  · rintro ⟨program, reading⟩
    induction reading with
    | nil => exact ⟨_, .nil⟩
    | cons first _ ih =>
      cases first with
      | function keyword name opening params closing bodyOpening statements bodyClosing =>
        obtain ⟨⟨functions⟩, others⟩ := ih
        exact ⟨_, .cons (.function keyword name opening params closing bodyOpening statements.forget
          bodyClosing) others⟩

/-! ### Functions -/

theorem ParamList.first_kind {tokens : List Token} {params : List Param}
    (list : ParamList tokens params) :
    ∃ first rest, tokens = first :: rest ∧ first.kind = .identifier := by
  cases list with
  | last kind => exact ⟨_, _, rfl, kind⟩
  | more kind _ _ => exact ⟨_, _, rfl, kind⟩

theorem FunctionText.first_kind {rule : ElseRule} {tokens : List Token} {function : Function}
    (text : FunctionText rule tokens function) :
    ∃ first rest, tokens = first :: rest ∧ first.kind = .keyword .function := by
  cases text with
  | function kind _ _ _ _ _ _ _ => exact ⟨_, _, rfl, kind⟩

end ImpStack

import ImpStack.Proofs.Bare
import ImpStack.Proofs.Dispatch
import ImpStack.Proofs.ProgramGrammar

/-!
Two runs of a parser on lists of tokens that are paired with each other (`Parser.Paired`). The
parser looks at nothing but kinds and lexemes, so that paired tokens lead to trees that differ in
their places only, or to the same error about paired tokens (`Program.ofTokens_paired`).

What a pair is, is left open but for kinds and lexemes. Tokens that are paired with themselves show
that errors are about tokens of the list; tokens of two layouts show that layout does not matter.
-/
namespace ImpStack

/-- Which tokens of two lists may stand at the same place. -/
structure Pairing where
  Pairs : Token → Token → Prop
  kind_eq : ∀ {left right}, Pairs left right → right.kind = left.kind
  lexeme_eq : ∀ {left right}, Pairs left right → right.lexeme = left.lexeme

variable {pairing : Pairing}

/-- The tokens ahead are paired in their order, and so are the ends of the input. -/
structure Tokens.Paired (pairing : Pairing) (left right : Tokens) : Prop where
  ahead : List.Forall₂ pairing.Pairs left.ahead right.ahead
  finish : pairing.Pairs (.eofAt left.finish) (.eofAt right.finish)

/-- The same error, about paired tokens of the kind that the error is about. -/
inductive SyntaxError.Paired (pairing : Pairing) : SyntaxError → SyntaxError → Prop where
  | unexpectedToken (expected : Expectation) {left right : Token}
      (pairs : pairing.Pairs left right) :
      Paired pairing (.unexpectedToken expected left) (.unexpectedToken expected right)
  | unexpectedEnd (expected : Expectation) {left right : Token} (pairs : pairing.Pairs left right)
      (kind : left.kind = .eof) :
      Paired pairing (.unexpectedEnd expected left.position)
        (.unexpectedEnd expected right.position)
  | assignmentTarget {left right : Token} (pairs : pairing.Pairs left right)
      (kind : left.kind = .symbol .assign) :
      Paired pairing (.assignmentTarget left.position) (.assignmentTarget right.position)
  | callTarget {left right : Token} (pairs : pairing.Pairs left right)
      (kind : left.kind = .symbol .leftParen) :
      Paired pairing (.callTarget left.position) (.callTarget right.position)
  | integerRange {left right : Token} (pairs : pairing.Pairs left right) :
      Paired pairing (.integerRange left.lexeme left.position)
        (.integerRange left.lexeme right.position)
  | invalidToken {left right : Token} (pairs : pairing.Pairs left right) :
      Paired pairing (.invalidToken left.lexeme left.position)
        (.invalidToken left.lexeme right.position)

theorem SyntaxError.paired_ofToken (expected : Expectation) {left right : Token}
    (pairs : pairing.Pairs left right) :
    SyntaxError.Paired pairing (.ofToken expected left) (.ofToken expected right) := by
  unfold ofToken
  rw [pairing.kind_eq pairs]
  split
  · next kind => exact .unexpectedEnd expected pairs kind
  · rw [pairing.lexeme_eq pairs]
    exact .invalidToken pairs
  · exact .unexpectedToken expected pairs

/-- Paired errors differ in their places only. -/
theorem SyntaxError.Paired.bare_eq {left right : SyntaxError}
    (paired : SyntaxError.Paired pairing left right) : left.bare = right.bare := by
  cases paired with
  | unexpectedToken expected pairs =>
    have same := Token.bare_eq_iff.mpr
      ⟨(pairing.kind_eq pairs).symm, (pairing.lexeme_eq pairs).symm⟩
    simp [bare, same]
  | _ => rfl

namespace Tokens.Paired

variable {left right : Tokens}

/-- The current tokens are paired, also at the end of the input. -/
theorem current (paired : left.Paired pairing right) :
    pairing.Pairs left.current right.current := by
  have ahead := paired.ahead
  unfold Tokens.current
  cases leftAhead : left.ahead with
  | nil =>
    rw [leftAhead] at ahead
    rw [List.forall₂_nil_left_iff.mp ahead]
    exact paired.finish
  | cons token rest =>
    rw [leftAhead] at ahead
    obtain ⟨other, others, pairs, _, rightAhead⟩ := List.forall₂_cons_left_iff.mp ahead
    rw [rightAhead]
    exact pairs

theorem kind_eq (paired : left.Paired pairing right) : right.current.kind = left.current.kind :=
  pairing.kind_eq paired.current

theorem advance (paired : left.Paired pairing right) :
    left.advance.Paired pairing right.advance where
  ahead := by
    show List.Forall₂ _ left.ahead.tail right.ahead.tail
    rw [← List.drop_one, ← List.drop_one]
    exact List.forall₂_drop 1 paired.ahead
  finish := paired.finish

theorem length_eq (paired : left.Paired pairing right) : right.ahead.length = left.ahead.length :=
  paired.ahead.length_eq.symm

end Tokens.Paired

namespace Parser

variable {α β γ δ : Type} {left right : Tokens}

/-- The two parsers both succeed, with results that `post` relates and paired tokens left, or both
fail, with paired errors. -/
def Paired (pairing : Pairing) (post : α → β → Prop) (first : Parser α) (second : Parser β)
    (left right : Tokens) : Prop :=
  match first.runOn left, second.runOn right with
  | (.ok a, leftAfter), (.ok b, rightAfter) => post a b ∧ leftAfter.Paired pairing rightAfter
  | (.error error, _), (.error other, _) => error.Paired pairing other
  | _, _ => False

namespace Paired

variable {post : α → β → Prop} {last : γ → δ → Prop} {first : Parser α} {second : Parser β}

theorem pure {a : α} {b : β} (holds : post a b) (paired : left.Paired pairing right) :
    Paired pairing post (Pure.pure a) (Pure.pure b) left right :=
  ⟨holds, paired⟩

theorem throw {error other : SyntaxError} (paired : error.Paired pairing other) :
    Paired pairing post (MonadExcept.throw error) (MonadExcept.throw other) left right :=
  paired

theorem unexpected (expected : Expectation) (paired : left.Paired pairing right) :
    Paired pairing post (Parser.unexpected expected) (Parser.unexpected expected) left right :=
  SyntaxError.paired_ofToken expected paired.current

/-- The second parsers find paired tokens where the first ones have succeeded. -/
theorem bind {leftNext : α → Parser γ} {rightNext : β → Parser δ}
    (head : Paired pairing post first second left right)
    (rest : ∀ a b leftAfter rightAfter, post a b → leftAfter.Paired pairing rightAfter →
      Paired pairing last (leftNext a) (rightNext b) leftAfter rightAfter) :
    Paired pairing last (first >>= leftNext) (second >>= rightNext) left right := by
  unfold Paired at head ⊢
  rw [runOn_bind, runOn_bind]
  cases leftRan : first.runOn left with
  | mk leftResult leftAfter =>
    cases rightRan : second.runOn right with
    | mk rightResult rightAfter =>
      rw [leftRan, rightRan] at head
      cases leftResult with
      | error error =>
        cases rightResult with
        | error other => exact head
        | ok b => exact head.elim
      | ok a =>
        cases rightResult with
        | error other => exact head.elim
        | ok b => exact rest a b leftAfter rightAfter head.1 head.2

/-! One rule for every primitive parser with what follows it. -/

theorem get {leftNext : Tokens → Parser γ} {rightNext : Tokens → Parser δ}
    (rest : Paired pairing last (leftNext left) (rightNext right) left right) :
    Paired pairing last (MonadState.get >>= leftNext) (MonadState.get >>= rightNext) left right :=
  rest

theorem peek {leftNext : Token → Parser γ} {rightNext : Token → Parser δ}
    (rest : Paired pairing last (leftNext left.current) (rightNext right.current) left right) :
    Paired pairing last (Parser.peek >>= leftNext) (Parser.peek >>= rightNext) left right :=
  rest

theorem advance {leftNext : Token → Parser γ} {rightNext : Token → Parser δ}
    (rest : Paired pairing last (leftNext left.current) (rightNext right.current) left.advance
      right.advance) :
    Paired pairing last (Parser.advance >>= leftNext) (Parser.advance >>= rightNext) left right :=
  rest

theorem expect {kind : Kind} {expected : Expectation} {leftNext : Token → Parser γ}
    {rightNext : Token → Parser δ} (paired : left.Paired pairing right)
    (rest : left.current.kind = kind → left.advance.Paired pairing right.advance →
      Paired pairing last (leftNext left.current) (rightNext right.current) left.advance
        right.advance) :
    Paired pairing last (Parser.expect kind expected >>= leftNext)
      (Parser.expect kind expected >>= rightNext) left right := by
  have advanced := paired.advance
  unfold Paired at rest ⊢
  rw [runOn_bind, runOn_bind, runOn_expect, runOn_expect, paired.kind_eq]
  by_cases same : left.current.kind = kind
  · simp only [if_pos same]
    exact rest same advanced
  · simp only [if_neg same]
    exact SyntaxError.paired_ofToken expected paired.current

/-- Whether a sign stands next is the same on both sides. -/
theorem accept {sign : Symbol} {leftNext : Bool → Parser γ} {rightNext : Bool → Parser δ}
    (paired : left.Paired pairing right)
    (accepted : left.advance.Paired pairing right.advance →
      Paired pairing last (leftNext true) (rightNext true) left.advance right.advance)
    (refused : Paired pairing last (leftNext false) (rightNext false) left right) :
    Paired pairing last (Parser.accept sign >>= leftNext) (Parser.accept sign >>= rightNext) left
      right := by
  have advanced := paired.advance
  unfold Paired at accepted refused ⊢
  rw [runOn_bind, runOn_bind, runOn_accept, runOn_accept, paired.kind_eq]
  by_cases same : left.current.kind = .symbol sign
  · simp only [if_pos same]
    exact accepted advanced
  · simp only [if_neg same]
    exact refused

end Paired

/-! ### Expressions -/

/-- Expressions that differ in their places only. -/
def SameExpr (left right : Expr) : Prop := left.bare = right.bare

def SameExprs (left right : List Expr) : Prop := Expr.bareAll left = Expr.bareAll right

/-- Both literals have the same value, or are out of range alike. -/
theorem intLiteral_paired (paired : left.Paired pairing right) :
    Paired pairing SameExpr intLiteral intLiteral left right := by
  unfold intLiteral
  refine .advance ?_
  rw [pairing.lexeme_eq paired.current]
  cases Numeral.int32? left.current.lexeme.toList with
  | none => exact .throw (.integerRange paired.current)
  | some value => exact .pure rfl paired.advance

theorem floatLiteral_paired (paired : left.Paired pairing right) :
    Paired pairing SameExpr floatLiteral floatLiteral left right := by
  unfold floatLiteral
  refine .advance ?_
  rw [pairing.lexeme_eq paired.current]
  cases Binary32.ofNumeral? left.current.lexeme.toList with
  | none => exact .throw (.unexpectedToken .floatLiteral paired.current)
  | some value => exact .pure rfl paired.advance

/-- What follows the arguments of a call, also when there is none. -/
theorem callBehind_paired {l r : Expr} {leftArgs rightArgs : List Expr} {opening other : Token}
    (same : SameExpr l r) (arguments : SameExprs leftArgs rightArgs)
    (pairs : pairing.Pairs opening other) (kind : opening.kind = .symbol .leftParen)
    (paired : left.Paired pairing right) :
    Paired pairing SameExpr (callBehind l opening leftArgs) (callBehind r other rightArgs) left
      right := by
  unfold callBehind
  refine .expect paired fun _ advanced => ?_
  obtain ⟨here, there, callee, rfl, rfl⟩ | ⟨notLeft, notRight⟩ := Expr.var_or_not_var same
  · exact .pure (congrArg (Expr.call .start callee) arguments) advanced
  · split
    · next position name => exact absurd rfl (notLeft position name)
    · exact .throw (.callTarget pairs kind)

mutual

/-- Operators are told by kinds, which are the same on both sides. -/
theorem expressionOf_paired (turns : Nat) (least : Strength) {left right : Tokens}
    (paired : left.Paired pairing right) :
    Paired pairing SameExpr (expressionOf turns least) (expressionOf turns least) left right := by
  cases turns with
  | zero => exact .unexpected .expression paired
  | succ turns =>
    rw [expressionOf]
    refine (operand_paired turns paired).bind fun l r _ _ same paired => ?_
    exact operators_paired turns least same paired
termination_by turns

theorem operand_paired (turns : Nat) {left right : Tokens} (paired : left.Paired pairing right) :
    Paired pairing SameExpr (operand turns) (operand turns) left right := by
  cases turns with
  | zero => exact .unexpected .expression paired
  | succ turns =>
    rw [operand]
    refine .peek ?_
    rw [paired.kind_eq]
    split
    · exact intLiteral_paired paired
    · exact floatLiteral_paired paired
    · refine .advance (.pure ?_ paired.advance)
      exact congrArg (Expr.var .start) (pairing.lexeme_eq paired.current).symm
    · refine .advance ((expressionOf_paired turns .assignment paired.advance).bind ?_)
      intro inner other _ _ same paired
      refine .expect paired fun _ advanced => .pure ?_ advanced
      exact (inner.bare_moveTo _).trans (same.trans (other.bare_moveTo _).symm)
    · refine .advance ((expressionOf_paired turns .negation paired.advance).bind ?_)
      intro _ _ _ _ same paired
      exact .pure (congrArg (Expr.negate .start) same) paired
    · exact .unexpected .expression paired
termination_by turns

theorem operators_paired (turns : Nat) (least : Strength) {l r : Expr} {left right : Tokens}
    (same : SameExpr l r) (paired : left.Paired pairing right) :
    Paired pairing SameExpr (operators turns least l) (operators turns least r) left right := by
  cases turns with
  | zero => exact .pure same paired
  | succ turns =>
    rw [operators, operators]
    refine .peek ?_
    rw [paired.kind_eq]
    split
    · exact .pure same paired
    · next op sign =>
      split
      · refine (operation_paired turns sign same paired).bind fun _ _ _ _ same paired => ?_
        exact operators_paired turns least same paired
      · exact .pure same paired
termination_by turns

/-- Whether the left side is a name is the same on both sides, as are the errors if it is none. -/
theorem operation_paired (turns : Nat) {op : Operator} {l r : Expr} {left right : Tokens}
    (sign : left.current.kind.operator? = some op) (same : SameExpr l r)
    (paired : left.Paired pairing right) :
    Paired pairing SameExpr (operation turns op l) (operation turns op r) left right := by
  have kind := Kind.operator?_eq_some_iff.mp sign
  cases turns with
  | zero => exact .unexpected .expression paired
  | succ turns =>
    cases op with
    | assign =>
      rw [operation, operation]
      refine .advance ?_
      obtain ⟨here, there, target, rfl, rfl⟩ | ⟨notLeft, notRight⟩ := Expr.var_or_not_var same
      · refine (expressionOf_paired turns .assignment paired.advance).bind ?_
        intro _ _ _ _ same paired
        exact .pure (congrArg (Expr.assign .start target) same) paired
      · split
        · next position name => exact absurd rfl (notLeft position name)
        · exact .throw (.assignmentTarget paired.current kind)
    | call =>
      have opening := paired.current
      rw [operation, operation]
      refine .advance (.peek ?_)
      rw [paired.advance.kind_eq]
      by_cases empty : left.advance.current.kind = .symbol .rightParen
      · simp only [if_pos empty, pure_bind]
        exact callBehind_paired same rfl opening kind paired.advance
      · simp only [if_neg empty]
        refine (args_paired turns paired.advance).bind fun _ _ _ _ arguments paired => ?_
        exact callBehind_paired same arguments opening kind paired
    | binary op =>
      rw [operation, operation]
      refine .advance ((expressionOf_paired turns _ paired.advance).bind ?_)
      intro _ _ _ _ right paired
      exact .pure (congrArg₂ (Expr.binary .start op) same right) paired
termination_by turns

theorem args_paired (turns : Nat) {left right : Tokens} (paired : left.Paired pairing right) :
    Paired pairing SameExprs (args turns) (args turns) left right := by
  cases turns with
  | zero => exact .unexpected .expression paired
  | succ turns =>
    rw [args]
    refine (expressionOf_paired turns .assignment paired).bind fun _ _ _ _ same paired => ?_
    refine .accept paired (fun advanced => ?_) ?_
    · refine (args_paired turns advanced).bind fun _ _ _ _ others paired => ?_
      exact .pure (congrArg₂ List.cons same others) paired
    · exact .pure (congrArg (· :: []) same) paired
termination_by turns

end

theorem expression_paired (paired : left.Paired pairing right) :
    Paired pairing SameExpr expression expression left right := by
  unfold expression
  refine .get ?_
  rw [paired.length_eq]
  exact expressionOf_paired _ _ paired

/-! ### Statements -/

/-- Statements that differ in their places only. -/
def SameStmt (left right : Stmt) : Prop := left.bare = right.bare

def SameBlock (left right : Block) : Prop := Stmt.bareAll left = Stmt.bareAll right

theorem SameStmt.asBlock {l r : Stmt} (same : SameStmt l r) : SameBlock l.asBlock r.asBlock := by
  unfold SameBlock
  rw [Stmt.bareAll_asBlock, Stmt.bareAll_asBlock, same]

theorem SameExpr.asStatement {l r : Expr} (same : SameExpr l r) (here there : Position) :
    SameStmt (l.asStatement here) (r.asStatement there) := by
  have bare_eq : ∀ (position : Position) (e : Expr),
      (e.asStatement position).bare = e.bare.asStatement .start := by
    intro position e
    cases e <;> rfl
  unfold SameStmt
  rw [bare_eq, bare_eq, same]

theorem expressionStatement_paired (here there : Position) (paired : left.Paired pairing right) :
    Paired pairing SameStmt (expressionStatement here) (expressionStatement there) left right := by
  rw [expressionStatement_eq, expressionStatement_eq]
  refine (expression_paired paired).bind fun _ _ _ _ same paired => ?_
  exact .expect paired fun _ advanced => .pure (same.asStatement here there) advanced

theorem printStatement_paired (here there : Position) (paired : left.Paired pairing right) :
    Paired pairing SameStmt (printStatement here) (printStatement there) left right := by
  unfold printStatement
  refine .expect paired fun _ inside => ?_
  refine (expression_paired inside).bind fun _ _ _ _ same paired => ?_
  refine .expect paired fun _ closed => .expect closed fun _ ended => ?_
  exact .pure (congrArg (Stmt.print .start) same) ended

theorem returnStatement_paired (here there : Position) (paired : left.Paired pairing right) :
    Paired pairing SameStmt (returnStatement here) (returnStatement there) left right := by
  unfold returnStatement
  refine .peek ?_
  rw [paired.kind_eq]
  by_cases bare : left.current.kind = .symbol .semicolon
  · simp only [if_pos bare, pure_bind]
    exact .expect paired fun _ ended => .pure rfl ended
  · simp only [if_neg bare, bind_map_left]
    refine (expression_paired paired).bind fun _ _ _ _ same paired => ?_
    refine .expect paired fun _ ended => .pure ?_ ended
    exact congrArg (fun value => Stmt.return_ .start (some value)) same

mutual

/-- Statements are told by kinds as well. -/
theorem statementIn_paired (turns : Nat) {left right : Tokens}
    (paired : left.Paired pairing right) :
    Paired pairing SameStmt (statementIn turns) (statementIn turns) left right := by
  cases turns with
  | zero => exact .unexpected .expression paired
  | succ turns =>
    rw [statementIn]
    refine .peek ?_
    rw [paired.kind_eq]
    split
    · refine .advance (.expect paired.advance fun _ inside => ?_)
      refine (expression_paired inside).bind fun _ _ _ _ test paired => ?_
      refine .expect paired fun _ closed => ?_
      refine (statementIn_paired turns closed).bind fun _ _ _ _ body paired => .peek ?_
      rw [paired.kind_eq]
      split
      · refine .advance ((statementIn_paired turns paired.advance).bind ?_)
        intro _ _ _ _ alternative paired
        refine .pure ?_ paired
        unfold SameStmt
        rw [Stmt.bare, Stmt.bare, test, body.asBlock, alternative.asBlock]
      · refine .pure ?_ paired
        unfold SameStmt
        rw [Stmt.bare, Stmt.bare, test, body.asBlock]
    · refine .advance (.expect paired.advance fun _ inside => ?_)
      refine (expression_paired inside).bind fun _ _ _ _ test paired => ?_
      refine .expect paired fun _ closed => ?_
      refine (statementIn_paired turns closed).bind fun _ _ _ _ body paired => ?_
      exact .pure (congrArg₂ (Stmt.loop .start) test body.asBlock) paired
    · exact .advance (printStatement_paired _ _ paired.advance)
    · exact .advance (returnStatement_paired _ _ paired.advance)
    · refine .advance ((blockBodyIn_paired turns paired.advance).bind fun _ _ _ _ same paired => ?_)
      exact .pure (congrArg (Stmt.block .start) same) paired
    · exact expressionStatement_paired _ _ paired
termination_by turns

theorem blockBodyIn_paired (turns : Nat) {left right : Tokens}
    (paired : left.Paired pairing right) :
    Paired pairing SameBlock (blockBodyIn turns) (blockBodyIn turns) left right := by
  cases turns with
  | zero => exact .unexpected .blockClose paired
  | succ turns =>
    rw [blockBodyIn]
    refine .peek ?_
    rw [paired.kind_eq]
    split
    · exact .expect paired fun _ closed => .pure rfl closed
    · refine (statementIn_paired turns paired).bind fun _ _ _ _ first paired => ?_
      refine (blockBodyIn_paired turns paired).bind fun _ _ _ _ others paired => ?_
      exact .pure (congrArg₂ List.cons first others) paired
termination_by turns

end

/-! ### Functions and programs -/

def SameParams (left right : List Param) : Prop := left.map Param.bare = right.map Param.bare

theorem paramsIn_paired (turns : Nat) (paired : left.Paired pairing right) :
    Paired pairing SameParams (paramsIn turns) (paramsIn turns) left right := by
  induction turns generalizing left right with
  | zero => exact .unexpected .paramName paired
  | succ turns ih =>
    rw [paramsIn]
    refine .expect paired fun _ named => ?_
    have same : Param.bare ⟨left.current.lexeme, left.current.position⟩ =
        Param.bare ⟨right.current.lexeme, right.current.position⟩ :=
      congrArg (Param.mk · .start) (pairing.lexeme_eq paired.current).symm
    refine .accept named (fun advanced => ?_) ?_
    · refine (ih advanced).bind fun _ _ _ _ others paired => ?_
      exact .pure (congrArg₂ List.cons same others) paired
    · exact .pure (congrArg (· :: []) same) named

theorem blockBody_paired (paired : left.Paired pairing right) :
    Paired pairing SameBlock blockBody blockBody left right := by
  unfold blockBody
  refine .get ?_
  rw [paired.length_eq]
  exact blockBodyIn_paired _ paired

/-- Functions that differ in their places only. -/
def SameFunction (left right : Function) : Prop := left.bare = right.bare

/-- What follows the parameters, also when there is none. -/
theorem functionBehind_paired {keyword otherKeyword name otherName : Token}
    {leftParams rightParams : List Param} (names : pairing.Pairs name otherName)
    (params : SameParams leftParams rightParams) (paired : left.Paired pairing right) :
    Paired pairing SameFunction (functionBehind keyword name leftParams)
      (functionBehind otherKeyword otherName rightParams) left right := by
  unfold functionBehind
  refine .expect paired fun _ closed => .expect closed fun _ opened => ?_
  refine (blockBody_paired opened).bind fun _ _ _ _ body paired => .pure ?_ paired
  unfold SameFunction Function.bare
  rw [pairing.lexeme_eq names, params, body]

theorem function_paired (paired : left.Paired pairing right) :
    Paired pairing SameFunction function function left right := by
  unfold function
  refine .expect paired fun _ atName => .expect atName fun _ atOpening => ?_
  refine .expect atOpening fun _ inside => .peek ?_
  rw [inside.kind_eq]
  split
  · simp only [pure_bind]
    exact functionBehind_paired atName.current rfl inside
  · refine .get ?_
    rw [inside.length_eq]
    refine (paramsIn_paired _ inside).bind fun _ _ _ _ params paired => ?_
    exact functionBehind_paired atName.current params paired

def SameFunctions (left right : List Function) : Prop :=
  left.map Function.bare = right.map Function.bare

/-- Both lists come to their ends together. -/
theorem functionsIn_paired (turns : Nat) (paired : left.Paired pairing right) :
    Paired pairing SameFunctions (functionsIn turns) (functionsIn turns) left right := by
  induction turns generalizing left right with
  | zero => exact .pure rfl paired
  | succ turns ih =>
    rw [functionsIn]
    refine .peek ?_
    rw [paired.kind_eq]
    split
    · exact .pure rfl paired
    · split
      · refine (function_paired paired).bind fun _ _ _ _ first paired => ?_
        refine (ih paired).bind fun _ _ _ _ others paired => ?_
        exact .pure (congrArg₂ List.cons first others) paired
      · exact .unexpected .topLevel paired

theorem program_paired (paired : left.Paired pairing right) :
    Paired pairing (fun l r : Program => l.bare = r.bare) program program left right := by
  unfold program
  refine .get ?_
  rw [paired.length_eq]
  refine (functionsIn_paired _ paired).bind fun _ _ _ _ same paired => ?_
  exact .pure (congrArg Program.mk same) paired

end Parser

/-! ### Lists of tokens -/

theorem Tokens.finish_ofList {body : List Token} {finish : Token}
    (inside : ∀ token ∈ body, token.kind ≠ .eof) (ends : finish.kind = .eof) :
    (Tokens.ofList (body ++ [finish])).finish = finish.position := by
  have passed : body.find? Token.isEof = none := by
    rw [List.find?_eq_none]
    intro token member
    simp [Token.isEof, inside token member]
  have found : (body ++ [finish]).find? Token.isEof = some finish := by
    simp [passed, Token.isEof, ends]
  unfold Tokens.ofList
  simp only [found]

/-- Lists of pairs with paired ends. -/
theorem Tokens.paired_ofList {left right : List Token} {finish other : Position}
    (inside : ∀ token ∈ left, token.kind ≠ .eof) (pairs : List.Forall₂ pairing.Pairs left right)
    (ends : pairing.Pairs (.eofAt finish) (.eofAt other)) :
    (Tokens.ofList (left ++ [.eofAt finish])).Paired pairing
      (Tokens.ofList (right ++ [.eofAt other])) := by
  have insideRight : ∀ token ∈ right, token.kind ≠ .eof := by
    intro token member
    obtain ⟨twin, among, paired⟩ := exists_of_forall₂ pairs member
    exact pairing.kind_eq paired ▸ inside twin among
  constructor
  · rw [Tokens.ahead_ofList inside rfl, Tokens.ahead_ofList insideRight rfl]
    exact pairs
  · rw [Tokens.finish_ofList inside rfl, Tokens.finish_ofList insideRight rfl]
    exact ends

/-- Two outcomes of reading: programs that differ in their places only, or paired errors. -/
def Program.Paired (pairing : Pairing) : Except SyntaxError Program →
    Except SyntaxError Program → Prop
  | .ok program, .ok other => program.bare = other.bare
  | .error error, .error other => error.Paired pairing other
  | _, _ => False

/-- Paired lists of tokens, up to the end of the input, have paired outcomes. -/
theorem Program.ofTokens_paired {left right : List Token} {finish other : Position}
    (inside : ∀ token ∈ left, token.kind ≠ .eof) (pairs : List.Forall₂ pairing.Pairs left right)
    (ends : pairing.Pairs (.eofAt finish) (.eofAt other)) :
    Program.Paired pairing (Program.ofTokens (left ++ [.eofAt finish]))
      (Program.ofTokens (right ++ [.eofAt other])) := by
  have paired := Parser.program_paired (Tokens.paired_ofList inside pairs ends)
  unfold Parser.Paired at paired
  unfold Program.ofTokens
  generalize Parser.program.runOn (Tokens.ofList (left ++ [.eofAt finish])) = leftRan at paired
  generalize Parser.program.runOn (Tokens.ofList (right ++ [.eofAt other])) = rightRan at paired
  obtain ⟨leftResult, leftAfter⟩ := leftRan
  obtain ⟨rightResult, rightAfter⟩ := rightRan
  cases leftResult with
  | error error =>
    cases rightResult with
    | error other => exact paired
    | ok copy => exact paired.elim
  | ok program =>
    cases rightResult with
    | error other => exact paired.elim
    | ok copy => exact paired.1

end ImpStack

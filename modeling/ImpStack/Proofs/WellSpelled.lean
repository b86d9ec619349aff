import ImpStack.Compile
import ImpStack.Proofs.FloatClasses
import ImpStack.Proofs.LongestToken
import ImpStack.Proofs.Numerals
import ImpStack.Proofs.ProgramGrammar

/-!
What a source can put into a tree. Every name in the tree of a source is a word of the language and
every float is a number, since the lexeme of a token is one that its pattern declares
(`Program.wellSpelled_of_ofSource`).

Trees that are built by hand need not be like that: a name with a parenthesis in it could be printed
as something else. So what is said of printed trees and listings is said of those that a source has.
-/
namespace ImpStack

/-! ### Tokens -/

/-- The lexeme is one that the pattern of the token declares. -/
def Token.WellSpelled (token : Token) : Prop :=
  ∀ pattern : Pattern, pattern.kind? = some token.kind → pattern.Matches token.lexeme.toList

theorem Pattern.eq_of_kind?_eq {pattern other : Pattern} {kind : Kind}
    (declares : pattern.kind? = some kind) (declaresToo : other.kind? = some kind) :
    pattern = other := by
  cases pattern <;> cases declares <;> cases other <;> cases declaresToo <;> rfl

/-- What is read as a token is a match of its pattern. -/
theorem LongestTokens.wellSpelled {keywordWins : List Char → Prop} {before rest : List Char}
    {tokens : List Token} (read : LongestTokens keywordWins before rest tokens) :
    ∀ token ∈ tokens, token.WellSpelled := by
  induction read with
  | finish before =>
    simp only [List.mem_singleton]
    rintro token rfl pattern declares
    cases pattern <;> cases declares
  | skip _ _ _ ih => exact ih
  | token declares longest _ ih =>
    refine List.forall_mem_cons.mpr ⟨fun pattern declaresToo => ?_, ih⟩
    rw [Pattern.eq_of_kind?_eq declaresToo declares, String.toList_ofList]
    exact longest.is_match
  | invalid _ _ ih =>
    refine List.forall_mem_cons.mpr ⟨fun pattern declares => ?_, ih⟩
    cases pattern <;> cases declares

/-- A name that an identifier can be. -/
def IsWord (name : String) : Prop := Pattern.word.Matches name.toList

namespace Token.WellSpelled

variable {token : Token}

theorem isWord (spelled : token.WellSpelled) (kind : token.kind = .identifier) :
    IsWord token.lexeme :=
  spelled .word (kind ▸ rfl)

/-- The literals that have a value are numbers, or infinity where they are too large. -/
theorem isNumber (spelled : token.WellSpelled) (kind : token.kind = .floatLiteral)
    {value : Float32} (reads : Binary32.ofNumeral? token.lexeme.toList = some value) :
    Binary32.IsNumber value := by
  obtain ⟨decimal, written⟩ := Pattern.exists_writtenAs (spelled .float (kind ▸ rfl))
  rw [written.ofNumeral?_eq] at reads
  cases reads
  exact Binary32.isNumber_ofMagnitude (Binary32.decimalBits_le ..) false

end Token.WellSpelled

/-! ### Trees -/

mutual

/-- Every name in the expression is a word and every float is a number. -/
def Expr.WellSpelled : Expr → Prop
  | .int _ _ => True
  | .float _ value => Binary32.IsNumber value
  | .var _ name => IsWord name
  | .binary _ _ left right => left.WellSpelled ∧ right.WellSpelled
  | .negate _ operand => operand.WellSpelled
  | .call _ callee args => IsWord callee ∧ Expr.AllWellSpelled args
  | .assign _ target value => IsWord target ∧ value.WellSpelled
termination_by structural expr => expr

def Expr.AllWellSpelled : List Expr → Prop
  | [] => True
  | first :: rest => first.WellSpelled ∧ Expr.AllWellSpelled rest
termination_by structural exprs => exprs

end

mutual

/-- Every name in the statement is a word and every float is a number. -/
def Stmt.WellSpelled : Stmt → Prop
  | .assign _ target value => IsWord target ∧ value.WellSpelled
  | .discard _ value => value.WellSpelled
  | .print _ value => value.WellSpelled
  | .branch _ condition body none => condition.WellSpelled ∧ Stmt.AllWellSpelled body
  | .branch _ condition body (some alternative) =>
    condition.WellSpelled ∧ Stmt.AllWellSpelled body ∧ Stmt.AllWellSpelled alternative
  | .loop _ condition body => condition.WellSpelled ∧ Stmt.AllWellSpelled body
  | .return_ _ none => True
  | .return_ _ (some value) => value.WellSpelled
  | .block _ body => Stmt.AllWellSpelled body
termination_by structural statement => statement

def Stmt.AllWellSpelled : List Stmt → Prop
  | [] => True
  | first :: rest => first.WellSpelled ∧ Stmt.AllWellSpelled rest
termination_by structural body => body

end

/-- The name of the function and those of its parameters are words too. -/
structure Function.WellSpelled (function : Function) : Prop where
  name : IsWord function.name
  params : ∀ param ∈ function.params, IsWord param.name
  body : Stmt.AllWellSpelled function.body

/-- All functions are well spelled. -/
def Program.WellSpelled (program : Program) : Prop :=
  ∀ function ∈ program.functions, function.WellSpelled

/-- Places do not matter. -/
theorem Expr.wellSpelled_moveTo (position : Position) (e : Expr) :
    (e.moveTo position).WellSpelled ↔ e.WellSpelled := by
  cases e <;> rfl

theorem Stmt.allWellSpelled_asBlock (statement : Stmt) :
    Stmt.AllWellSpelled statement.asBlock ↔ statement.WellSpelled := by
  cases statement with
  | block position body => rfl
  | _ => exact iff_of_eq (and_true _)

theorem Expr.wellSpelled_asStatement (position : Position) (e : Expr) :
    (e.asStatement position).WellSpelled ↔ e.WellSpelled := by
  cases e <;> rfl

/-! ### Trees of well-spelled tokens -/

mutual

/-- An expression of well-spelled tokens has names and floats of these tokens only. -/
theorem Phrase.wellSpelled {level : Level} {tokens : List Token} {e : Expr}
    (phrase : Phrase level tokens e) (spelled : ∀ token ∈ tokens, token.WellSpelled) :
    e.WellSpelled := by
  match phrase with
  | .int _ _ => trivial
  | .float kind reads => exact (spelled _ List.mem_cons_self).isNumber kind reads
  | .var kind => exact (spelled _ List.mem_cons_self).isWord kind
  | .group _ whole _ =>
    simp only [List.forall_mem_append, List.forall_mem_cons] at spelled
    exact (Expr.wellSpelled_moveTo ..).mpr (whole.wellSpelled spelled.1.2)
  | .call callee _ arguments _ =>
    simp only [List.forall_mem_append, List.forall_mem_cons] at spelled
    obtain ⟨⟨calleeSpelled, -, argumentsSpelled⟩, -⟩ := spelled
    exact ⟨callee.wellSpelled calleeSpelled, arguments.wellSpelled argumentsSpelled⟩
  | .negate _ operand => exact operand.wellSpelled (List.forall_mem_cons.mp spelled).2
  | .binary left _ right =>
    simp only [List.forall_mem_append, List.forall_mem_cons] at spelled
    exact ⟨left.wellSpelled spelled.1, right.wellSpelled spelled.2.2⟩
  | .assign target _ value =>
    simp only [List.forall_mem_append, List.forall_mem_cons] at spelled
    exact ⟨target.wellSpelled spelled.1, value.wellSpelled spelled.2.2⟩
  | .loosen tighter => exact tighter.wellSpelled spelled

theorem Arguments.wellSpelled {tokens : List Token} {args : List Expr}
    (arguments : Arguments tokens args) (spelled : ∀ token ∈ tokens, token.WellSpelled) :
    Expr.AllWellSpelled args := by
  match arguments with
  | .none => trivial
  | .some list => exact list.wellSpelled spelled

theorem ArgumentList.wellSpelled {tokens : List Token} {args : List Expr}
    (list : ArgumentList tokens args) (spelled : ∀ token ∈ tokens, token.WellSpelled) :
    Expr.AllWellSpelled args := by
  match list with
  | .last phrase => exact ⟨phrase.wellSpelled spelled, trivial⟩
  | .more phrase _ rest =>
    simp only [List.forall_mem_append, List.forall_mem_cons] at spelled
    exact ⟨phrase.wellSpelled spelled.1, rest.wellSpelled spelled.2.2⟩

end

mutual

/-- A statement of well-spelled tokens is well spelled. -/
theorem Statement.wellSpelled {rule : ElseRule} {dangling : Bool} {tokens : List Token}
    {statement : Stmt} (reading : Statement rule dangling tokens statement)
    (spelled : ∀ token ∈ tokens, token.WellSpelled) : statement.WellSpelled := by
  match reading with
  | .branch _ _ test _ body =>
    simp only [List.forall_mem_append, List.forall_mem_cons] at spelled
    obtain ⟨⟨-, -, testSpelled⟩, -, bodySpelled⟩ := spelled
    exact ⟨test.wellSpelled testSpelled,
      (Stmt.allWellSpelled_asBlock _).mpr (body.wellSpelled bodySpelled)⟩
  | .branchElse _ _ test _ body _ _ other =>
    simp only [List.forall_mem_append, List.forall_mem_cons] at spelled
    obtain ⟨⟨⟨-, -, testSpelled⟩, -, bodySpelled⟩, -, otherSpelled⟩ := spelled
    exact ⟨test.wellSpelled testSpelled,
      (Stmt.allWellSpelled_asBlock _).mpr (body.wellSpelled bodySpelled),
      (Stmt.allWellSpelled_asBlock _).mpr (other.wellSpelled otherSpelled)⟩
  | .loop _ _ test _ body =>
    simp only [List.forall_mem_append, List.forall_mem_cons] at spelled
    obtain ⟨⟨-, -, testSpelled⟩, -, bodySpelled⟩ := spelled
    exact ⟨test.wellSpelled testSpelled,
      (Stmt.allWellSpelled_asBlock _).mpr (body.wellSpelled bodySpelled)⟩
  | .print _ _ value _ _ =>
    simp only [List.forall_mem_append, List.forall_mem_cons] at spelled
    exact value.wellSpelled spelled.1.2.2
  | .returnNone _ _ => trivial
  | .returnValue _ value _ =>
    simp only [List.forall_mem_append, List.forall_mem_cons] at spelled
    exact value.wellSpelled spelled.1.2
  | .block _ statements _ =>
    simp only [List.forall_mem_append, List.forall_mem_cons] at spelled
    exact statements.wellSpelled spelled.1.2
  | .expression phrase _ =>
    exact (Expr.wellSpelled_asStatement ..).mpr
      (phrase.wellSpelled (List.forall_mem_append.mp spelled).1)

theorem Statements.wellSpelled {rule : ElseRule} {tokens : List Token} {body : List Stmt}
    (reading : Statements rule tokens body) (spelled : ∀ token ∈ tokens, token.WellSpelled) :
    Stmt.AllWellSpelled body := by
  match reading with
  | .nil => trivial
  | .cons first others =>
    obtain ⟨firstSpelled, othersSpelled⟩ := List.forall_mem_append.mp spelled
    exact ⟨first.wellSpelled firstSpelled, others.wellSpelled othersSpelled⟩

end

theorem ParamList.isWord {tokens : List Token} {params : List Param}
    (list : ParamList tokens params) (spelled : ∀ token ∈ tokens, token.WellSpelled) :
    ∀ param ∈ params, IsWord param.name := by
  induction list with
  | last kind => exact List.forall_mem_singleton.mpr ((spelled _ List.mem_cons_self).isWord kind)
  | more kind _ _ ih =>
    simp only [List.forall_mem_cons] at spelled
    exact List.forall_mem_cons.mpr ⟨spelled.1.isWord kind, ih spelled.2.2⟩

theorem ParamsText.isWord {tokens : List Token} {params : List Param}
    (paramsText : ParamsText tokens params) (spelled : ∀ token ∈ tokens, token.WellSpelled) :
    ∀ param ∈ params, IsWord param.name := by
  cases paramsText with
  | none => exact List.forall_mem_nil _
  | some list => exact list.isWord spelled

/-- A function of well-spelled tokens is well spelled, with its name and its parameters. -/
theorem FunctionText.wellSpelled {rule : ElseRule} {tokens : List Token} {function : Function}
    (reading : FunctionText rule tokens function)
    (spelled : ∀ token ∈ tokens, token.WellSpelled) : function.WellSpelled := by
  match reading with
  | .function _ nameKind _ params _ _ statements _ =>
    simp only [List.forall_mem_append, List.forall_mem_cons] at spelled
    obtain ⟨⟨⟨-, nameSpelled, -, paramsSpelled⟩, -, -, bodySpelled⟩, -⟩ := spelled
    exact ⟨nameSpelled.isWord nameKind, params.isWord paramsSpelled,
      statements.wellSpelled bodySpelled⟩

theorem ProgramText.wellSpelled {rule : ElseRule} {tokens : List Token} {program : Program}
    (reading : ProgramText rule tokens program)
    (spelled : ∀ token ∈ tokens, token.WellSpelled) : program.WellSpelled := by
  match reading with
  | .nil => exact List.forall_mem_nil _
  | .cons first others =>
    obtain ⟨firstSpelled, othersSpelled⟩ := List.forall_mem_append.mp spelled
    exact List.forall_mem_cons.mpr
      ⟨first.wellSpelled firstSpelled, others.wellSpelled othersSpelled⟩

/-- Every name in the tree of a source is a word, and every float is a number. -/
theorem Program.wellSpelled_of_ofSource {source : String} {program : Program}
    (parsed : Program.ofSource source = .ok program) : program.WellSpelled := by
  have spelled := (LongestTokens.listOf source).wellSpelled
  obtain ⟨body, finish, listed, inside⟩ := Token.exists_listFrom_eq 0 .start source.toList
  have listOf_eq : Token.listOf source = body ++ [.eofAt finish] := listed
  rw [Program.ofSource, listOf_eq] at parsed
  have reading := (Program.ofTokens_eq_ok_iff inside rfl program).mp parsed
  refine reading.wellSpelled fun token member => spelled token ?_
  rw [listOf_eq]
  exact List.mem_append_left _ member

end ImpStack

import ImpStack.Proofs.BareStages
import ImpStack.Proofs.PairedReading
import ImpStack.Proofs.Respacing

/-!
How a source is laid out decides about places only (`Respacing.reads_and_compiles_alike`). A text of
the same lexemes has tokens of the same kinds, and then the same code or the same error apart from
its place, under one condition: a word that is spelled like a keyword must not come in front of a
character whose first byte is that of a letter where it is a keyword, nor in front of another one
where it is a name.

That the condition is needed is seen with an em space behind the first keyword of a program
(`Respacing.em_space_behind_keyword`), although it is one of the separators of SPEC_FULL, section
4.1.
-/
namespace ImpStack

variable {source : String}

/-- Tokens that differ in their places only. -/
def Pairing.alike : Pairing where
  Pairs left right := right.kind = left.kind ∧ right.lexeme = left.lexeme
  kind_eq pairs := pairs.1
  lexeme_eq pairs := pairs.2

/-- The stages behind the parser. -/
def Program.toAssembly (name : String) (program : Program) : Except CompileError Assembly := do
  program.check.mapError .scope
  (Assembly.ofProgram name program).mapError .lowering

theorem Assembly.ofSource_eq (name source : String) :
    Assembly.ofSource name source =
      (Program.ofSource source).mapError .grammar >>= Program.toAssembly name := rfl

/-- The stages behind the parser do not look at places. -/
theorem Program.toAssembly_bare (name : String) (program : Program) :
    program.bare.toAssembly name = (program.toAssembly name).mapError CompileError.bare := by
  rw [toAssembly, toAssembly, check_bare, Assembly.ofProgram_bare, mapError_bind]
  cases program.check with
  | error error => rfl
  | ok done => cases Assembly.ofProgram name program <;> rfl

/-- Outcomes of the parser that differ in places only lead to such outcomes of the compilation. -/
theorem Program.Paired.toAssembly_eq {left right : Except SyntaxError Program}
    (paired : Program.Paired .alike left right) (name : String) :
    (left.mapError .grammar >>= Program.toAssembly name).mapError CompileError.bare =
      (right.mapError .grammar >>= Program.toAssembly name).mapError CompileError.bare := by
  cases left with
  | error error =>
    cases right with
    | error other =>
      have same : error.bare = other.bare := SyntaxError.Paired.bare_eq paired
      exact congrArg (fun error => Except.error (CompileError.grammar error)) same
    | ok copy => exact paired.elim
  | ok program =>
    cases right with
    | error other => exact paired.elim
    | ok copy =>
      have same : program.bare = copy.bare := paired
      calc (program.toAssembly name).mapError CompileError.bare
          = program.bare.toAssembly name := (program.toAssembly_bare name).symm
        _ = copy.bare.toAssembly name := by rw [same]
        _ = (copy.toAssembly name).mapError CompileError.bare := copy.toAssembly_bare name

namespace Spaced

variable {pieces : Spaced} {tokens : List Token}

/-- Tokens that are read again have the lexemes they had. -/
theorem map_lexeme_eq (twins : List.Forall₂ Reread pieces tokens) :
    tokens.map Token.lexeme = (pieces.map Prod.fst).map Token.lexeme := by
  induction twins with
  | nil => rfl
  | cons reread _ ih => simp only [List.map_cons, reread.lexeme_eq, ih]

/-- They have the kinds they had if every piece keeps its kind. -/
theorem map_kind_eq_iff (twins : List.Forall₂ Reread pieces tokens) :
    tokens.map Token.kind = (pieces.map Prod.fst).map Token.kind ↔
      ∀ piece ∈ pieces, piece.1.StaysBefore piece.2 := by
  induction twins with
  | nil => simp
  | cons reread _ ih =>
    simp only [List.map_cons, List.cons.injEq, reread.kind_eq_iff, ih, List.forall_mem_cons]

theorem pairs_alike (twins : List.Forall₂ Reread pieces tokens)
    (stay : ∀ piece ∈ pieces, piece.1.StaysBefore piece.2) :
    List.Forall₂ Pairing.alike.Pairs (pieces.map Prod.fst) tokens := by
  induction twins with
  | nil => exact .nil
  | cons reread _ ih =>
    obtain ⟨first, others⟩ := List.forall_mem_cons.mp stay
    exact .cons ⟨reread.kind_eq_iff.mpr first, reread.lexeme_eq⟩ (ih others)

end Spaced

namespace Respacing

/-- What the source is read as: a token for each piece of the new layout. -/
theorem exists_source_eq (spacing : Respacing source) :
    ∃ finish, Token.listOf source = spacing.pieces.map Prod.fst ++ [.eofAt finish] ∧
      ∀ token ∈ spacing.pieces.map Prod.fst, token.kind ≠ .eof := by
  obtain ⟨body, finish, listed, inside⟩ := Token.exists_listFrom_eq 0 .start source.toList
  have body_eq : spacing.pieces.map Prod.fst = body := by
    rw [spacing.tokens_eq, Token.listOf, listed, List.dropLast_concat]
  rw [body_eq]
  exact ⟨finish, listed, inside⟩

/-- The lexemes are read again, with their kinds exactly if the keywords stay what they are; and
then the compilation yields the same, apart from the place of an error. -/
theorem reads_and_compiles_alike (spacing : Respacing source) :
    (Token.listOf spacing.text).map Token.lexeme = (Token.listOf source).map Token.lexeme ∧
      ((Token.listOf spacing.text).map Token.kind = (Token.listOf source).map Token.kind ↔
        spacing.KeepsKeywords) ∧
      (spacing.KeepsKeywords → ∀ name,
        (Assembly.ofSource name spacing.text).mapError CompileError.bare =
          (Assembly.ofSource name source).mapError CompileError.bare) := by
  obtain ⟨finish, source_eq, inside⟩ := spacing.exists_source_eq
  obtain ⟨tokens, other, text_eq, twins⟩ := spacing.exists_listOf_eq
  rw [source_eq, text_eq]
  refine ⟨?_, ?_, fun keeps name => ?_⟩
  · rw [List.map_append, List.map_append, Spaced.map_lexeme_eq twins]
    rfl
  · rw [List.map_append, List.map_append, KeepsKeywords, ← Spaced.map_kind_eq_iff twins]
    exact List.append_left_inj _
  · have paired : Program.Paired .alike
        (Program.ofTokens (spacing.pieces.map Prod.fst ++ [.eofAt finish]))
        (Program.ofTokens (tokens ++ [.eofAt other])) :=
      Program.ofTokens_paired inside (Spaced.pairs_alike twins keeps) ⟨rfl, rfl⟩
    rw [Assembly.ofSource_eq, Assembly.ofSource_eq, Program.ofSource, Program.ofSource, source_eq,
      text_eq]
    exact (paired.toAssembly_eq name).symm

/-- The tokens of a function `main` without statements. -/
theorem listOf_emptyMain : (Token.listOf "function main() \x7b\x7d").dropLast =
    [⟨.keyword .function, "function", ⟨1, 1⟩⟩, ⟨.identifier, "main", ⟨1, 10⟩⟩,
      ⟨.symbol .leftParen, "(", ⟨1, 14⟩⟩, ⟨.symbol .rightParen, ")", ⟨1, 15⟩⟩,
      ⟨.symbol .leftBrace, "\x7b", ⟨1, 17⟩⟩, ⟨.symbol .rightBrace, "\x7d", ⟨1, 18⟩⟩] := by
  decide +kernel

/-- A layout of that function with the given blank behind its first word. -/
def ofEmptyMain (blank : Char) (isBlank : Text.isBlank blank) :
    Respacing "function main() \x7b\x7d" where
  lead := ['/', '/', 'a', '\n']
  pieces := [
    (⟨.keyword .function, "function", ⟨1, 1⟩⟩, [blank]),
    (⟨.identifier, "main", ⟨1, 10⟩⟩, ['\u2003', '/', '/', '\n']),
    (⟨.symbol .leftParen, "(", ⟨1, 14⟩⟩, [' ']),
    (⟨.symbol .rightParen, ")", ⟨1, 15⟩⟩, ['\t', ' ']),
    (⟨.symbol .leftBrace, "\x7b", ⟨1, 17⟩⟩, ['\n']),
    (⟨.symbol .rightBrace, "\x7d", ⟨1, 18⟩⟩, ['/', '/', '\n'])]
  leadGap := @Gap.comment ['a'] [] (by decide) .nil
  separated :=
    ⟨.blank isBlank .nil, ⟨blank, rfl, isBlank⟩,
      .blank rfl (@Gap.comment [] [] (by decide) .nil), ⟨'\u2003', rfl, rfl⟩,
      .blank rfl .nil, ⟨' ', rfl, rfl⟩,
      .blank rfl (.blank rfl .nil), ⟨'\t', rfl, rfl⟩,
      .blank rfl .nil, ⟨'\n', rfl, rfl⟩,
      @Gap.comment [] [] (by decide) .nil, fun _ head => .inr ⟨by cases head; rfl, by decide⟩⟩
  tokens_eq := listOf_emptyMain.symm

/-- Behind a keyword, an em space is read as the beginning of a letter, so that the layout with it
is no function at all. -/
theorem em_space_behind_keyword :
    (Token.listOf (ofEmptyMain '\u2003' rfl).text).map Token.kind ≠
        (Token.listOf "function main() \x7b\x7d").map Token.kind ∧
      (Assembly.ofSource "Main" (ofEmptyMain '\u2003' rfl).text).mapError CompileError.bare ≠
        (Assembly.ofSource "Main" "function main() \x7b\x7d").mapError CompileError.bare := by
  constructor <;> decide +kernel

/-- A tab behind the keyword and other separators elsewhere change nothing. -/
theorem reads_and_compiles_alike_emptyMain :
    (ofEmptyMain '\t' rfl).KeepsKeywords ∧
      (Assembly.ofSource "Main" (ofEmptyMain '\t' rfl).text).mapError CompileError.bare =
        (Assembly.ofSource "Main" "function main() \x7b\x7d").mapError CompileError.bare := by
  have keeps : (ofEmptyMain '\t' rfl).KeepsKeywords :=
    (reads_and_compiles_alike _).2.1.mp (by decide +kernel)
  exact ⟨keeps, (reads_and_compiles_alike _).2.2 keeps "Main"⟩

end Respacing

end ImpStack

import ImpStack.Proofs.ErrorPlaces
import ImpStack.Proofs.Lexemes
import ImpStack.Proofs.Replay

/-!
The tokens of a text that is laid out anew: the lexemes of a source in their order, with other
blanks and comments around them (`Respacing`). Every lexeme is read again, and with the kind it had,
as long as the words that are spelled like keywords are followed by something that lets them be what
they were (`Respacing.exists_listOf_eq`).
-/
namespace ImpStack

variable {part gap rest : List Char} {c : Char} {position : Position} {token : Token}
  {source : String}

/-! ### What stands at the front of a text -/

namespace Token

/-- The token stands at the front of some text. -/
def IsRead (token : Token) : Prop :=
  token.lexeme.toList ≠ [] ∧
    ∃ rest, Piece.front (token.lexeme.toList ++ rest) =
      ⟨some token.kind, token.lexeme.toList.length⟩

/-- The tokens of a text stand at the front of what was left of it. -/
theorem isRead_of_mem_listFrom {skip : Nat} {text : List Char}
    (mem : token ∈ listFrom skip position text) (inside : token.kind ≠ .eof) : token.IsRead := by
  induction text generalizing skip position with
  | nil =>
    have : token = eofAt position := by cases skip <;> simpa [listFrom] using mem
    exact absurd (this ▸ rfl) inside
  | cons c rest ih =>
    cases skip with
    | succ skip => exact ih mem
    | zero =>
      unfold listFrom at mem
      dsimp only at mem
      split at mem
      · exact ih mem
      · next kind declares =>
        rcases List.mem_cons.mp mem with rfl | mem
        · obtain ⟨part, behind, text_eq, nonempty, length_eq⟩ := Piece.exists_part c rest
          rw [length_eq, text_eq, List.take_left, IsRead, String.toList_ofList]
          refine ⟨nonempty, behind, ?_⟩
          rw [← text_eq, ← length_eq, ← declares]
        · exact ih mem

/-! ### Gaps -/

theorem listFrom_blank (blank : Text.isBlank c) (position : Position) (rest : List Char) :
    listFrom 0 position (c :: rest) = listFrom 0 (position.after c) rest := by
  have skips : ∀ {d rest}, Text.isBlank d → ∀ position, listFrom 0 position (d :: rest) =
      listFrom (Pattern.runLength Text.isBlank rest) (position.after d) rest := by
    intro d rest blank position
    have run : Pattern.runLength Text.isBlank (d :: rest) =
        Pattern.runLength Text.isBlank rest + 1 := by
      simp [Pattern.runLength, blank]
    simp [listFrom, Piece.front, Pattern.longestMatch_blank blank, Pattern.kind?, run]
  rw [skips blank]
  cases rest with
  | nil => rfl
  | cons d rest =>
    by_cases more : Text.isBlank d
    · rw [skips more]
      simp [Pattern.runLength, more, listFrom]
    · simp [Pattern.runLength, more]

/-- A comment is passed over up to its line feed. -/
theorem listFrom_comment {line : List Char} (oneLine : '\n' ∉ line) (position : Position)
    (rest : List Char) :
    listFrom 0 position ('/' :: '/' :: line ++ '\n' :: rest) =
      listFrom 0 (('/' :: '/' :: line).foldl .after position) ('\n' :: rest) := by
  have inside : ∀ c ∈ line, decide (c ≠ '\n') = true :=
    fun c mem => decide_eq_true fun feed => oneLine (feed ▸ mem)
  have run : Pattern.runLength (· ≠ '\n') (line ++ '\n' :: rest) = line.length := by
    rw [Pattern.runLength_append inside]
    rfl
  have front : Piece.front ('/' :: '/' :: line ++ '\n' :: rest) =
      ⟨none, ('/' :: '/' :: line).length⟩ := by
    simp only [Piece.front, List.cons_append, Pattern.longestMatch_comment, run, Pattern.kind?,
      List.length_cons, Nat.add_comm 2]
  exact listFrom_front (List.cons_ne_nil _ _) front

end Token

/-- Blanks and comments, each comment with the line feed that ends it. -/
inductive Gap : List Char → Prop
  | nil : Gap []
  | blank {c : Char} {rest : List Char} (isBlank : Text.isBlank c) (following : Gap rest) :
      Gap (c :: rest)
  | comment {line rest : List Char} (oneLine : '\n' ∉ line) (following : Gap rest) :
      Gap ('/' :: '/' :: line ++ '\n' :: rest)

/-- A gap has no tokens. -/
theorem Gap.listFrom (isGap : Gap gap) (position : Position) (rest : List Char) :
    Token.listFrom 0 position (gap ++ rest) =
      Token.listFrom 0 (gap.foldl .after position) rest := by
  induction isGap generalizing position with
  | nil => rfl
  | blank isBlank following ih =>
    rw [List.cons_append, Token.listFrom_blank isBlank, ih, List.foldl_cons]
  | @comment line gap oneLine following ih =>
    have text_eq : '/' :: '/' :: line ++ '\n' :: gap ++ rest =
        '/' :: '/' :: line ++ '\n' :: (gap ++ rest) := by simp
    rw [text_eq, Token.listFrom_comment oneLine, Token.listFrom_blank (by decide), ih]
    simp only [List.foldl_append, List.foldl_cons]

/-! ### Tokens in front of gaps -/

theorem Keyword.spelling_injective : Function.Injective Keyword.spelling := by
  intro left right
  cases left <;> cases right <;> decide

/-- What follows leaves a word that is spelled like a keyword what it was. -/
def Token.StaysBefore (token : Token) (rest : List Char) : Prop :=
  ∀ name : Keyword, token.lexeme = name.spelling →
    (token.kind = .keyword name ↔ rest.head?.any Text.beginsLikeLetter = false)

theorem Token.staysBefore_iff {name : Keyword} (token : Token)
    (lexeme_eq : token.lexeme = name.spelling) :
    token.StaysBefore rest ↔
      (token.kind = .keyword name ↔ rest.head?.any Text.beginsLikeLetter = false) := by
  constructor
  · exact fun stays => stays name lexeme_eq
  · intro stays other same
    obtain rfl := Keyword.spelling_injective (same.symm.trans lexeme_eq)
    exact stays

/-- The lexeme is read again, with its kind exactly if what follows leaves it that. -/
theorem Token.IsRead.front (isRead : token.IsRead)
    (closes : Pattern.Closes rest token.lexeme.toList) :
    ∃ kind, Piece.front (token.lexeme.toList ++ rest) =
        ⟨some kind, token.lexeme.toList.length⟩ ∧
      (kind = token.kind ↔ token.StaysBefore rest) := by
  obtain ⟨nonempty, first, front⟩ := isRead
  obtain ⟨lexeme, firstApart⟩ := Piece.isLexeme_of_front nonempty front
  have apart := lexeme.apart closes
  by_cases spelled : ∃ name : Keyword, name.spelling.toList = token.lexeme.toList
  · obtain ⟨name, spelled⟩ := spelled
    have lexeme_eq : token.lexeme = name.spelling := (String.toList_inj.mp spelled).symm
    rw [← spelled] at front firstApart apart ⊢
    rw [Piece.front_keyword firstApart] at front
    refine ⟨_, Piece.front_keyword apart, ?_⟩
    rw [token.staysBefore_iff lexeme_eq]
    simp only [Piece.mk.injEq, Option.some.injEq, and_true] at front
    rw [← front]
    cases first.head?.any Text.beginsLikeLetter <;> cases rest.head?.any Text.beginsLikeLetter <;>
      simp
  · refine ⟨token.kind, ?_, ?_⟩
    · rw [Piece.front_eq_of_apart firstApart apart fun name same => spelled ⟨name, same⟩, front]
    · simp only [true_iff]
      intro name same
      exact absurd ⟨name, congrArg String.toList same.symm⟩ spelled

/-! ### Whole texts -/

/-- Tokens, each with the gap behind it. -/
abbrev Spaced := List (Token × List Char)

namespace Spaced

/-- The lexemes and the gaps; where the tokens were read before is of no account. -/
def text : Spaced → List Char
  | [] => []
  | (token, gap) :: rest => token.lexeme.toList ++ (gap ++ text rest)

/-- What separates two tokens begins with a blank. Behind the last token nothing has to stand, and
there a comment may begin at once, unless the token is a slash. -/
def Separated : Spaced → Prop
  | [] => True
  | [(token, gap)] => Gap gap ∧ Pattern.Closes gap token.lexeme.toList
  | (_, gap) :: rest => Gap gap ∧ (∃ c ∈ gap.head?, Text.isBlank c) ∧ Separated rest

/-- What stands behind a token begins with its gap, if there is anything. -/
theorem Separated.front {pieces : Spaced} (separated : Separated ((token, gap) :: pieces)) :
    Gap gap ∧ Pattern.Closes (gap ++ pieces.text) token.lexeme.toList ∧
      (gap ++ pieces.text).head? = gap.head? ∧ pieces.Separated := by
  cases pieces with
  | nil =>
    obtain ⟨isGap, closes⟩ := separated
    rw [text, List.append_nil]
    exact ⟨isGap, closes, rfl, trivial⟩
  | cons next pieces =>
    obtain ⟨isGap, ⟨c, head, blank⟩, others⟩ := separated
    have head_eq : (gap ++ text (next :: pieces)).head? = gap.head? := by
      simp [List.head?_append, Option.mem_def.mp head]
    refine ⟨isGap, fun d first => .inl ?_, head_eq, others⟩
    rw [head_eq, Option.mem_def.mp head] at first
    cases first
    exact blank

/-- The token has the lexeme of the piece, and its kind if that stays. -/
structure Reread (piece : Token × List Char) (token : Token) : Prop where
  lexeme_eq : token.lexeme = piece.1.lexeme
  kind_eq_iff : token.kind = piece.1.kind ↔ piece.1.StaysBefore piece.2

/-- The tokens of the text, one for each piece. -/
theorem exists_listFrom_eq {pieces : Spaced} (separated : pieces.Separated)
    (read : ∀ piece ∈ pieces, piece.1.IsRead) (position : Position) :
    ∃ tokens finish, Token.listFrom 0 position pieces.text = tokens ++ [.eofAt finish] ∧
      List.Forall₂ Reread pieces tokens := by
  induction pieces generalizing position with
  | nil => exact ⟨[], position, rfl, .nil⟩
  | cons piece pieces ih =>
    obtain ⟨token, gap⟩ := piece
    obtain ⟨isGap, closes, head_eq, others⟩ := separated.front
    have isRead := read _ (List.mem_cons_self ..)
    obtain ⟨kind, front, stays⟩ := isRead.front closes
    obtain ⟨tokens, finish, following, twins⟩ :=
      ih others (fun piece mem => read piece (.tail _ mem)) _
    refine ⟨⟨kind, token.lexeme, position⟩ :: tokens, finish, ?_, .cons ⟨rfl, ?_⟩ twins⟩
    · rw [text, Token.listFrom_front isRead.1 front, isGap.listFrom, following]
      simp
    · rw [stays, Token.StaysBefore, Token.StaysBefore, head_eq]

end Spaced

/-- A new layout of a source: what stands in front of the first token, and the tokens with what
stands behind each of them. -/
structure Respacing (source : String) where
  lead : List Char
  pieces : Spaced
  leadGap : Gap lead
  separated : pieces.Separated
  tokens_eq : pieces.map Prod.fst = (Token.listOf source).dropLast

namespace Respacing

def text (spacing : Respacing source) : String :=
  String.ofList (spacing.lead ++ spacing.pieces.text)

/-- Every word that is spelled like a keyword stays what it was: a keyword in front of a character
that does not begin like a letter, an identifier in front of one that does. -/
def KeepsKeywords (spacing : Respacing source) : Prop :=
  ∀ piece ∈ spacing.pieces, piece.1.StaysBefore piece.2

/-- The pieces of a layout are tokens of the source. -/
theorem isRead_of_mem (spacing : Respacing source) {piece : Token × List Char}
    (mem : piece ∈ spacing.pieces) : piece.1.IsRead := by
  have among : piece.1 ∈ (Token.listOf source).dropLast :=
    spacing.tokens_eq ▸ List.mem_map_of_mem mem
  obtain ⟨body, finish, listed, inside⟩ := Token.exists_listFrom_eq 0 .start source.toList
  refine Token.isRead_of_mem_listFrom (List.dropLast_subset _ among) (inside _ ?_)
  rw [Token.listOf, listed, List.dropLast_concat] at among
  exact among

/-- What the new text is read as. -/
theorem exists_listOf_eq (spacing : Respacing source) :
    ∃ tokens finish, Token.listOf spacing.text = tokens ++ [.eofAt finish] ∧
      List.Forall₂ Spaced.Reread spacing.pieces tokens := by
  rw [Token.listOf, text, String.toList_ofList, spacing.leadGap.listFrom]
  exact Spaced.exists_listFrom_eq spacing.separated (fun piece mem => spacing.isRead_of_mem mem) _

end Respacing

end ImpStack

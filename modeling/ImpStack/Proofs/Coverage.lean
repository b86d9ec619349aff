import ImpStack.Proofs.Places
import ImpStack.Source.Line
import ImpStack.Token.Lexer

/-!
What it means that a list of tokens loses nothing of its source. Every token but the last has a run
of characters that is its lexeme and whose first character is at its position; the runs follow each
other, and only blanks and comments lie outside of them (`Token.Faithful`).

A `Layout` says the same from left to right, text and tokens side by side, which is how tokens are
read. `Layout.faithful` leads from the one to the other.
-/
namespace ImpStack

/-- The character number `index` lies in the span. -/
def Span.Has (span : Span) (index : Nat) : Prop := span.start ≤ index ∧ index < span.stop

/-- Two slashes and all behind them on their line. -/
structure Span.IsComment (span : Span) (text : List Char) : Prop where
  opens : ['/', '/'] <+: text.extract span.start span.stop
  oneLine : '\n' ∉ text.extract span.start span.stop
  wholeLine : span.stop = text.length ∨ text[span.stop]? = some '\n'

namespace Token

/-- The token is read from the characters of `text` in `span`. -/
structure ReadFrom (text : List Char) (span : Span) (token : Token) : Prop where
  nonempty : span.start < span.stop
  inside : span.stop ≤ text.length
  lexeme_eq : token.lexeme.toList = text.extract span.start span.stop
  position_eq : token.position = .ofIndex text span.start
  isEof_eq : token.isEof = false
  /-- An invalid token is one character, and no blank. -/
  invalid : token.kind = .invalid → ∃ c, text.extract span.start span.stop = [c] ∧ ¬ Text.isBlank c

/-- The tokens are read from `text` behind its first `first` characters; nothing is left out but
blanks and comments. -/
structure Covers (text : List Char) (first : Nat) (spans : List Span) (tokens : List Token) :
    Prop where
  each : List.Forall₂ (ReadFrom text) spans tokens
  later : ∀ span ∈ spans, first ≤ span.start
  ordered : spans.Pairwise fun left right => left.stop ≤ right.start
  between : ∀ index c, first ≤ index → text[index]? = some c → (∀ span ∈ spans, ¬ span.Has index) →
    Text.isBlank c ∨ ∃ remark : Span, remark.IsComment text ∧ remark.Has index ∧
      first ≤ remark.start ∧ ∀ span ∈ spans, span.stop ≤ remark.start ∨ remark.stop ≤ span.start

/-- The tokens of `source`, with nothing lost and every position right: the last of them is the end
of the input, just behind the last character. -/
def Faithful (source : String) (tokens : List Token) : Prop :=
  ∃ spans body, tokens = body ++ [eofAt (.ofIndex source.toList source.toList.length)] ∧
    Covers source.toList 0 spans body

namespace Covers

variable {text : List Char} {first middle : Nat} {spans : List Span} {tokens : List Token}

/-- Blanks and comments may stand in front. -/
theorem skip (covers : Covers text middle spans tokens) (le : first ≤ middle)
    (gap : ∀ index c, first ≤ index → index < middle → text[index]? = some c →
      Text.isBlank c ∨ ∃ remark : Span, remark.IsComment text ∧ remark.Has index ∧
        first ≤ remark.start ∧ remark.stop ≤ middle) :
    Covers text first spans tokens where
  each := covers.each
  later span mem := Nat.le_trans le (covers.later span mem)
  ordered := covers.ordered
  between := by
    intro index c reached here outside
    by_cases inGap : index < middle
    · rcases gap index c reached inGap here with blank | ⟨remark, isComment, has, start, stop⟩
      · exact .inl blank
      · exact .inr ⟨remark, isComment, has, start,
          fun span mem => .inr (Nat.le_trans stop (covers.later span mem))⟩
    · rcases covers.between index c (Nat.le_of_not_lt inGap) here outside with
        blank | ⟨remark, isComment, has, start, apart⟩
      · exact .inl blank
      · exact .inr ⟨remark, isComment, has, Nat.le_trans le start, apart⟩

/-- A token may stand in front. -/
theorem cons {token : Token} (covers : Covers text middle spans tokens)
    (readFrom : token.ReadFrom text ⟨first, middle⟩) :
    Covers text first (⟨first, middle⟩ :: spans) (token :: tokens) where
  each := .cons readFrom covers.each
  later := by
    intro span mem
    rcases List.mem_cons.mp mem with rfl | mem
    · exact Nat.le_refl _
    · exact Nat.le_trans (Nat.le_of_lt readFrom.nonempty) (covers.later span mem)
  ordered := .cons covers.later covers.ordered
  between := by
    intro index c reached here outside
    have behind : middle ≤ index := by
      by_contra inside
      exact outside _ (List.mem_cons_self ..) ⟨reached, Nat.lt_of_not_le inside⟩
    rcases covers.between index c behind here fun span mem => outside span (.tail _ mem) with
      blank | ⟨remark, isComment, has, start, apart⟩
    · exact .inl blank
    · refine .inr ⟨remark, isComment, has, Nat.le_trans (Nat.le_of_lt readFrom.nonempty) start, ?_⟩
      intro span mem
      rcases List.mem_cons.mp mem with rfl | mem
      · exact .inl start
      · exact apart span mem

end Covers

end Token

/-- A text read from left to right: `before` is behind, `rest` is what the tokens are read from. -/
inductive Layout : (before rest : List Char) → List Token → Prop
  | finish (before : List Char) : Layout before [] [.eofAt (.behind before)]
  | blank {before rest : List Char} {c : Char} {tokens : List Token} (isBlank : Text.isBlank c)
      (following : Layout (before ++ [c]) rest tokens) : Layout before (c :: rest) tokens
  | comment {before line rest : List Char} {tokens : List Token} (oneLine : '\n' ∉ line)
      (wholeLine : ∀ c ∈ rest.head?, c = '\n')
      (following : Layout (before ++ '/' :: '/' :: line) rest tokens) :
      Layout before ('/' :: '/' :: line ++ rest) tokens
  | token {before part rest : List Char} {kind : Kind} {tokens : List Token} (nonempty : part ≠ [])
      (isEof_eq : kind ≠ .eof) (invalid : kind = .invalid → ∃ c, part = [c] ∧ ¬ Text.isBlank c)
      (following : Layout (before ++ part) rest tokens) :
      Layout before (part ++ rest) (⟨kind, String.ofList part, .behind before⟩ :: tokens)

namespace Layout

variable {before rest : List Char} {tokens : List Token}

/-- The characters of a part, found by their numbers in the whole text. -/
theorem extract_middle (before part rest : List Char) :
    (before ++ (part ++ rest)).extract before.length (before.length + part.length) = part := by
  simp

/-- A comment as the layout has it. -/
theorem isComment {line : List Char} (oneLine : '\n' ∉ line)
    (wholeLine : ∀ c ∈ rest.head?, c = '\n') :
    Span.IsComment ⟨before.length, before.length + ('/' :: '/' :: line).length⟩
      (before ++ ('/' :: '/' :: line ++ rest)) where
  opens := by
    rw [extract_middle]
    exact ⟨line, rfl⟩
  oneLine := by
    rw [extract_middle]
    simp [oneLine]
  wholeLine := by
    cases rest with
    | nil => simp
    | cons c rest =>
      right
      simp [wholeLine c rfl]

/-- Every layout covers its text: one case for each thing that may stand at its front. -/
theorem covers (layout : Layout before rest tokens) :
    ∃ spans body, tokens = body ++ [.eofAt (.behind (before ++ rest))] ∧
      Token.Covers (before ++ rest) before.length spans body := by
  -- By induction from left to right. What is skipped lies between the spans, a token adds the span
  -- of its own characters.
  induction layout with
  | finish before =>
    refine ⟨[], [], by simp, .nil, by simp, .nil, ?_⟩
    intro index c le here
    simp [List.getElem?_eq_none le] at here
  | @blank before rest c tokens isBlank following ih =>
    obtain ⟨spans, body, rfl, covers⟩ := ih
    rw [List.append_assoc] at covers
    refine ⟨spans, body, by simp, covers.skip (by simp) ?_⟩
    intro index d le lt here
    have same : index = before.length := by simp at lt; omega
    subst same
    have : d = c := by simpa [eq_comm] using here
    exact .inl (this ▸ isBlank)
  | @comment before line rest tokens oneLine wholeLine following ih =>
    obtain ⟨spans, body, rfl, covers⟩ := ih
    rw [List.append_assoc] at covers
    refine ⟨spans, body, by simp, covers.skip (by simp) ?_⟩
    intro index d le lt here
    rw [List.length_append] at lt
    exact .inr ⟨_, isComment oneLine wholeLine, ⟨le, lt⟩, Nat.le_refl _, by simp⟩
  | @token before part rest kind tokens nonempty isEof_eq invalid following ih =>
    obtain ⟨spans, body, rfl, covers⟩ := ih
    rw [List.append_assoc, List.length_append] at covers
    refine ⟨_, ⟨kind, String.ofList part, .behind before⟩ :: body, by simp, covers.cons ?_⟩
    constructor
    · have := List.length_pos_of_ne_nil nonempty
      show before.length < before.length + part.length
      omega
    · simp
    · rw [extract_middle]
      simp
    · exact Position.behind_eq_ofIndex_append before _
    · simpa [Token.isEof] using isEof_eq
    · rw [extract_middle]
      exact invalid

/-- What is laid out from the first character on loses nothing. -/
theorem faithful {source : String} (layout : Layout [] source.toList tokens) :
    Token.Faithful source tokens := by
  obtain ⟨spans, body, same, covers⟩ := layout.covers
  refine ⟨spans, body, ?_, covers⟩
  rw [same, List.nil_append, Position.behind_eq_ofIndex]

end Layout

end ImpStack

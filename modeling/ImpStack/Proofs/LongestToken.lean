import ImpStack.Proofs.Lexemes
import ImpStack.Proofs.Replay

/-!
Every token is the longest one that could stand at its place (SPEC_FULL, section 4.1;
`Tokenizer.takes_longest`). At the start of a text and behind every token, every run of blanks and
every comment the longest match of all patterns is taken, and a character at which no pattern
matches is an invalid token of its own. Of a keyword and a word of the same characters the keyword
is taken, but only where the next character does not begin with the first byte of a letter.

Whether a keyword wins is a parameter of the rule, so that the rule as it should be (`Always`) and
the rule as it is (`Ends`) are two cases of it. `LongestTokens` is the rule for a whole text, and
there is one list of tokens for each text that keeps to it (`LongestTokens.unique`).
-/
namespace ImpStack

open String (utf8Len)

namespace Pattern

variable {text part rest : List Char} {pattern other : Pattern} {length : Nat}
  {keywordWins : List Char → Prop}

/-- No pattern matches at the front of the text. -/
def Unmatched (text : List Char) : Prop :=
  ∀ (pattern : Pattern) part rest, text = part ++ rest → ¬ pattern.Matches part

/-- The pattern matches `part` in front of `rest`, and none matches a longer beginning of the two.
Where a keyword matches it, so does a word; `keywordWins` says of `rest` whether the keyword is
taken. -/
structure IsLongest (keywordWins : List Char → Prop) (pattern : Pattern) (part rest : List Char) :
    Prop where
  is_match : pattern.Matches part
  longest : ∀ (other : Pattern) front behind, part ++ rest = front ++ behind →
    other.Matches front → front.length ≤ part.length
  tie : ∀ name, (keyword name).Matches part → (pattern = keyword name ↔ keywordWins rest)

/-- A keyword is taken wherever it matches. -/
def Always (_ : List Char) : Prop := True

/-- A keyword is taken in front of a character whose first byte is not that of a letter beyond
ASCII, and at the end of the text. -/
def Ends (rest : List Char) : Prop := rest.head?.any Text.beginsLikeLetter = false

/-- What is spelled like a keyword is spelled like an identifier. -/
theorem word_matches_keyword (name : Keyword) : word.Matches name.spelling.toList := by
  cases name <;> exact ⟨_, _, rfl, by decide, List.all_eq_true.1 (by decide)⟩

/-- What a pattern matches at the front of a text is no longer than what the search finds. -/
theorem Matches.length_le_longestMatch (match_ : pattern.Matches part) (rest : List Char) :
    part.length ≤ (longestMatch (part ++ rest)).elim 0 Prod.snd := by
  -- The search may pass over a keyword, but not over the word of the same characters.
  obtain ⟨found, isFound, plain⟩ : ∃ found : Pattern, found.Matches part ∧
      ∀ name, found ≠ keyword name := by
    cases pattern with
    | keyword name => exact ⟨word, match_ ▸ word_matches_keyword name, nofun⟩
    | blanks => exact ⟨_, match_, nofun⟩
    | comment => exact ⟨_, match_, nofun⟩
    | float => exact ⟨_, match_, nofun⟩
    | int => exact ⟨_, match_, nofun⟩
    | word => exact ⟨_, match_, nofun⟩
    | symbol sign => exact ⟨_, match_, nofun⟩
  apply Nat.le_trans (isFound.length_le_longest fun name same => absurd same (plain name))
  exact longest_le_longestMatch _ found

/-- Where the search finds nothing no pattern matches, keywords included. -/
theorem unmatched_of_none (nothing : longestMatch text = none) : Unmatched text := by
  rintro pattern part rest rfl match_
  have most := match_.length_le_longestMatch rest
  rw [nothing] at most
  exact match_.ne_nil (List.eq_nil_of_length_eq_zero (Nat.le_zero.mp most))

theorem kind?_eq_keyword_iff {name : Keyword} :
    pattern.kind? = some (.keyword name) ↔ pattern = keyword name := by
  cases pattern <;> simp [kind?]

/-- The search takes the longest match. -/
theorem isLongest_of_longestMatch (best : longestMatch text = some (pattern, length)) :
    ∃ part rest, text = part ++ rest ∧ length = part.length ∧ pattern.IsLongest Ends part rest := by
  obtain ⟨rfl, part, rest, rfl, takes, length_eq⟩ := finds_of_longestMatch best
  refine ⟨part, rest, rfl, length_eq.symm, takes.is_match, ?_, ?_⟩
  · intro other front behind split match_
    have most := match_.length_le_longestMatch behind
    rw [← split, best, ← length_eq] at most
    exact most
  · rintro name rfl
    have apart : Apart name.spelling.toList rest := by
      intro other
      have most := longest_le_longestMatch (name.spelling.toList ++ rest) other
      rw [best, ← length_eq] at most
      exact most
    have front := Piece.front_keyword apart
    have kind_eq : pattern.kind? = some (if rest.head?.any Text.beginsLikeLetter then .identifier
        else .keyword name) := by
      simp only [Piece.front, best] at front
      exact (Piece.mk.inj front).1
    rw [← kind?_eq_keyword_iff, kind_eq, Ends]
    cases rest.head?.any Text.beginsLikeLetter <;> simp

/-! ### At most one longest match -/

theorem not_isDigit_of_isWordStart {c : Char} (start : isWordStart c) : c.isDigit = false := by
  by_contra digit
  rw [Bool.not_eq_false] at digit
  have range : 48 ≤ c.toNat ∧ c.toNat ≤ 57 := by
    simpa [Char.isDigit, UInt32.le_iff_toNat_le] using digit
  have digits : ∀ codePoint < 58, 48 ≤ codePoint → isWordStart (Char.ofNat codePoint) = false := by
    decide +kernel
  have notStart := digits c.toNat (by omega) range.1
  rw [Char.ofNat_toNat] at notStart
  simp [notStart] at start

/-- The pattern that a text is a match of, keywords apart. -/
def ofText : List Char → Option Pattern
  | [] => none
  | c :: rest =>
    if Text.isBlank c then some blanks
    else if c = '/' ∧ rest.head? = some '/' then some comment
    else if c.isDigit then if '.' ∈ rest then some float else some int
    else if isWordStart c then some word
    else (Symbol.all.find? (·.spelling.toList = c :: rest)).map symbol

theorem ofText_digit {c : Char} (digit : c.isDigit) (rest : List Char) :
    ofText (c :: rest) = if '.' ∈ rest then some float else some int := by
  have notBlank : ¬ Text.isBlank c := by
    intro blank
    have outside := not_isInner_of_isBlank blank
    simp [isInner_of_isDigit digit] at outside
  have notSlash : ¬ (c = '/' ∧ rest.head? = some '/') := by
    rintro ⟨rfl, -⟩
    exact absurd digit (by decide)
  rw [ofText, if_neg notBlank, if_neg notSlash, if_pos digit]

/-- A text tells which pattern it is a match of. -/
theorem Matches.ofText_eq (match_ : pattern.Matches part)
    (plain : ∀ name, pattern ≠ keyword name) : ofText part = some pattern := by
  -- The first character decides between the patterns, up to the point that tells a float from an
  -- integer and the second slash of a comment.
  cases pattern with
  | blanks =>
    obtain ⟨c, rest, rfl⟩ := List.exists_cons_of_ne_nil match_.1
    rw [ofText, if_pos (match_.2 c List.mem_cons_self)]
  | comment =>
    obtain ⟨line, rfl, -⟩ := match_
    rfl
  | float =>
    obtain ⟨whole, fraction, rfl, isWhole, -⟩ := match_
    obtain ⟨c, digits, rfl⟩ := List.exists_cons_of_ne_nil isWhole.1
    rw [List.cons_append, ofText_digit (isWhole.2 c List.mem_cons_self), if_pos (by simp)]
  | int =>
    obtain ⟨c, digits, rfl⟩ := List.exists_cons_of_ne_nil match_.1
    have noPoint : '.' ∉ digits := by
      intro point
      exact absurd (match_.2 '.' (List.mem_cons_of_mem _ point)) (by decide)
    rw [ofText_digit (match_.2 c List.mem_cons_self), if_neg noPoint]
  | word =>
    obtain ⟨c, rest, rfl, start, -⟩ := match_
    have notBlank : ¬ Text.isBlank c := by
      intro blank
      have outside := not_isInner_of_isBlank blank
      simp [isInner_of_isWordPart, isWordPart, start] at outside
    have notSlash : ¬ (c = '/' ∧ rest.head? = some '/') := by
      rintro ⟨rfl, -⟩
      exact absurd start (by decide +kernel)
    rw [ofText, if_neg notBlank, if_neg notSlash, not_isDigit_of_isWordStart start,
      if_neg Bool.false_ne_true, if_pos start]
  | keyword name => exact absurd rfl (plain name)
  | symbol sign =>
    obtain rfl := match_
    cases sign <;> decide +kernel

/-- What matches the characters of a keyword is a token. -/
theorem Matches.kind?_ne_none (match_ : pattern.Matches part) {name : Keyword}
    (spelled : (keyword name).Matches part) : pattern.kind? ≠ none := by
  intro skips
  have plain : ∀ name, pattern ≠ keyword name := by
    rintro name rfl
    cases skips
  have isWord : word.Matches part := spelled ▸ word_matches_keyword name
  have found := isWord.ofText_eq nofun
  rw [match_.ofText_eq plain] at found
  obtain rfl := Option.some.inj found
  cases skips

/-- There is one longest match, and one pattern that takes it. -/
theorem IsLongest.unique {otherPart otherRest : List Char}
    (first : pattern.IsLongest keywordWins part rest)
    (second : other.IsLongest keywordWins otherPart otherRest)
    (same : part ++ rest = otherPart ++ otherRest) :
    pattern = other ∧ part = otherPart ∧ rest = otherRest := by
  have lengths : part.length = otherPart.length := by
    apply Nat.le_antisymm
    · exact second.longest pattern part rest same.symm first.is_match
    · exact first.longest other otherPart otherRest same second.is_match
  obtain ⟨rfl, rfl⟩ := List.append_inj same lengths
  refine ⟨?_, rfl, rfl⟩
  by_cases plain : (∀ name, pattern ≠ keyword name) ∧ ∀ name, other ≠ keyword name
  · have found := first.is_match.ofText_eq plain.1
    rw [second.is_match.ofText_eq plain.2] at found
    exact (Option.some.inj found).symm
  -- One of the two is a keyword, and then the rule takes the same side for both.
  · rw [not_and_or, not_forall, not_forall] at plain
    rcases plain with ⟨name, is⟩ | ⟨name, is⟩
    · obtain rfl := not_not.mp is
      exact ((second.tie name first.is_match).mpr ((first.tie name first.is_match).mp rfl)).symm
    · obtain rfl := not_not.mp is
      exact (first.tie name second.is_match).mpr ((second.tie name second.is_match).mp rfl)

theorem IsLongest.not_unmatched (longest : pattern.IsLongest keywordWins part rest) :
    ¬ Unmatched (part ++ rest) :=
  fun unmatched => unmatched pattern part rest rfl longest.is_match

theorem isLongest_of_search (best : longestMatch (part ++ rest) = some (pattern, part.length)) :
    pattern.IsLongest Ends part rest := by
  obtain ⟨found, behind, split, lengths, longest⟩ := isLongest_of_longestMatch best
  obtain ⟨rfl, rfl⟩ := List.append_inj split lengths
  exact longest

end Pattern

/-- The keyword that is spelled like this, if there is one. -/
def Keyword.ofSpelling? (text : String) : Option Keyword := all.find? (·.spelling = text)

theorem Keyword.ofSpelling?_spelling (name : Keyword) : ofSpelling? name.spelling = some name := by
  cases name <;> decide

theorem Keyword.spelling_of_ofSpelling? {text : String} {name : Keyword}
    (found : ofSpelling? text = some name) : name.spelling = text := by
  simpa using List.find?_some found

theorem Keyword.ofSpelling?_singleton (c : Char) : ofSpelling? (String.singleton c) = none := by
  cases found : ofSpelling? (String.singleton c) with
  | none => rfl
  | some name =>
    have lengths := congrArg String.length (spelling_of_ofSpelling? found)
    rw [String.length_singleton] at lengths
    cases name <;> exact absurd lengths (by decide)

/-- The token as a keyword, if it is spelled like one. -/
def Token.asKeyword (token : Token) : Token :=
  match Keyword.ofSpelling? token.lexeme with
  | some name => { token with kind := .keyword name }
  | none => token

/-- A token that is spelled like no keyword, or is one already, stays what it is. -/
theorem Token.asKeyword_eq_self_iff (token : Token) :
    token.asKeyword = token ↔
      ∀ name : Keyword, token.lexeme = name.spelling → token.kind = .keyword name := by
  obtain ⟨kind, lexeme, position⟩ := token
  unfold asKeyword
  cases spelled : Keyword.ofSpelling? lexeme with
  | none =>
    refine iff_of_true rfl ?_
    rintro name rfl
    rw [Keyword.ofSpelling?_spelling] at spelled
    cases spelled
  | some name =>
    obtain rfl := Keyword.spelling_of_ofSpelling? spelled
    constructor
    · intro same other otherSpelled
      rw [show name.spelling = other.spelling from otherSpelled,
        Keyword.ofSpelling?_spelling] at spelled
      rw [Option.some.inj spelled]
      exact (congrArg Token.kind same).symm
    · intro known
      rw [show kind = .keyword name from known name rfl]

theorem Token.map_asKeyword_eq_self_iff (tokens : List Token) :
    tokens = tokens.map asKeyword ↔
      ∀ token ∈ tokens, ∀ name : Keyword, token.lexeme = name.spelling →
        token.kind = .keyword name := by
  induction tokens with
  | nil => simp
  | cons token tokens ih =>
    rw [List.map_cons, List.cons_eq_cons, ih, List.forall_mem_cons, ← asKeyword_eq_self_iff,
      eq_comm]

/-- The tokens of a text of which `before` is behind and `rest` is left: at every place the longest
match is taken, and of a character where there is none an invalid token is made. -/
inductive LongestTokens (keywordWins : List Char → Prop) :
    (before rest : List Char) → List Token → Prop
  | finish (before : List Char) : LongestTokens keywordWins before [] [.eofAt (.behind before)]
  | skip {before part rest : List Char} {pattern : Pattern} {tokens : List Token}
      (skips : pattern.kind? = none) (longest : pattern.IsLongest keywordWins part rest)
      (following : LongestTokens keywordWins (before ++ part) rest tokens) :
      LongestTokens keywordWins before (part ++ rest) tokens
  | token {before part rest : List Char} {pattern : Pattern} {kind : Kind} {tokens : List Token}
      (declares : pattern.kind? = some kind) (longest : pattern.IsLongest keywordWins part rest)
      (following : LongestTokens keywordWins (before ++ part) rest tokens) :
      LongestTokens keywordWins before (part ++ rest)
        (⟨kind, String.ofList part, .behind before⟩ :: tokens)
  | invalid {before rest : List Char} {c : Char} {tokens : List Token}
      (unmatched : Pattern.Unmatched (c :: rest))
      (following : LongestTokens keywordWins (before ++ [c]) rest tokens) :
      LongestTokens keywordWins before (c :: rest)
        (⟨.invalid, String.singleton c, .behind before⟩ :: tokens)

/-- The scanner takes the longest match at every place, and it fails to recognise bytes only of
characters at which no pattern matches. -/
def LongestScan (keywordWins : List Char → Prop) (text : List Char) (raws : List RawSpan) : Prop :=
  ScanWith (Pattern.IsLongest keywordWins)
    (fun start stop => ∀ before c rest, text = before ++ c :: rest →
      start < utf8Len before + c.utf8Size → utf8Len before < stop → Pattern.Unmatched (c :: rest))
    text 0 raws

namespace LongestTokens

variable {before part rest text : List Char} {tokens : List Token}
  {keywordWins : List Char → Prop}

/-! ### The tokens of a text -/

/-- The list of tokens takes the longest match everywhere. -/
theorem listFrom (before rest : List Char) :
    LongestTokens Pattern.Ends before rest (Token.listFrom 0 (.behind before) rest) := by
  match rest with
  | [] => exact .finish before
  | c :: rest =>
    cases best : Pattern.longestMatch (c :: rest) with
    | none =>
      have front : Piece.front ([c] ++ rest) = ⟨some .invalid, [c].length⟩ := by
        simp [Piece.front, best]
      have text_eq : c :: rest = [c] ++ rest := rfl
      rw [text_eq, Token.listFrom_front (List.cons_ne_nil c []) front, Position.foldl_after]
      have following := listFrom (before ++ [c]) rest
      exact .invalid (Pattern.unmatched_of_none best) following
    | some found =>
      obtain ⟨pattern, length⟩ := found
      obtain ⟨part, ahead, split, rfl, longest⟩ := Pattern.isLongest_of_longestMatch best
      have nonempty := longest.is_match.ne_nil
      have front : Piece.front (part ++ ahead) = ⟨pattern.kind?, part.length⟩ := by
        rw [← split]
        simp [Piece.front, best]
      have shorter : ahead.length ≤ rest.length := by
        have lengths := congrArg List.length split
        have := List.length_pos_of_ne_nil nonempty
        simp only [List.length_append, List.length_cons] at lengths
        omega
      have following := listFrom (before ++ part) ahead
      rw [split, Token.listFrom_front nonempty front, Position.foldl_after]
      cases declares : pattern.kind? with
      | none => exact .skip declares longest following
      | some kind => exact .token declares longest following
termination_by rest.length
decreasing_by
  all_goals
    simp only [List.length_cons]
    omega

theorem listOf (source : String) :
    LongestTokens Pattern.Ends [] source.toList (Token.listOf source) := listFrom [] source.toList

/-! ### The tokens of a scanner -/

theorem invalids
    (unmatched : ∀ shorter c later, part = shorter ++ c :: later →
      Pattern.Unmatched (c :: later ++ rest))
    (following : LongestTokens keywordWins (before ++ part) rest tokens) :
    LongestTokens keywordWins before (part ++ rest) (Token.invalids before part ++ tokens) := by
  induction part generalizing before with
  | nil => simpa [Token.invalids] using following
  | cons c part ih =>
    have here := unmatched [] c part rfl
    have notBlank : ¬ Text.isBlank c := by
      intro blank
      refine here .blanks [c] (part ++ rest) rfl ⟨List.cons_ne_nil c [], fun d member => ?_⟩
      obtain rfl := List.mem_singleton.mp member
      exact blank
    unfold Token.invalids
    rw [if_neg notBlank]
    refine .invalid here (ih ?_ (by simpa using following))
    intro shorter d later split
    exact unmatched (c :: shorter) d later (congrArg (c :: ·) split)

/-- A scanner that keeps to the rule yields tokens that do, however it reports what it does not
know. -/
theorem ofScan {source : String} {raws : List RawSpan}
    (scan : LongestScan keywordWins source.toList raws) :
    LongestTokens keywordWins [] source.toList (Tokenizer.ofScan source raws).all := by
  have reaches : Reaches 0 ([] ++ []) := .whole []
  refine @ScanWith.replay source [] [] source.toList raws 0 _ _ _ .finish .skip .token ?_ scan rfl
    reaches (by simp)
  intro start stop before part rest tokens unknown split inside reaches following
  refine following.invalids ?_
  rintro shorter c later rfl
  have within : source.toList = before ++ shorter ++ c :: (later ++ rest) := by
    rw [split]
    simp
  refine unknown (before ++ shorter) c (later ++ rest) within ?_ ?_
  · have := c.utf8Size_pos
    rw [String.utf8Len_append]
    omega
  · exact reaches.shortest (List.append_assoc before shorter (c :: later)).symm

/-! ### The rule determines the tokens -/

theorem cases_of (read : LongestTokens keywordWins before text tokens) :
    (text = [] ∧ tokens = [.eofAt (.behind before)]) ∨
    (∃ (pattern : Pattern) (part rest : List Char) (following : List Token),
      text = part ++ rest ∧ pattern.IsLongest keywordWins part rest ∧
      LongestTokens keywordWins (before ++ part) rest following ∧
      tokens = (pattern.kind?.map fun kind =>
        Token.mk kind (String.ofList part) (.behind before)).toList ++ following) ∨
    ∃ c rest following, text = c :: rest ∧ Pattern.Unmatched text ∧
      LongestTokens keywordWins (before ++ [c]) rest following ∧
      tokens = ⟨.invalid, String.singleton c, .behind before⟩ :: following := by
  cases read with
  | finish => exact .inl ⟨rfl, rfl⟩
  | skip skips longest following =>
    exact .inr (.inl ⟨_, _, _, _, rfl, longest, following, by rw [skips]; rfl⟩)
  | token declares longest following =>
    exact .inr (.inl ⟨_, _, _, _, rfl, longest, following, by rw [declares]; rfl⟩)
  | invalid unmatched following => exact .inr (.inr ⟨_, _, _, rfl, unmatched, following, rfl⟩)

/-- Where there is a longest match, every reading takes it. -/
theorem of_isLongest {pattern : Pattern} (longest : pattern.IsLongest keywordWins part rest)
    (read : LongestTokens keywordWins before (part ++ rest) tokens) :
    ∃ following, LongestTokens keywordWins (before ++ part) rest following ∧
      tokens = (pattern.kind?.map fun kind =>
        Token.mk kind (String.ofList part) (.behind before)).toList ++ following := by
  rcases read.cases_of with ⟨empty, -⟩ | ⟨_, _, _, following, split, taken, later, listed⟩ |
    ⟨c, _, _, _, unmatched, -⟩
  · exact absurd (List.append_eq_nil_iff.mp empty).1 longest.is_match.ne_nil
  · obtain ⟨rfl, rfl, rfl⟩ := longest.unique taken split
    exact ⟨following, later, listed⟩
  · exact absurd unmatched longest.not_unmatched

/-- The rule leaves no choice. -/
theorem unique {other : List Token} (read : LongestTokens keywordWins before text tokens)
    (again : LongestTokens keywordWins before text other) : tokens = other := by
  induction read generalizing other with
  | finish before =>
    rcases again.cases_of with ⟨-, rfl⟩ | ⟨_, _, _, _, split, longest, -⟩ | ⟨_, _, _, split, -⟩
    · rfl
    · exact absurd (List.append_eq_nil_iff.mp split.symm).1 longest.is_match.ne_nil
    · cases split
  | skip skips longest following ih =>
    obtain ⟨_, later, rfl⟩ := again.of_isLongest longest
    rw [ih later, skips]
    rfl
  | token declares longest following ih =>
    obtain ⟨_, later, rfl⟩ := again.of_isLongest longest
    rw [ih later, declares]
    rfl
  | invalid unmatched following ih =>
    rcases again.cases_of with ⟨split, -⟩ | ⟨_, _, _, _, split, longest, -⟩ |
      ⟨_, _, _, split, -, later, rfl⟩
    · cases split
    · exact absurd (split ▸ unmatched) longest.not_unmatched
    · obtain ⟨rfl, rfl⟩ := List.cons.inj split
      rw [ih later]

theorem eq_iff (read : LongestTokens keywordWins before text tokens) (other : List Token) :
    LongestTokens keywordWins before text other ↔ other = tokens := by
  constructor
  · intro again
    exact again.unique read
  · rintro rfl
    exact read

/-- Taking a keyword wherever it matches changes the kinds of the words that are spelled like one,
and nothing else. -/
theorem always (read : LongestTokens Pattern.Ends before rest tokens) :
    LongestTokens Pattern.Always before rest (tokens.map Token.asKeyword) := by
  -- By induction on the reading: a keyword matches a token that it spells just as far, and no other
  -- token is matched by one.
  induction read with
  | finish before => exact .finish before
  | skip skips longest following ih =>
    refine .skip skips ⟨longest.is_match, longest.longest, fun name match_ => ?_⟩ ih
    exact absurd skips (longest.is_match.kind?_ne_none match_)
  | @token before part rest pattern kind tokens declares longest following ih =>
    rw [List.map_cons, Token.asKeyword]
    cases spelled : Keyword.ofSpelling? (String.ofList part) with
    | none =>
      refine .token declares ⟨longest.is_match, longest.longest, fun name match_ => ?_⟩ ih
      rw [show part = name.spelling.toList from match_, String.ofList_toList,
        Keyword.ofSpelling?_spelling] at spelled
      cases spelled
    | some name =>
      have match_ : (Pattern.keyword name).Matches part := by
        rw [Pattern.Matches, Keyword.spelling_of_ofSpelling? spelled, String.toList_ofList]
      refine .token rfl ⟨match_, longest.longest, fun other otherMatch => ?_⟩ ih
      rw [show part = other.spelling.toList from otherMatch, String.ofList_toList,
        Keyword.ofSpelling?_spelling] at spelled
      exact iff_of_true (congrArg _ (Option.some.inj spelled).symm) trivial
  | @invalid before rest c tokens unmatched following ih =>
    rw [List.map_cons, Token.asKeyword, Keyword.ofSpelling?_singleton]
    exact .invalid unmatched ih

end LongestTokens

/-- Of every text there is one list of tokens by the rule of the longest match, and it is the list
that is read, if a keyword counts only where it ends: in front of a character whose first byte is
that of a letter beyond ASCII the word is taken. If a keyword always counts, the words that are
spelled like one become keywords, so that the rule yields what is read exactly if there are none. A
scanner that follows the rule, and fails to recognise no more than characters without a match, in
portions of any bytes, yields the list of its rule. -/
theorem Tokenizer.takes_longest (source : String) :
    (∀ tokens, LongestTokens Pattern.Ends [] source.toList tokens ↔
      tokens = Token.listOf source) ∧
    (∀ tokens, LongestTokens Pattern.Always [] source.toList tokens ↔
      tokens = (Token.listOf source).map Token.asKeyword) ∧
    (LongestTokens Pattern.Always [] source.toList (Token.listOf source) ↔
      ∀ token ∈ Token.listOf source, ∀ name : Keyword, token.lexeme = name.spelling →
        token.kind = .keyword name) ∧
    ∀ keywordWins raws, LongestScan keywordWins source.toList raws →
      ∀ tokens, LongestTokens keywordWins [] source.toList tokens ↔
        tokens = (ofScan source raws).all := by
  have listed := LongestTokens.listOf source
  refine ⟨listed.eq_iff, listed.always.eq_iff, ?_, ?_⟩
  · rw [listed.always.eq_iff, Token.map_asKeyword_eq_self_iff]
  · intro keywordWins raws scan
    exact (LongestTokens.ofScan scan).eq_iff

/-- The euro sign, which begins like a letter and is none, is reported in two parts. -/
theorem LongestScan.cut_euro :
    LongestScan Pattern.Ends "if€".toList
      [⟨some .identifier, 0, 2⟩, ⟨none, 2, 3⟩, ⟨none, 3, 5⟩] := by
  have longest : Pattern.word.IsLongest Pattern.Ends ['i', 'f'] ['€'] :=
    Pattern.isLongest_of_search (by decide +kernel)
  have unknown : ∀ before c rest, ['i', 'f', '€'] = before ++ c :: rest →
      2 < utf8Len before + c.utf8Size → Pattern.Unmatched (c :: rest) := by
    intro before c rest split behind
    match before with
    | [] =>
      cases split
      exact absurd behind (by decide)
    | [_] =>
      cases split
      exact absurd behind (by decide)
    | [_, _] =>
      cases split
      exact Pattern.unmatched_of_none (by decide +kernel)
    | _ :: _ :: _ :: before => simp at split
  refine @ScanWith.token _ _ _ [] ['i', 'f'] ['€'] .word .identifier _ rfl rfl longest ?_
  refine .unknown (by decide) (by decide) ?_ (.unknown (by decide) (by decide) ?_ .finish)
  · intro before c rest split behind _
    exact unknown before c rest split behind
  · intro before c rest split behind _
    exact unknown before c rest split (Nat.lt_of_succ_lt behind)

theorem Tokenizer.takes_longest_cut :
    LongestScan Pattern.Ends "if€".toList
        [⟨some .identifier, 0, 2⟩, ⟨none, 2, 3⟩, ⟨none, 3, 5⟩] ∧
      (ofScan "if€" [⟨some .identifier, 0, 2⟩, ⟨none, 2, 3⟩, ⟨none, 3, 5⟩]).all =
        Token.listOf "if€" := by
  obtain ⟨read, -, -, scanned⟩ := takes_longest "if€"
  refine ⟨LongestScan.cut_euro, ?_⟩
  exact (read _).mp ((scanned _ _ LongestScan.cut_euro _).mpr rfl)

/-- In front of an em space, whose first byte is that of letters, a keyword is read as a word. -/
theorem Tokenizer.keyword_before_em_space :
    Token.listOf "if\u2003(x)" =
      [⟨.identifier, "if", ⟨1, 1⟩⟩, ⟨.symbol .leftParen, "(", ⟨1, 4⟩⟩,
        ⟨.identifier, "x", ⟨1, 5⟩⟩, ⟨.symbol .rightParen, ")", ⟨1, 6⟩⟩, .eofAt ⟨1, 7⟩] ∧
    LongestTokens Pattern.Always [] "if\u2003(x)".toList
      [⟨.keyword .if_, "if", ⟨1, 1⟩⟩, ⟨.symbol .leftParen, "(", ⟨1, 4⟩⟩,
        ⟨.identifier, "x", ⟨1, 5⟩⟩, ⟨.symbol .rightParen, ")", ⟨1, 6⟩⟩, .eofAt ⟨1, 7⟩] ∧
    ¬ LongestTokens Pattern.Always [] "if\u2003(x)".toList (Token.listOf "if\u2003(x)") := by
  have always := (LongestTokens.listOf "if\u2003(x)").always
  refine ⟨by decide +kernel, ?_, ?_⟩
  · rw [always.eq_iff]
    decide +kernel
  · rw [always.eq_iff]
    decide +kernel

end ImpStack

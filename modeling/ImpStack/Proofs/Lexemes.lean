import ImpStack.Proofs.LongestMatch

/-!
What a lexeme is read as, by what follows it (SPEC_FULL, section 4.1). No token goes on over a blank
or into a comment (`Pattern.IsLexeme.apart`), so that behind a lexeme nothing but the first byte of
the next character matters, and that only to a lexeme that is spelled like a keyword
(`Piece.front_eq_of_apart`, `Piece.front_keyword`).
-/
namespace ImpStack

/-! ### Blanks inside tokens -/

namespace Text

/-- The separators between tokens, by their code points. -/
def blankCodePoints : List Nat :=
  [0x20, 0x9, 0xA, 0xB, 0xC, 0xD, 0x1C, 0x1D, 0x1E, 0x1F, 0x1680, 0x2000, 0x2001, 0x2002, 0x2003,
   0x2004, 0x2005, 0x2006, 0x2008, 0x2009, 0x200A, 0x2028, 0x2029, 0x205F, 0x3000]

/-- There are no other separators. -/
theorem toNat_mem_of_isBlank {c : Char} (blank : isBlank c) : c.toNat ∈ blankCodePoints := by
  simp only [isBlank, ↓Char.isValue, ← Char.toNat_inj, Char.reduceToNat, Char.le_def,
    Char.reduceVal, UInt32.le_iff_toNat_le, UInt32.reduceToNat, Char.toNat_val, Bool.or_eq_true,
    decide_eq_true_eq, Bool.and_eq_true] at blank
  simp only [blankCodePoints, List.mem_cons, List.not_mem_nil, or_false]
  omega

end Text

namespace Pattern

variable {part rest text : List Char} {c : Char} {pattern : Pattern} {kind : Kind} {length : Nat}

/-- The characters that tokens have behind their first one. -/
def isInner (c : Char) : Bool := isWordPart c || c = '.' || c = '='

/-- No separator stands inside of a token. -/
theorem not_isInner_of_isBlank (blank : Text.isBlank c) : isInner c = false := by
  have all : ∀ codePoint ∈ Text.blankCodePoints, isInner (Char.ofNat codePoint) = false := by
    decide +kernel
  simpa using all _ (Text.toNat_mem_of_isBlank blank)

theorem isInner_of_isDigit (digit : c.isDigit) : isInner c = true := by
  have ascii : c.val < 0x80 := by
    have := (Bool.and_eq_true_iff.mp digit).2
    simp only [decide_eq_true_eq, UInt32.le_iff_toNat_le, UInt32.lt_iff_toNat_lt] at this ⊢
    exact Nat.lt_of_le_of_lt this (by decide)
  simp [isInner, isWordPart, Text.isDecimalDigit, ascii, digit]

theorem isInner_of_isWordPart (inside : isWordPart c) : isInner c = true := by
  simp [isInner, inside]

/-- Behind its first character a token has letters, digits, points and equals signs only. -/
theorem Matches.isInner_of_mem_tail (match_ : pattern.Matches part)
    (declares : pattern.kind? = some kind) : ∀ c ∈ part.tail, isInner c = true := by
  intro c mem
  cases pattern with
  | blanks => nomatch declares
  | comment => nomatch declares
  | float =>
    obtain ⟨whole, fraction, rfl, first, last⟩ := match_
    rcases List.mem_append.mp (List.mem_of_mem_tail mem) with digit | mem
    · exact isInner_of_isDigit (first.2 c digit)
    · rcases List.mem_cons.mp mem with rfl | digit
      · decide
      · exact isInner_of_isDigit (last.2 c digit)
  | int => exact isInner_of_isDigit (match_.2 c (List.mem_of_mem_tail mem))
  | word =>
    obtain ⟨_, letters, rfl, _, inside⟩ := match_
    exact isInner_of_isWordPart (inside c mem)
  | keyword name =>
    obtain rfl := match_
    have letters : name.spelling.toList.tail.all isInner = true := by cases name <;> decide
    exact List.all_eq_true.mp letters c mem
  | symbol sign =>
    obtain rfl := match_
    have signs : sign.spelling.toList.tail.all isInner = true := by cases sign <;> decide
    exact List.all_eq_true.mp signs c mem

/-- No token begins with a separator. -/
theorem Matches.not_isBlank_head (match_ : pattern.Matches (c :: rest))
    (declares : pattern.kind? = some kind) : ¬ Text.isBlank c := by
  intro blank
  have outside := not_isInner_of_isBlank blank
  cases pattern with
  | blanks => nomatch declares
  | comment => nomatch declares
  | float =>
    obtain ⟨whole, fraction, split, first, _⟩ := match_
    obtain ⟨d, digits, rfl⟩ := List.exists_cons_of_ne_nil first.1
    obtain ⟨rfl, -⟩ := List.cons.inj split
    simp [isInner_of_isDigit (first.2 c (List.mem_cons_self ..))] at outside
  | int => simp [isInner_of_isDigit (match_.2 c (List.mem_cons_self ..))] at outside
  | word =>
    obtain ⟨_, _, split, start, _⟩ := match_
    obtain ⟨rfl, -⟩ := List.cons.inj split
    have inside : isWordPart c = true := by simp [isWordPart, start]
    simp [isInner_of_isWordPart inside] at outside
  | keyword name =>
    have letters : name.spelling.toList.any Text.isBlank = false := by cases name <;> decide
    exact List.any_eq_false.mp letters c (match_ ▸ List.mem_cons_self ..) blank
  | symbol sign =>
    have signs : sign.spelling.toList.any Text.isBlank = false := by cases sign <;> decide
    exact List.any_eq_false.mp signs c (match_ ▸ List.mem_cons_self ..) blank

/-! ### Where blanks and comments begin -/

theorem eq_blanks_of_matches (match_ : pattern.Matches (c :: rest)) (blank : Text.isBlank c) :
    pattern = blanks := by
  cases declares : pattern.kind? with
  | some kind => exact absurd blank (match_.not_isBlank_head declares)
  | none =>
    cases pattern with
    | blanks => rfl
    | comment =>
      obtain ⟨line, split, -⟩ := match_
      obtain ⟨rfl, -⟩ := List.cons.inj split
      exact absurd blank (by decide)
    | _ => nomatch declares

/-- What two slashes begin is a comment. -/
theorem eq_comment_of_matches (match_ : pattern.Matches ('/' :: '/' :: rest)) :
    pattern = comment := by
  cases declares : pattern.kind? with
  | some kind =>
    have inside := match_.isInner_of_mem_tail declares '/' (List.mem_cons_self ..)
    exact absurd inside (by decide)
  | none =>
    cases pattern with
    | blanks => exact absurd (match_.2 '/' (List.mem_cons_self ..)) (by decide)
    | comment => rfl
    | _ => nomatch declares

/-- A run of blanks is passed over as a whole. -/
theorem longestMatch_blank (blank : Text.isBlank c) (rest : List Char) :
    longestMatch (c :: rest) = some (blanks, runLength Text.isBlank (c :: rest)) := by
  refine longestMatch_eq_of_unique blanks (by simp [longest, runLength, blank]) ?_
  intro other part behind split match_ _
  obtain ⟨d, part, rfl⟩ := List.exists_cons_of_ne_nil match_.ne_nil
  obtain ⟨rfl, -⟩ := List.cons.inj split
  exact eq_blanks_of_matches match_ blank

/-- A comment is passed over up to the end of its line. -/
theorem longestMatch_comment (rest : List Char) :
    longestMatch ('/' :: '/' :: rest) = some (comment, 2 + runLength (· ≠ '\n') rest) := by
  refine longestMatch_eq_of_unique comment ?_ ?_
  · exact Nat.lt_add_right _ Nat.two_pos
  · intro other part behind text_eq match_ long
    have two : 2 ≤ part.length := Nat.le_trans (Nat.le_add_right _ _) long
    match part, two with
    | first :: second :: part, _ =>
      simp only [List.cons_append, List.cons.injEq] at text_eq
      obtain ⟨rfl, rfl, -⟩ := text_eq
      exact eq_comment_of_matches match_

/-! ### Lexemes and what follows them -/

/-- Neither blanks nor a comment begin the text. -/
structure IsLexeme (part : List Char) : Prop where
  nonempty : part ≠ []
  notBlank : ∀ c ∈ part.head?, ¬ Text.isBlank c
  notComment : ¬ ['/', '/'] <+: part

/-- What follows begins with a blank or with a comment that the lexeme does not change, or there is
nothing behind. -/
def Closes (rest part : List Char) : Prop :=
  ∀ c ∈ rest.head?, Text.isBlank c ∨ c = '/' ∧ part ≠ ['/']

/-- The lexeme and what follows share no match. -/
def Apart (part rest : List Char) : Prop :=
  ∀ pattern : Pattern, pattern.longest (part ++ rest) ≤ part.length

/-- No pattern matches a lexeme together with a blank or a comment behind it. -/
theorem not_matches_across (lexeme : IsLexeme part) {more : List Char}
    (closes : Text.isBlank c ∨ c = '/' ∧ part ≠ ['/']) : ¬ pattern.Matches (part ++ c :: more) := by
  intro match_
  obtain ⟨first, letters, rfl⟩ := List.exists_cons_of_ne_nil lexeme.nonempty
  have outside : isInner c = false := by
    rcases closes with blank | ⟨rfl, -⟩
    · exact not_isInner_of_isBlank blank
    · decide
  cases declares : pattern.kind? with
  | some kind =>
    have inside := match_.isInner_of_mem_tail declares c (by simp)
    simp [outside] at inside
  | none =>
    cases pattern with
    | blanks => exact lexeme.notBlank first rfl (match_.2 first (List.mem_cons_self ..))
    | comment =>
      obtain ⟨line, opens, -⟩ := match_
      cases letters with
      | nil =>
        simp only [List.cons_append, List.nil_append, List.cons.injEq] at opens
        obtain ⟨rfl, rfl, -⟩ := opens
        rcases closes with blank | ⟨-, other⟩
        · exact absurd blank (by decide)
        · exact other rfl
      | cons second letters =>
        simp only [List.cons_append, List.cons.injEq] at opens
        obtain ⟨rfl, rfl, -⟩ := opens
        exact lexeme.notComment ⟨letters, rfl⟩
    | _ => nomatch declares

/-- A lexeme is read for itself if something closes it. -/
theorem IsLexeme.apart (lexeme : IsLexeme part) (closes : Closes rest part) : Apart part rest := by
  intro pattern
  by_contra longer
  obtain ⟨found, behind, text_eq, takes, length_eq⟩ :=
    finds_of_longest_pos (Nat.zero_lt_of_lt (Nat.lt_of_not_le longer))
  rw [← length_eq] at longer
  rcases List.append_eq_append_iff.mp text_eq with ⟨more, rfl, rfl⟩ | ⟨more, rfl, -⟩
  · cases more with
    | nil => simp at longer
    | cons c more => exact not_matches_across lexeme (closes c rfl) takes.is_match
  · simp at longer

/-- A match that ends inside of what stays is found again, whatever comes behind that. -/
theorem Matches.length_le_longest_of_pos (match_ : pattern.Matches part) {middle : List Char}
    (behind : List Char) (found : 0 < pattern.longest (part ++ (middle ++ rest)))
    (further : ∀ name, pattern = keyword name → middle ≠ []) :
    part.length ≤ pattern.longest (part ++ (middle ++ behind)) := by
  refine match_.length_le_longest ?_
  rintro name rfl
  obtain ⟨c, middle, rfl⟩ := List.exists_cons_of_ne_nil (further name rfl)
  obtain rfl := match_
  simpa using ends_of_longest_pos found

/-- What the search finds does not depend on what follows, apart from a keyword that ends there. -/
theorem Apart.longest_eq (apart : Apart part rest)
    (other : ∀ name, pattern = keyword name → name.spelling.toList ≠ part) :
    pattern.longest (part ++ rest) = pattern.longest part := by
  have further : ∀ {front middle}, part = front ++ middle → pattern.Matches front →
      ∀ name, pattern = keyword name → middle ≠ [] := by
    rintro front middle rfl match_ name rfl rfl
    exact other name rfl (by simpa using match_.symm)
  -- Both texts begin with the same match: by hypothesis none goes beyond the part, and one inside
  -- it is found again in front of anything.
  apply Nat.le_antisymm
  · by_contra longer
    have found := Nat.zero_lt_of_lt (Nat.lt_of_not_le longer)
    obtain ⟨front, behind, text_eq, takes, length_eq⟩ := finds_of_longest_pos found
    obtain ⟨middle, rfl⟩ : front <+: part :=
      List.prefix_of_prefix_length_le ⟨behind, text_eq.symm⟩ ⟨rest, rfl⟩ (length_eq ▸ apart pattern)
    rw [List.append_assoc] at found
    have again := takes.is_match.length_le_longest_of_pos [] found
      (further rfl takes.is_match)
    rw [List.append_nil, length_eq] at again
    exact longer again
  · by_contra longer
    have found := Nat.zero_lt_of_lt (Nat.lt_of_not_le longer)
    obtain ⟨front, middle, rfl, takes, length_eq⟩ := finds_of_longest_pos found
    rw [← List.append_nil middle] at found
    have again := takes.is_match.length_le_longest_of_pos rest found
      (further rfl takes.is_match)
    rw [← List.append_assoc, length_eq] at again
    exact longer again

/-- Two texts behind a lexeme that begin alike make no difference to it. -/
theorem Apart.longestMatch_eq {other : List Char} (apart : Apart part rest)
    (otherApart : Apart part other)
    (same : ∀ name : Keyword, name.spelling.toList = part →
      rest.head?.any Text.beginsLikeLetter = other.head?.any Text.beginsLikeLetter) :
    longestMatch (part ++ rest) = longestMatch (part ++ other) := by
  refine longestMatch_congr fun pattern => ?_
  by_cases spelled : ∃ name, pattern = keyword name ∧ name.spelling.toList = part
  · obtain ⟨name, rfl, rfl⟩ := spelled
    rw [longest_keyword, longest_keyword, same name rfl]
  · have differs : ∀ name, pattern = keyword name → name.spelling.toList ≠ part :=
      fun name isKeyword is => spelled ⟨name, isKeyword, is⟩
    rw [apart.longest_eq differs, otherApart.longest_eq differs]

end Pattern

open Pattern

variable {part rest : List Char} {kind : Kind}

/-- What is read as a token begins like none of the separators, and no other match is longer. -/
theorem Piece.isLexeme_of_front (nonempty : part ≠ [])
    (front : Piece.front (part ++ rest) = ⟨some kind, part.length⟩) :
    IsLexeme part ∧ Apart part rest := by
  unfold Piece.front at front
  split at front
  · next pattern length best =>
    simp only [Piece.mk.injEq] at front
    obtain ⟨declares, rfl⟩ := front
    obtain ⟨same, found, behind, text_eq, takes, length_eq⟩ := finds_of_longestMatch best
    obtain ⟨rfl, rfl⟩ := List.append_inj text_eq (same.trans length_eq.symm)
    refine ⟨⟨nonempty, ?_, ?_⟩, fun pattern => ?_⟩
    · intro c head
      obtain ⟨letters, rfl⟩ := List.head?_eq_some_iff.mp head
      exact takes.is_match.not_isBlank_head declares
    · rintro ⟨letters, rfl⟩
      rw [eq_comment_of_matches takes.is_match] at declares
      nomatch declares
    · have most := longest_le_longestMatch (part ++ rest) pattern
      rwa [best] at most
  · next nothing =>
    simp only [Piece.mk.injEq] at front
    obtain ⟨-, single⟩ := front
    obtain ⟨c, rfl⟩ := List.length_eq_one_iff.mp single.symm
    refine ⟨⟨nonempty, ?_, by simp⟩, fun pattern => ?_⟩
    · rintro _ ⟨⟩
      simp [not_isBlank_of_none nothing]
    · rw [longest_eq_zero_of_none nothing]
      exact Nat.zero_le _

/-- A lexeme that spells no keyword is read alike in front of everything that does not belong to
it. -/
theorem Piece.front_eq_of_apart {other : List Char} (apart : Apart part rest)
    (otherApart : Apart part other)
    (plain : ∀ name : Keyword, name.spelling.toList ≠ part) :
    Piece.front (part ++ other) = Piece.front (part ++ rest) := by
  unfold Piece.front
  rw [otherApart.longestMatch_eq apart fun name is => absurd is (plain name)]

/-- What the spelling of a keyword is read as. -/
theorem Piece.front_keyword {name : Keyword} (apart : Apart name.spelling.toList rest) :
    Piece.front (name.spelling.toList ++ rest) =
      ⟨some (if rest.head?.any Text.beginsLikeLetter then .identifier else .keyword name),
        name.spelling.toList.length⟩ := by
  have isLexeme : IsLexeme name.spelling.toList := by
    refine ⟨by cases name <;> decide, ?_, by cases name <;> decide⟩
    intro c head
    cases name <;> cases head <;> decide
  cases letter : rest.head?.any Text.beginsLikeLetter with
  | true =>
    have otherApart : Apart name.spelling.toList [' '] :=
      isLexeme.apart fun c head => .inl (by cases head; decide)
    have same := apart.longestMatch_eq otherApart fun _ _ => letter.trans (by decide +kernel)
    unfold Piece.front
    rw [same]
    cases name <;> decide +kernel
  | false =>
    have otherApart : Apart name.spelling.toList [] := isLexeme.apart nofun
    have same := apart.longestMatch_eq otherApart fun _ _ => letter
    unfold Piece.front
    rw [same]
    cases name <;> decide +kernel

end ImpStack

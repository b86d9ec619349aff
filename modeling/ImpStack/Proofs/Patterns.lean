import Mathlib.Data.List.Basic
import ImpStack.Token.Lexer

/-!
What the patterns declare (SPEC_FULL, section 4.1), apart from how they are searched: a pattern
matches a text as a whole or it does not (`Matches`). The search is sound: what it finds at the
front of a text is a match of the pattern that it names (`finds_of_longestMatch`).
-/
namespace ImpStack.Pattern

variable {text : List Char} {pattern : Pattern} {length : Nat}

/-- One digit or more. -/
def IsDigits (part : List Char) : Prop := part ≠ [] ∧ ∀ c ∈ part, c.isDigit

/-- The texts that the pattern declares. -/
def Matches : Pattern → List Char → Prop
  | blanks, part => part ≠ [] ∧ ∀ c ∈ part, Text.isBlank c
  | comment, part => ∃ line, part = '/' :: '/' :: line ∧ '\n' ∉ line
  | float, part =>
    ∃ whole fraction, part = whole ++ '.' :: fraction ∧ IsDigits whole ∧ IsDigits fraction
  | int, part => IsDigits part
  | word, part => ∃ c rest, part = c :: rest ∧ isWordStart c ∧ ∀ c ∈ rest, isWordPart c
  | keyword name, part => part = name.spelling.toList
  | symbol sign, part => part = sign.spelling.toList

theorem Matches.ne_nil {part : List Char} (match_ : pattern.Matches part) : part ≠ [] := by
  cases pattern with
  | blanks => exact match_.1
  | comment => obtain ⟨line, rfl, -⟩ := match_; simp
  | float => obtain ⟨whole, fraction, rfl, -⟩ := match_; simp
  | int => exact match_.1
  | word => obtain ⟨c, rest, rfl, -⟩ := match_; simp
  | keyword name => cases match_; cases name <;> decide
  | symbol sign => cases match_; cases sign <;> decide

/-- What a pattern takes from the front of a text, and what it leaves. A comment leaves at most the
line feed of its line and what is behind. -/
structure Takes (pattern : Pattern) (part rest : List Char) : Prop where
  is_match : pattern.Matches part
  wholeLine : pattern = comment → ∀ c ∈ rest.head?, c = '\n'

theorem mem_takeWhile {holds : Char → Bool} {c : Char} (mem : c ∈ text.takeWhile holds) :
    holds c = true :=
  List.all_eq_true.mp List.all_takeWhile c mem

theorem head_dropWhile {holds : Char → Bool} {c : Char} (head : c ∈ (text.dropWhile holds).head?) :
    holds c = false := by
  have stopped := List.head?_dropWhile_not holds text
  rw [Option.mem_def.mp head] at stopped
  simpa using stopped

theorem isDigits_takeWhile (found : runLength Char.isDigit text ≠ 0) :
    IsDigits (text.takeWhile Char.isDigit) :=
  ⟨List.ne_nil_of_length_pos (Nat.pos_of_ne_zero found), fun _ => mem_takeWhile⟩

/-- Behind a run stands the first character that does not belong to it. -/
theorem drop_runLength (holds : Char → Bool) (text : List Char) :
    text.drop (runLength holds text) = text.dropWhile holds := by
  unfold runLength
  nth_rewrite 2 [← List.takeWhile_append_dropWhile (p := holds) (l := text)]
  exact List.drop_left

/-- The text begins with a match of the length that the search says. -/
def Finds (pattern : Pattern) (text : List Char) : Prop :=
  ∃ part rest, text = part ++ rest ∧ pattern.Takes part rest ∧ part.length = pattern.longest text

theorem finds_blanks (found : 0 < longest blanks text) : Finds blanks text :=
  ⟨text.takeWhile Text.isBlank, text.dropWhile Text.isBlank, by simp,
    ⟨⟨List.ne_nil_of_length_pos found, fun _ => mem_takeWhile⟩, nofun⟩, rfl⟩

theorem opens_comment (found : 0 < longest comment text) : ∃ rest, text = '/' :: '/' :: rest := by
  unfold longest at found
  split at found
  case h_2 _ _ rest _ => exact ⟨rest, rfl⟩
  all_goals simp_all

theorem finds_comment (found : 0 < longest comment text) : Finds comment text := by
  obtain ⟨rest, rfl⟩ := opens_comment found
  refine ⟨'/' :: '/' :: rest.takeWhile (· ≠ '\n'), rest.dropWhile (· ≠ '\n'), by simp, ?_, ?_⟩
  · constructor
    · refine ⟨_, rfl, fun feed => ?_⟩
      simpa using mem_takeWhile feed
    · intro _ c head
      simpa using head_dropWhile head
  · simp only [longest, runLength, List.length_cons]
    omega

theorem finds_float (found : 0 < longest float text) : Finds float text := by
  simp only [longest, floatLength, drop_runLength] at found
  split at found
  · next rest point =>
    split at found
    · simp at found
    · next present =>
      obtain ⟨whole, fraction⟩ := not_or.mp present
      refine ⟨text.takeWhile Char.isDigit ++ '.' :: rest.takeWhile Char.isDigit,
        rest.dropWhile Char.isDigit, ?_, ?_, ?_⟩
      · simp [← point]
      · exact ⟨⟨_, _, rfl, isDigits_takeWhile whole, isDigits_takeWhile fraction⟩, nofun⟩
      · simp only [longest, floatLength, drop_runLength, point, if_neg present]
        simp only [runLength, List.length_append, List.length_cons]
        omega
  · simp at found

theorem finds_int (found : 0 < longest int text) : Finds int text :=
  ⟨text.takeWhile Char.isDigit, text.dropWhile Char.isDigit, by simp,
    ⟨isDigits_takeWhile (Nat.pos_iff_ne_zero.mp found), nofun⟩, rfl⟩

theorem finds_word (found : 0 < longest word text) : Finds word text := by
  cases text with
  | nil => simp [longest] at found
  | cons c rest =>
    by_cases starts : isWordStart c
    · refine ⟨c :: rest.takeWhile isWordPart, rest.dropWhile isWordPart, by simp, ?_, ?_⟩
      · exact ⟨⟨c, _, rfl, starts, fun _ => mem_takeWhile⟩, nofun⟩
      · simp [longest, starts, runLength, Nat.add_comm]
    · simp [longest, starts] at found

theorem finds_keyword {name : Keyword} (found : 0 < longest (keyword name) text) :
    Finds (keyword name) text := by
  simp only [longest, keywordLength] at found
  split at found
  · next ends =>
    have front := (Bool.and_eq_true_iff.mp ends).1
    obtain ⟨rest, rfl⟩ := List.isPrefixOf_iff_prefix.mp front
    refine ⟨name.spelling.toList, rest, rfl, ⟨rfl, nofun⟩, ?_⟩
    simp only [longest, keywordLength, if_pos ends, String.length_toList]
  · simp at found

theorem finds_symbol {sign : Symbol} (found : 0 < longest (symbol sign) text) :
    Finds (symbol sign) text := by
  simp only [longest, spelledLength] at found
  split at found
  · next front =>
    obtain ⟨rest, rfl⟩ := List.isPrefixOf_iff_prefix.mp front
    refine ⟨sign.spelling.toList, rest, rfl, ⟨rfl, nofun⟩, ?_⟩
    simp only [longest, spelledLength, if_pos front, String.length_toList]
  · simp at found

/-- The search is sound, pattern by pattern. -/
theorem finds_of_longest_pos (found : 0 < pattern.longest text) : pattern.Finds text := by
  cases pattern with
  | blanks => exact finds_blanks found
  | comment => exact finds_comment found
  | float => exact finds_float found
  | int => exact finds_int found
  | word => exact finds_word found
  | keyword name => exact finds_keyword found
  | symbol sign => exact finds_symbol found

theorem mem_table (pattern : Pattern) : pattern ∈ table := by
  cases pattern with
  | keyword name => simp [table, Keyword.mem_all]
  | symbol sign => simp [table, Symbol.mem_all]
  | _ => simp [table]

/-- What holds of the best match so far: a pattern of the ones searched, with its match. -/
theorem longest_of_foldl_better {patterns : List Pattern} {best : Option (Pattern × Nat)}
    (start : ∀ pattern length, best = some (pattern, length) →
      length = pattern.longest text ∧ 0 < length) :
    ∀ pattern length, patterns.foldl (better text) best = some (pattern, length) →
      length = pattern.longest text ∧ 0 < length := by
  induction patterns generalizing best with
  | nil => exact start
  | cons next patterns ih =>
    refine ih fun pattern length improved => ?_
    unfold better at improved
    split at improved
    · next longer =>
      cases improved
      exact ⟨rfl, Nat.lt_of_le_of_lt (Nat.zero_le _) longer⟩
    · exact start pattern length improved

/-- The winner has a match of its length at the front of the text. -/
theorem finds_of_longestMatch (best : longestMatch text = some (pattern, length)) :
    length = pattern.longest text ∧ pattern.Finds text := by
  obtain ⟨same, found⟩ := longest_of_foldl_better (by simp) pattern length best
  exact ⟨same, finds_of_longest_pos (same ▸ found)⟩

/-- If some pattern matches, one of them wins. -/
theorem foldl_better_ne_none {patterns : List Pattern} {best : Option (Pattern × Nat)}
    (hit : best ≠ none ∨ ∃ pattern ∈ patterns, 0 < pattern.longest text) :
    patterns.foldl (better text) best ≠ none := by
  induction patterns generalizing best with
  | nil => simpa using hit
  | cons next patterns ih =>
    refine ih ?_
    rcases hit with found | ⟨pattern, mem, found⟩
    · left
      unfold better
      split
      · nofun
      · exact found
    · cases List.mem_cons.mp mem with
      | inl here =>
        left
        cases best with
        | none => simp [better, ← here, found]
        | some best =>
          unfold better
          split <;> nofun
      | inr mem => exact .inr ⟨pattern, mem, found⟩

/-- Where the search finds nothing, no pattern matches at all. -/
theorem longest_eq_zero_of_none (nothing : longestMatch text = none) (pattern : Pattern) :
    pattern.longest text = 0 := by
  by_contra found
  exact foldl_better_ne_none (.inr ⟨pattern, pattern.mem_table, Nat.pos_of_ne_zero found⟩) nothing

/-- At a blank there is always a match. -/
theorem not_isBlank_of_none {c : Char} {rest : List Char}
    (nothing : longestMatch (c :: rest) = none) : Text.isBlank c = false := by
  have unmatched := longest_eq_zero_of_none nothing blanks
  by_contra blank
  rw [Bool.not_eq_false] at blank
  simp [longest, runLength, blank] at unmatched

end ImpStack.Pattern

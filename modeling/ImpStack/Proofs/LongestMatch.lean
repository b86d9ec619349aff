import ImpStack.Proofs.Patterns

/-!
The search is complete: no text that a pattern declares, at the front of a text, is longer than what
the search finds for that pattern (`Matches.length_le_longest`), and no pattern finds more than the
winning one (`longest_le_longestMatch`). A keyword is the exception, where the next character begins
like a letter.
-/
namespace ImpStack.Pattern

variable {text part rest : List Char} {pattern : Pattern} {length : Nat}

/-! ### Pattern by pattern -/

/-- A run goes on as far as its characters do. -/
theorem runLength_append {holds : Char → Bool} (inside : ∀ c ∈ part, holds c) :
    runLength holds (part ++ rest) = part.length + runLength holds rest := by
  simp [runLength, List.takeWhile_append_of_pos inside]

/-- Of a decimal with digits behind its point all are taken. -/
theorem length_le_floatLength {whole fraction : List Char} (first : IsDigits whole)
    (last : IsDigits fraction) :
    (whole ++ '.' :: fraction).length ≤ floatLength (whole ++ '.' :: fraction ++ rest) := by
  have text_eq : whole ++ '.' :: fraction ++ rest = whole ++ '.' :: (fraction ++ rest) := by simp
  have run : runLength Char.isDigit (whole ++ '.' :: (fraction ++ rest)) = whole.length := by
    rw [runLength_append first.2]
    rfl
  have wholePos := List.length_pos_of_ne_nil first.1
  have fractionPos := List.length_pos_of_ne_nil last.1
  have present : ¬ (whole.length = 0 ∨ fraction.length + runLength Char.isDigit rest = 0) := by
    omega
  simp only [floatLength, text_eq, run, List.drop_left, runLength_append last.2, if_neg present,
    List.length_append, List.length_cons]
  omega

/-- A keyword is found where no identifier goes on. -/
theorem longest_keyword (name : Keyword) (rest : List Char) :
    (keyword name).longest (name.spelling.toList ++ rest) =
      if rest.head?.any Text.beginsLikeLetter then 0 else name.spelling.length := by
  have behind : (name.spelling.toList ++ rest).drop name.spelling.length = rest := by
    rw [← String.length_toList, List.drop_left]
  simp only [longest, keywordLength, behind]
  cases rest.head?.any Text.beginsLikeLetter <;> simp

theorem ends_of_longest_pos {name : Keyword}
    (found : 0 < longest (keyword name) (name.spelling.toList ++ rest)) :
    rest.head?.any Text.beginsLikeLetter = false := by
  by_contra letter
  rw [longest_keyword, if_pos (Bool.not_eq_false _ ▸ letter)] at found
  exact Nat.lt_irrefl 0 found

/-- The search misses no match of a pattern, apart from keywords in front of a character that begins
like a letter. -/
theorem Matches.length_le_longest (match_ : pattern.Matches part)
    (ends : ∀ name, pattern = keyword name → rest.head?.any Text.beginsLikeLetter = false) :
    part.length ≤ pattern.longest (part ++ rest) := by
  cases pattern with
  | blanks =>
    rw [longest, runLength_append match_.2]
    exact Nat.le_add_right _ _
  | comment =>
    obtain ⟨line, rfl, oneLine⟩ := match_
    have inside : ∀ c ∈ line, decide (c ≠ '\n') = true := by
      rintro c mem
      exact decide_eq_true fun feed => oneLine (feed ▸ mem)
    simp only [List.cons_append, longest, runLength_append inside, List.length_cons]
    omega
  | float =>
    obtain ⟨whole, fraction, rfl, first, last⟩ := match_
    exact length_le_floatLength first last
  | int =>
    rw [longest, runLength_append match_.2]
    exact Nat.le_add_right _ _
  | word =>
    obtain ⟨c, letters, rfl, start, inside⟩ := match_
    simp only [List.cons_append, longest, start, if_true, runLength_append inside,
      List.length_cons]
    omega
  | keyword name =>
    obtain rfl := match_
    -- A keyword is the only pattern that looks at what follows.
    rw [longest_keyword, ends name rfl, String.length_toList]
    exact Nat.le_refl _
  | symbol sign =>
    obtain rfl := match_
    rw [String.length_toList]
    simp [longest, spelledLength]

/-! ### The winning pattern -/

/-- No pattern of the ones searched finds more than the best match, and what was found before is
found still. -/
theorem le_foldl_better {patterns : List Pattern} {best : Option (Pattern × Nat)} :
    best.elim 0 Prod.snd ≤ (patterns.foldl (better text) best).elim 0 Prod.snd ∧
      ∀ pattern ∈ patterns,
        pattern.longest text ≤ (patterns.foldl (better text) best).elim 0 Prod.snd := by
  induction patterns generalizing best with
  | nil => simp
  | cons next patterns ih =>
    obtain ⟨kept, others⟩ := @ih (better text best next)
    have improved : best.elim 0 Prod.snd ≤ (better text best next).elim 0 Prod.snd ∧
        next.longest text ≤ (better text best next).elim 0 Prod.snd := by
      unfold better
      split
      · next longer => exact ⟨Nat.le_of_lt longer, Nat.le_refl _⟩
      · next shorter => exact ⟨Nat.le_refl _, Nat.le_of_not_lt shorter⟩
    refine ⟨Nat.le_trans improved.1 kept, List.forall_mem_cons.mpr ⟨?_, others⟩⟩
    exact Nat.le_trans improved.2 kept

/-- The winning match is the longest one. -/
theorem longest_le_longestMatch (text : List Char) (pattern : Pattern) :
    pattern.longest text ≤ (longestMatch text).elim 0 Prod.snd :=
  le_foldl_better.2 pattern pattern.mem_table

/-- The winner depends on the lengths only. -/
theorem longestMatch_congr {other : List Char}
    (same : ∀ pattern : Pattern, pattern.longest text = pattern.longest other) :
    longestMatch text = longestMatch other := by
  have better_eq : better text = better other := by
    funext best pattern
    simp [better, same pattern]
  rw [longestMatch, longestMatch, better_eq]

/-- Where only one pattern can match, it wins. -/
theorem longestMatch_eq_of_unique (pattern : Pattern) (found : 0 < pattern.longest text)
    (only : ∀ (other : Pattern) part rest, text = part ++ rest → other.Matches part →
      pattern.longest text ≤ part.length → other = pattern) :
    longestMatch text = some (pattern, pattern.longest text) := by
  have most := longest_le_longestMatch text pattern
  cases best : longestMatch text with
  | none =>
    rw [best] at most
    exact absurd found (Nat.not_lt_of_le most)
  | some winner =>
    obtain ⟨other, length⟩ := winner
    rw [best] at most
    obtain ⟨rfl, part, rest, split, takes, length_eq⟩ := finds_of_longestMatch best
    rw [only other part rest split takes.is_match (length_eq ▸ most)]

end ImpStack.Pattern

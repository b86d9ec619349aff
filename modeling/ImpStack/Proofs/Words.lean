import Mathlib.Tactic.Tauto
import ImpStack.Proofs.FloatText
import ImpStack.Proofs.WellSpelled

/-!
Words of a text. Blanks, line breaks and parentheses end a word; what a source can put into a tree,
its names, integers and numbers, is written as one word each (`IsWord.oneWord`, `oneWord_toString`,
`Binary32.IsNumber.oneWord`).
-/
namespace ImpStack

/-- A text in a text is written as it is. -/
theorem toString_text (text : String) : toString text = text := rfl

/-- A character that words are made of. -/
def isInWord (c : Char) : Bool := c ≠ ' ' && c ≠ '\n' && c ≠ '(' && c ≠ ')'

/-- What the signs that end a word do not satisfy holds of characters in words only. -/
theorem isInWord_of_holds {holds : Char → Bool}
    (signs : [' ', '\n', '(', ')'].any holds = false) {c : Char} (held : holds c) :
    isInWord c := by
  by_contra outside
  have sign : c ∈ [' ', '\n', '(', ')'] := by
    simp only [isInWord, Bool.and_eq_true, decide_eq_true_eq] at outside
    simp only [List.mem_cons, List.not_mem_nil, or_false]
    tauto
  have found := List.any_eq_true.mpr ⟨c, sign, held⟩
  rw [signs] at found
  cases found

/-- The text is one word. -/
def OneWord (text : String) : Prop := text.toList ≠ [] ∧ ∀ c ∈ text.toList, isInWord c

instance (text : String) : Decidable (OneWord text) :=
  decidable_of_iff (text.toList ≠ [] ∧ text.toList.all isInWord)
    (and_congr_right fun _ => List.all_eq_true)

theorem isInWord_of_isDigit {c : Char} (digit : c.isDigit) : isInWord c :=
  isInWord_of_holds (by decide) digit

theorem IsWord.oneWord {name : String} (isWord : IsWord name) : OneWord name := by
  obtain ⟨first, rest, text_eq, start, parts⟩ := isWord
  have first_part : Pattern.isWordPart first := by simp [Pattern.isWordPart, start]
  have all_parts : ∀ c ∈ name.toList, Pattern.isWordPart c := by
    rw [text_eq]
    exact List.forall_mem_cons.mpr ⟨first_part, parts⟩
  refine ⟨by simp [text_eq], fun c member => ?_⟩
  exact isInWord_of_holds (by decide +kernel) (all_parts c member)

/-- An integer is one word, with its sign. -/
theorem oneWord_toString (n : Int) : OneWord (toString n) := by
  rw [OneWord, Numeral.toList_toString]
  refine ⟨?_, fun c member => ?_⟩
  · unfold Numeral.integerText
    split
    · simp
    · exact Nat.toDigits_ne_nil
  · obtain digit | rfl := Numeral.mem_integerText member
    · exact isInWord_of_isDigit digit
    · rfl

/-- A number is one word, also if it is infinity. -/
theorem Binary32.IsNumber.oneWord {x : Float32} (number : IsNumber x) :
    OneWord (text .exact x) := by
  refine ⟨number.text_ne_nil, fun c member => ?_⟩
  have other : ['-', '.', 'e', 'i', 'n', 'f'].all isInWord := by decide
  obtain digit | sign := number.mem_text member
  · exact isInWord_of_isDigit digit
  · exact List.all_eq_true.mp other c sign

end ImpStack

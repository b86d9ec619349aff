import ImpStack.Binary32.Numeral
import ImpStack.Proofs.Patterns

/-!
How numerals are written: an integer with its digits behind a sign, and a decimal with a point, an
exponent or both. They are read back as what they were written for (`Numeral.integer?_integerText`,
`Binary32.Decimal.WrittenAs.decimal?_eq`).
-/
namespace ImpStack

open Pattern (IsDigits)

theorem toList_pushn (text : String) (c : Char) (count : Nat) :
    (text.pushn c count).toList = text.toList ++ List.replicate count c := by
  rw [String.pushn_eq_repeat_push]
  induction count with
  | zero => simp [Nat.repeat]
  | succ count ih =>
    rw [Nat.repeat, String.toList_push, ih, List.append_assoc, ← List.replicate_succ']

/-! ### Digits -/

namespace Pattern

/-- A run of digits ends where they end. -/
theorem span_isDigit {digits : List Char} (run : ∀ c ∈ digits, c.isDigit) (rest : List Char)
    (stops : ∀ c ∈ rest.head?, c.isDigit = false) :
    (digits ++ rest).takeWhile Char.isDigit = digits ∧
      (digits ++ rest).dropWhile Char.isDigit = rest := by
  rw [List.takeWhile_append_of_pos run, List.dropWhile_append_of_pos run]
  cases rest with
  | nil => simp
  | cons c rest =>
    have other : c.isDigit = false := stops c rfl
    simp [other]

theorem isDigits_toDigits (n : Nat) : IsDigits (Nat.toDigits 10 n) :=
  ⟨Nat.toDigits_ne_nil, fun _ => Nat.isDigit_of_mem_toDigits (by decide) (by decide)⟩

theorem IsDigits.append {first second : List Char} (digits : IsDigits first)
    (others : ∀ c ∈ second, c.isDigit) : IsDigits (first ++ second) :=
  ⟨List.append_ne_nil_of_left_ne_nil digits.1 _, List.forall_mem_append.mpr ⟨digits.2, others⟩⟩

end Pattern

/-! ### Integers -/

namespace Numeral

theorem signed_of_isDigit {c : Char} (digit : c.isDigit) (rest : List Char) :
    signed (c :: rest) = (false, c :: rest) := by
  unfold signed
  split
  · next same => cases same; cases digit
  · next same => cases same; cases digit
  · rfl

theorem signed_of_isDigits {digits : List Char} (isDigits : IsDigits digits) (rest : List Char) :
    signed (digits ++ rest) = (false, digits ++ rest) := by
  obtain ⟨first, others, rfl⟩ := List.exists_cons_of_ne_nil isDigits.1
  exact signed_of_isDigit (isDigits.2 first List.mem_cons_self) _

theorem natural?_toDigits (n : Nat) : natural? (Nat.toDigits 10 n) = some n := by
  obtain ⟨nonempty, digits⟩ := Pattern.isDigits_toDigits n
  rw [natural?, if_pos ⟨nonempty, List.all_eq_true.mpr digits⟩, Nat.ofDigitChars_ten_toDigits]

/-- The digits of an integer, behind a sign if it is negative. -/
def integerText (n : Int) : List Char :=
  if n < 0 then '-' :: Nat.toDigits 10 n.natAbs else Nat.toDigits 10 n.natAbs

theorem toList_toString (n : Int) : (toString n).toList = integerText n := by
  cases n with
  | ofNat n => simp [integerText, toString, Int.repr]
  | negSucc n => simp [integerText, toString, Int.repr, Int.negSucc_lt_zero]

theorem integer?_integerText (n : Int) : integer? (integerText n) = some n := by
  unfold integerText
  split
  · next negative =>
    have value : -(n.natAbs : Int) = n := by omega
    simp only [integer?, signed, natural?_toDigits]
    exact congrArg some value
  · next natural =>
    have unsigned := signed_of_isDigits (Pattern.isDigits_toDigits n.natAbs) []
    rw [List.append_nil] at unsigned
    have value : (n.natAbs : Int) = n := by omega
    simp only [integer?, unsigned, natural?_toDigits]
    exact congrArg some value

theorem toString_inj {n other : Int} (same : toString n = toString other) : n = other := by
  have texts : integerText n = integerText other := by rw [← toList_toString, same, toList_toString]
  have reads := integer?_integerText n
  rw [texts, integer?_integerText] at reads
  exact (Option.some.inj reads).symm

theorem mem_integerText {n : Int} {c : Char} (member : c ∈ integerText n) :
    c.isDigit ∨ c = '-' := by
  have isDigits := Pattern.isDigits_toDigits n.natAbs
  unfold integerText at member
  split at member
  · obtain rfl | inside := List.mem_cons.mp member
    · exact .inr rfl
    · exact .inl (isDigits.2 c inside)
  · exact .inl (isDigits.2 c member)

end Numeral

/-! ### Decimals -/

namespace Binary32

/-- How a decimal is written: as digits around a point, as digits with an exponent behind them, or
with both. -/
inductive Decimal.WrittenAs : Decimal → List Char → Prop where
  | point {whole fraction : List Char} (wholeDigits : IsDigits whole)
      (fractionDigits : IsDigits fraction) :
      WrittenAs ⟨Nat.ofDigitChars 10 (whole ++ fraction) 0, -fraction.length⟩
        (whole ++ '.' :: fraction)
  | exponent {whole : List Char} (wholeDigits : IsDigits whole) (exponent : Int) :
      WrittenAs ⟨Nat.ofDigitChars 10 whole 0, exponent⟩
        (whole ++ 'e' :: Numeral.integerText exponent)
  | pointAndExponent {whole fraction : List Char} (wholeDigits : IsDigits whole)
      (fractionDigits : IsDigits fraction) (exponent : Int) :
      WrittenAs ⟨Nat.ofDigitChars 10 (whole ++ fraction) 0, exponent - fraction.length⟩
        (whole ++ '.' :: (fraction ++ 'e' :: Numeral.integerText exponent))

theorem toLower_of_isDigit {c : Char} (digit : c.isDigit) : c.toLower = c := by
  refine dif_neg ?_
  simp only [Char.isDigit, Bool.and_eq_true, decide_eq_true_eq] at digit
  intro upper
  exact absurd (UInt32.le_trans upper.1 digit.2) (by decide)

theorem exponent?_integerText (exponent : Int) :
    exponent? ('e' :: Numeral.integerText exponent) = some exponent := by
  simp [exponent?, Numeral.integer?_integerText]

namespace Decimal.WrittenAs

variable {decimal other : Decimal} {text : List Char}

/-- A decimal is read as it was written. -/
theorem decimal?_eq (written : decimal.WrittenAs text) : decimal? text = some decimal := by
  cases written with
  | @point whole fraction wholeDigits fractionDigits =>
    have front := Pattern.span_isDigit wholeDigits.2 ('.' :: fraction) (by simp)
    have behind := Pattern.span_isDigit fractionDigits.2 [] (by simp)
    rw [List.append_nil] at behind
    simp [decimal?, front, behind, wholeDigits.1, exponent?]
  | @exponent whole wholeDigits exponent =>
    have front := Pattern.span_isDigit wholeDigits.2 ('e' :: Numeral.integerText exponent) (by simp)
    simp [decimal?, front, wholeDigits.1, exponent?_integerText]
  | @pointAndExponent whole fraction wholeDigits fractionDigits exponent =>
    have front := Pattern.span_isDigit wholeDigits.2
      ('.' :: (fraction ++ 'e' :: Numeral.integerText exponent)) (by simp)
    have behind := Pattern.span_isDigit fractionDigits.2 ('e' :: Numeral.integerText exponent)
      (by simp)
    simp [decimal?, front, behind, wholeDigits.1, exponent?_integerText]

/-- A text is that of one decimal at most. -/
theorem unique (written : decimal.WrittenAs text) (writtenOther : other.WrittenAs text) :
    decimal = other :=
  Option.some.inj (written.decimal?_eq.symm.trans writtenOther.decimal?_eq)

theorem starts_with_digits (written : decimal.WrittenAs text) :
    ∃ whole rest, text = whole ++ rest ∧ IsDigits whole := by
  cases written with
  | point wholeDigits _ => exact ⟨_, _, rfl, wholeDigits⟩
  | exponent wholeDigits _ => exact ⟨_, _, rfl, wholeDigits⟩
  | pointAndExponent wholeDigits _ _ => exact ⟨_, _, rfl, wholeDigits⟩

/-- With a digit in front it is not one of the words for infinity or for no number. -/
theorem not_word {c : Char} (digit : c.isDigit) (rest : List Char) {word : String}
    (letter : word.toList.head?.any Char.isDigit = false) :
    String.ofList ((c :: rest).map Char.toLower) ≠ word := by
  rintro rfl
  rw [String.toList_ofList, List.map_cons, List.head?_cons, Option.any_some,
    toLower_of_isDigit digit, digit] at letter
  cases letter

/-- A decimal is read as the magnitude nearest to it. -/
theorem ofNumeral?_eq (written : decimal.WrittenAs text) :
    ofNumeral? text = some (ofMagnitude false (decimalBits decimal.digits decimal.exponent)) := by
  have reads : magnitude? text = some (decimalBits decimal.digits decimal.exponent) := by
    rw [magnitude?, written.decimal?_eq, Option.map_some]
  obtain ⟨whole, rest, rfl, wholeDigits⟩ := written.starts_with_digits
  have unsigned := Numeral.signed_of_isDigits wholeDigits rest
  obtain ⟨first, others, rfl⟩ := List.exists_cons_of_ne_nil wholeDigits.1
  have digit := wholeDigits.2 first List.mem_cons_self
  have finite : ¬(_ = "inf" ∨ _ = "infinity") :=
    not_or.mpr ⟨not_word digit (others ++ rest) rfl, not_word digit (others ++ rest) rfl⟩
  simp only [ofNumeral?, unsigned]
  rw [List.cons_append, if_neg finite, if_neg (not_word digit _ rfl)]
  exact congrArg (Option.map (ofMagnitude false)) reads

end Decimal.WrittenAs

theorem nearestBits_le (numerator denominator : Nat) :
    nearestBits numerator denominator ≤ infinityBits := Nat.min_le_left ..

/-- No decimal is rounded beyond infinity. -/
theorem decimalBits_le (digits : Nat) (exponent : Int) :
    decimalBits digits exponent ≤ infinityBits := by
  unfold decimalBits
  split
  · exact Nat.zero_le _
  · split
    · exact Nat.le_refl _
    · split
      · exact nearestBits_le ..
      · exact nearestBits_le ..

end Binary32

/-- A float literal is a decimal with a point. -/
theorem Pattern.exists_writtenAs {part : List Char} (float_ : float.Matches part) :
    ∃ decimal : Binary32.Decimal, decimal.WrittenAs part := by
  obtain ⟨whole, fraction, rfl, wholeDigits, fractionDigits⟩ := float_
  exact ⟨_, .point wholeDigits fractionDigits⟩

end ImpStack

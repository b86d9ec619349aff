import Mathlib.Tactic.Ring
import ImpStack.Binary32.Text
import ImpStack.Proofs.FloatClasses
import ImpStack.Proofs.Numerals
import ImpStack.Proofs.ShortestDecimal

/-!
Floats as listings and syntax trees write them. The text of a number determines it
(`IsNumber.text_inj`): it is read as the shortest decimal of the number, and that decimal reads back
as one magnitude only.

Two layouts have to be taken into account, with a point among the digits or with an exponent behind
them. Both write the shortest decimal, perhaps with zeros added (`magnitudeText_writtenAs`); zeros
change nothing of what it is a multiple of (`Decimal.steps_eq_of_pad_eq`).
-/
namespace ImpStack.Binary32

open Pattern (IsDigits)

/-! ### The shortest decimal in its two layouts -/

/-- The same decimal with some zeros more behind its digits. -/
def Decimal.pad (decimal : Decimal) (zeros : Nat) : Decimal :=
  ⟨decimal.digits * Nat.pow 10 zeros, decimal.exponent - zeros⟩

theorem Decimal.pad_zero (decimal : Decimal) : decimal.pad 0 = decimal := by
  cases decimal
  simp [pad]

/-- Decimals that some zeros make equal are equal as multiples of the smallest step. -/
theorem Decimal.steps_eq_of_pad_eq {decimal other : Decimal} {zeros otherZeros : Nat}
    (onGrid : -149 ≤ decimal.exponent) (otherOnGrid : -149 ≤ other.exponent)
    (same : decimal.pad zeros = other.pad otherZeros) : decimal.steps = other.steps := by
  obtain ⟨digits, exponent⟩ := decimal
  obtain ⟨otherDigits, otherExponent⟩ := other
  simp only [pad, mk.injEq, Nat.pow_eq] at same
  obtain ⟨digits_eq, exponent_eq⟩ := same
  simp only [steps, Nat.pow_eq] at *
  have height : (exponent + 149).toNat + otherZeros = (otherExponent + 149).toNat + zeros := by
    omega
  refine Nat.eq_of_mul_eq_mul_right (show 0 < 10 ^ (zeros + otherZeros) by positivity) ?_
  calc digits * 10 ^ (exponent + 149).toNat * 10 ^ (zeros + otherZeros)
      = digits * 10 ^ zeros * 10 ^ ((exponent + 149).toNat + otherZeros) := by ring
    _ = otherDigits * 10 ^ otherZeros * 10 ^ ((otherExponent + 149).toNat + zeros) := by
      rw [digits_eq, height]
    _ = otherDigits * 10 ^ (otherExponent + 149).toNat * 10 ^ (zeros + otherZeros) := by ring

/-- Digits around a point write a decimal whose exponent counts those behind it. -/
theorem Decimal.WrittenAs.of_point {decimal : Decimal} {whole fraction : List Char}
    (wholeDigits : IsDigits whole) (fractionDigits : IsDigits fraction)
    (digits_eq : Nat.ofDigitChars 10 (whole ++ fraction) 0 = decimal.digits)
    (exponent_eq : decimal.exponent + fraction.length = 0) :
    decimal.WrittenAs (whole ++ '.' :: fraction) := by
  obtain ⟨digits, exponent⟩ := decimal
  obtain rfl : exponent = -fraction.length := by simp only at exponent_eq; omega
  obtain rfl : _ = digits := digits_eq
  exact .point wholeDigits fractionDigits

theorem ofDigitChars_zeros (count : Nat) (digits : List Char) :
    Nat.ofDigitChars 10 (List.replicate count '0' ++ digits) 0 = Nat.ofDigitChars 10 digits 0 := by
  simp [Nat.ofDigitChars_append]

theorem isDigit_of_mem_replicate {count : Nat} {c : Char} (member : c ∈ List.replicate count '0') :
    c.isDigit := List.eq_of_mem_replicate member ▸ rfl

theorem isDigits_zero : IsDigits ['0'] := ⟨List.cons_ne_nil _ _, by simp⟩

section Layouts

variable {decimal : Decimal} {digits : List Char} {point : Int}

/-- The digits of the decimal, and how many of them stand in front of its point. -/
structure Decimal.HasDigits (decimal : Decimal) (digits : List Char) (point : Int) : Prop where
  isDigits : IsDigits digits
  number_eq : Nat.ofDigitChars 10 digits 0 = decimal.digits
  point_eq : point = decimal.exponent + digits.length

theorem Decimal.hasDigits (decimal : Decimal) :
    decimal.HasDigits (Nat.toDigits 10 decimal.digits)
      (decimal.exponent + (Nat.toDigits 10 decimal.digits).length) :=
  ⟨Pattern.isDigits_toDigits _, Nat.ofDigitChars_ten_toDigits, rfl⟩

/-- Zeros behind the digits are zeros of the decimal. -/
theorem Decimal.HasDigits.ofDigitChars_padded (has : decimal.HasDigits digits point)
    (zeros : Nat) :
    Nat.ofDigitChars 10 (digits ++ List.replicate zeros '0') 0 = (decimal.pad zeros).digits := by
  rw [Nat.ofDigitChars_append, Nat.ofDigitChars_replicate_zero, has.number_eq, Nat.mul_comm]
  rfl

/-- The layout with a point, which stands among the digits, in front of all of them or behind all of
them. -/
theorem positional_writtenAs (has : decimal.HasDigits digits point) :
    ∃ zeros, (decimal.pad zeros).WrittenAs (positional .exact digits point) := by
  obtain ⟨nonempty, allDigits⟩ := has.isDigits
  have point_eq := has.point_eq
  -- The point stands in front of the digits, behind them or among them. Only behind them do zeros
  -- have to be added to the decimal.
  unfold positional
  split
  · next small =>
    have inFraction : IsDigits (List.replicate point.natAbs '0' ++ digits) :=
      ⟨List.append_ne_nil_of_right_ne_nil _ nonempty,
        List.forall_mem_append.mpr ⟨fun _ => isDigit_of_mem_replicate, allDigits⟩⟩
    refine ⟨0, ?_⟩
    rw [Decimal.pad_zero]
    refine .of_point isDigits_zero inFraction ?_ ?_
    · exact (ofDigitChars_zeros (point.natAbs + 1) digits).trans has.number_eq
    · have length_eq : (List.replicate point.natAbs '0' ++ digits).length =
          point.natAbs + digits.length := by simp
      exact show _ + ((List.replicate point.natAbs '0' ++ digits).length : Int) = 0 by omega
  · split
    · next _ whole =>
      have front : IsDigits (digits ++ List.replicate (point.toNat - digits.length) '0') :=
        has.isDigits.append fun _ => isDigit_of_mem_replicate
      refine ⟨point.toNat - digits.length + 1, .of_point front isDigits_zero ?_ ?_⟩
      · rw [← has.ofDigitChars_padded, List.replicate_succ', List.append_assoc]
      · simp [Decimal.pad]
        omega
    · next _ within =>
      have front : IsDigits (digits.take point.toNat) :=
        ⟨by simp [nonempty]; omega, fun c member => allDigits c (List.mem_of_mem_take member)⟩
      have behind : IsDigits (digits.drop point.toNat) :=
        ⟨by simp; omega, fun c member => allDigits c (List.mem_of_mem_drop member)⟩
      refine ⟨0, ?_⟩
      rw [Decimal.pad_zero]
      refine .of_point front behind ?_ ?_
      · rw [List.take_append_drop, has.number_eq]
      · simp
        omega

/-- The layout with an exponent, behind a first digit and perhaps a fraction. -/
theorem scientific_writtenAs (has : decimal.HasDigits digits point) :
    decimal.WrittenAs (scientific digits point) := by
  obtain ⟨number, exponent⟩ := decimal
  have number_eq : _ = number := has.number_eq
  have point_eq : point = exponent + digits.length := has.point_eq
  obtain ⟨first, others, rfl⟩ := List.exists_cons_of_ne_nil has.isDigits.1
  have allDigits := List.forall_mem_cons.mp has.isDigits.2
  have front : IsDigits [first] := ⟨by simp, by simpa using allDigits.1⟩
  rw [scientific, Numeral.toList_toString]
  cases others with
  | nil =>
    have written := Decimal.WrittenAs.exponent front (point - 1)
    have exponent_eq : point - 1 = exponent := by simp [point_eq]
    rw [number_eq, exponent_eq] at written
    rw [exponent_eq]
    exact written
  | cons second others =>
    have behind : IsDigits (second :: others) := ⟨by simp, allDigits.2⟩
    have written := Decimal.WrittenAs.pointAndExponent front behind (point - 1)
    have exponent_eq : point - 1 - (second :: others).length = exponent := by
      simp [point_eq]
      omega
    rw [exponent_eq, List.singleton_append, number_eq] at written
    exact written

/-- Both layouts write the shortest decimal, perhaps with zeros behind its digits. -/
theorem magnitudeText_writtenAs (bits : Nat) :
    ∃ zeros, ((shortest bits).pad zeros).WrittenAs (magnitudeText .exact bits) := by
  have has := (shortest bits).hasDigits
  rw [magnitudeText]
  split
  · refine ⟨0, ?_⟩
    rw [Decimal.pad_zero]
    exact scientific_writtenAs has
  · exact positional_writtenAs has

theorem magnitudeText_inj {bits other : Nat}
    (same : magnitudeText .exact bits = magnitudeText .exact other) : bits = other := by
  obtain ⟨zeros, written⟩ := magnitudeText_writtenAs bits
  obtain ⟨otherZeros, writtenOther⟩ := magnitudeText_writtenAs other
  rw [← same] at writtenOther
  have back := shortest_readsBackAs bits
  have backOther := shortest_readsBackAs other
  have steps_eq := Decimal.steps_eq_of_pad_eq back.onGrid backOther.onGrid
    (written.unique writtenOther)
  exact readsBack_unique back.reads (steps_eq ▸ backOther.reads)

end Layouts

/-! ### Characters of a text -/

section Characters

variable {decimal : Decimal} {text : List Char} {c : Char}

theorem Decimal.WrittenAs.mem (written : decimal.WrittenAs text) (member : c ∈ text) :
    c.isDigit ∨ c = '-' ∨ c = '.' ∨ c = 'e' := by
  cases written with
  | point wholeDigits fractionDigits =>
    obtain inside | rfl | inside := by simpa using member
    · exact .inl (wholeDigits.2 c inside)
    · simp
    · exact .inl (fractionDigits.2 c inside)
  | exponent wholeDigits =>
    obtain inside | rfl | inside := by simpa using member
    · exact .inl (wholeDigits.2 c inside)
    · simp
    · exact (Numeral.mem_integerText inside).imp_right .inl
  | pointAndExponent wholeDigits fractionDigits =>
    obtain inside | rfl | inside | rfl | inside := by simpa using member
    · exact .inl (wholeDigits.2 c inside)
    · simp
    · exact .inl (fractionDigits.2 c inside)
    · simp
    · exact (Numeral.mem_integerText inside).imp_right .inl

/-- No decimal is written like an integer. -/
theorem Decimal.WrittenAs.point_or_exponent (written : decimal.WrittenAs text) :
    '.' ∈ text ∨ 'e' ∈ text := by
  cases written with
  | point => simp
  | exponent => simp
  | pointAndExponent => simp

theorem exists_magnitudeText_eq_cons (bits : Nat) :
    ∃ first rest, magnitudeText .exact bits = first :: rest ∧ first.isDigit := by
  obtain ⟨zeros, written⟩ := magnitudeText_writtenAs bits
  obtain ⟨whole, rest, text_eq, wholeDigits⟩ := written.starts_with_digits
  obtain ⟨first, others, rfl⟩ := List.exists_cons_of_ne_nil wholeDigits.1
  exact ⟨first, others ++ rest, text_eq, wholeDigits.2 first List.mem_cons_self⟩

end Characters

/-! ### Numbers -/

section Numbers

variable {x y : Float32}

/-- What stands behind the sign of a number. -/
inductive Unsigned : Class → Bool → List Char → Prop where
  | infinite (negative : Bool) : Unsigned (.infinite negative) negative ['i', 'n', 'f']
  | finite (negative : Bool) (bits : Nat) :
      Unsigned (.finite negative bits) negative (magnitudeText .exact bits)

/-- A number is written as its sign and what stands behind it. -/
theorem IsNumber.exists_unsigned (number : IsNumber x) : ∃ negative body,
    (text .exact x).toList = signText negative ++ body ∧ Unsigned (classify x) negative body := by
  unfold IsNumber at number
  rw [text]
  split
  · next isNaN => exact absurd isNaN number
  · next negative infinite =>
    exact ⟨negative, _, String.toList_ofList, infinite ▸ .infinite negative⟩
  · next negative bits finite =>
    exact ⟨negative, _, String.toList_ofList, finite ▸ .finite negative bits⟩

namespace Unsigned

variable {class_ other : Class} {negative otherNegative : Bool} {body otherBody : List Char}

theorem first_ne_minus (unsigned : Unsigned class_ negative body) :
    ∃ first rest, body = first :: rest ∧ first ≠ '-' := by
  cases unsigned with
  | infinite => exact ⟨_, _, rfl, by decide⟩
  | finite negative bits =>
    obtain ⟨first, rest, text_eq, digit⟩ := exists_magnitudeText_eq_cons bits
    exact ⟨first, rest, text_eq, by rintro rfl; cases digit⟩

/-- The sign can be read off, since nothing behind a sign begins with one. -/
theorem sign_eq (unsigned : Unsigned class_ negative body)
    (unsignedOther : Unsigned other otherNegative otherBody)
    (same : signText negative ++ body = signText otherNegative ++ otherBody) :
    negative = otherNegative := by
  obtain ⟨first, rest, rfl, notMinus⟩ := unsigned.first_ne_minus
  obtain ⟨otherFirst, otherRest, rfl, otherNotMinus⟩ := unsignedOther.first_ne_minus
  cases negative with
  | false =>
    cases otherNegative with
    | false => rfl
    | true => exact absurd (List.cons.inj same).1 notMinus
  | true =>
    cases otherNegative with
    | false => exact absurd (List.cons.inj same).1.symm otherNotMinus
    | true => rfl

theorem ne_infinity (bits : Nat) : magnitudeText .exact bits ≠ ['i', 'n', 'f'] := by
  obtain ⟨first, rest, text_eq, digit⟩ := exists_magnitudeText_eq_cons bits
  rw [text_eq]
  rintro same
  cases same
  cases digit

/-- Behind the sign, infinity is told apart from digits, and digits from other digits. -/
theorem class_eq (unsigned : Unsigned class_ negative body)
    (unsignedOther : Unsigned other negative otherBody) (same : body = otherBody) :
    class_ = other := by
  cases unsigned with
  | infinite =>
    cases unsignedOther with
    | infinite => rfl
    | finite _ bits => exact absurd same.symm (ne_infinity bits)
  | finite _ bits =>
    cases unsignedOther with
    | infinite => exact absurd same (ne_infinity bits)
    | finite => rw [magnitudeText_inj same]

theorem mem (unsigned : Unsigned class_ negative body) {c : Char} (member : c ∈ body) :
    c.isDigit ∨ c ∈ ['-', '.', 'e', 'i', 'n', 'f'] := by
  cases unsigned with
  | infinite => simp_all
  | finite _ bits =>
    obtain ⟨zeros, written⟩ := magnitudeText_writtenAs bits
    obtain digit | rfl | rfl | rfl := written.mem member
    · exact .inl digit
    all_goals simp

theorem has_letter (unsigned : Unsigned class_ negative body) :
    'i' ∈ body ∨ '.' ∈ body ∨ 'e' ∈ body := by
  cases unsigned with
  | infinite => simp
  | finite _ bits =>
    obtain ⟨zeros, written⟩ := magnitudeText_writtenAs bits
    exact .inr written.point_or_exponent

theorem infinite_or_isDigit (unsigned : Unsigned class_ negative body) :
    class_ = .infinite negative ∨ ∃ first rest, body = first :: rest ∧ first.isDigit := by
  cases unsigned with
  | infinite => exact .inl rfl
  | finite _ bits => exact .inr (exists_magnitudeText_eq_cons bits)

end Unsigned

/-- The text of a number determines it. -/
theorem IsNumber.text_inj (number : IsNumber x) (numberToo : IsNumber y)
    (same : text .exact x = text .exact y) : x = y := by
  obtain ⟨negative, body, text_eq, unsigned⟩ := number.exists_unsigned
  obtain ⟨otherNegative, otherBody, otherText_eq, unsignedToo⟩ := numberToo.exists_unsigned
  have lists : signText negative ++ body = signText otherNegative ++ otherBody := by
    rw [← text_eq, ← otherText_eq, same]
  obtain rfl := unsigned.sign_eq unsignedToo lists
  exact number.eq_of_classify_eq (unsigned.class_eq unsignedToo (List.append_cancel_left lists))

theorem IsNumber.mem_text (number : IsNumber x) {c : Char} (member : c ∈ (text .exact x).toList) :
    c.isDigit ∨ c ∈ ['-', '.', 'e', 'i', 'n', 'f'] := by
  obtain ⟨negative, body, text_eq, unsigned⟩ := number.exists_unsigned
  rw [text_eq] at member
  obtain sign | inside := List.mem_append.mp member
  · cases negative <;> simp_all [signText]
  · exact unsigned.mem inside

theorem IsNumber.text_ne_nil (number : IsNumber x) : (text .exact x).toList ≠ [] := by
  obtain ⟨negative, body, text_eq, unsigned⟩ := number.exists_unsigned
  obtain ⟨first, rest, rfl, -⟩ := unsigned.first_ne_minus
  simp [text_eq]

/-- Only infinity is written as a word. -/
theorem IsNumber.infinity_or_numeral (number : IsNumber x) : x = infinity false ∨
    ∃ first rest, (text .exact x).toList = first :: rest ∧ (first.isDigit ∨ first = '-') := by
  obtain ⟨negative, body, text_eq, unsigned⟩ := number.exists_unsigned
  rw [text_eq]
  cases negative with
  | true => exact .inr ⟨'-', body, rfl, .inr rfl⟩
  | false =>
    obtain infinite | ⟨first, rest, rfl, digit⟩ := unsigned.infinite_or_isDigit
    · exact .inl (number.eq_of_classify_eq (infinite.trans classify_infinity.symm))
    · exact .inr ⟨first, rest, rfl, .inl digit⟩

/-- A number is not written as an integer is. -/
theorem IsNumber.text_ne_integerText (number : IsNumber x) (n : Int) :
    (text .exact x).toList ≠ Numeral.integerText n := by
  obtain ⟨negative, body, text_eq, unsigned⟩ := number.exists_unsigned
  rw [text_eq]
  intro same
  have inside : ∀ c ∈ body, c.isDigit ∨ c = '-' := fun c member =>
    Numeral.mem_integerText (same ▸ List.mem_append_right _ member)
  obtain member | member | member := unsigned.has_letter
  · exact absurd (inside _ member) (by decide)
  · exact absurd (inside _ member) (by decide)
  · exact absurd (inside _ member) (by decide)

end Numbers

end ImpStack.Binary32

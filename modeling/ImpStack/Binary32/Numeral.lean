import ImpStack.Binary32.Magnitude

/-!
Numerals read as integers or as single-precision numbers. A decimal is rounded once, from its exact
value.
-/
namespace ImpStack

namespace Numeral

/-- Splits off a sign. -/
def signed : List Char → Bool × List Char
  | '-' :: rest => (true, rest)
  | '+' :: rest => (false, rest)
  | text => (false, text)

/-- The value of a text of one or more ASCII digits. -/
def natural? (text : List Char) : Option Nat :=
  if text ≠ [] ∧ text.all Char.isDigit then some (Nat.ofDigitChars 10 text 0) else none

/-- An optional sign and digits. -/
def integer? (text : List Char) : Option Int :=
  let (negative, digits) := signed text
  (natural? digits).map fun n => if negative then -(n : Int) else n

/-- An integer that fits in 32 bits. -/
def int32? (text : List Char) : Option Int32 :=
  match integer? text with
  | none => none
  | some n =>
    if Int32.minValue.toInt ≤ n ∧ n ≤ Int32.maxValue.toInt then some (Int32.ofInt n) else none

end Numeral

namespace Binary32

/-- The magnitude nearest to `digits * 10 ^ exponent`. Exponents that settle the answer by
themselves are not raised to a power. -/
def decimalBits (digits : Nat) (exponent : Int) : Nat :=
  if digits = 0 ∨ exponent < -(digits.log2 + 47 : Int) then 0
  else if 39 < exponent then infinityBits
  else if 0 ≤ exponent then nearestBits (digits * Nat.pow 10 exponent.toNat * Nat.pow 2 149) 1
  else nearestBits (digits * Nat.pow 2 149) (Nat.pow 10 exponent.natAbs)

/-- The exponent behind the digits of a numeral; nothing stands for zero. -/
def exponent? : List Char → Option Int
  | [] => some 0
  | c :: rest => if c = 'e' ∨ c = 'E' then Numeral.integer? rest else none

/-- What an unsigned numeral stands for: digits with at most one point among, before or behind
them, and an optional exponent. -/
def decimal? (text : List Char) : Option Decimal :=
  let whole := text.takeWhile Char.isDigit
  let rest := text.dropWhile Char.isDigit
  let (fraction, rest) :=
    match rest with
    | '.' :: rest => (rest.takeWhile Char.isDigit, rest.dropWhile Char.isDigit)
    | _ => ([], rest)
  if whole = [] ∧ fraction = [] then none
  else
    (exponent? rest).map fun exponent =>
      ⟨Nat.ofDigitChars 10 (whole ++ fraction) 0, exponent - fraction.length⟩

/-- The magnitude nearest to an unsigned numeral. -/
def magnitude? (text : List Char) : Option Nat :=
  (decimal? text).map fun decimal => decimalBits decimal.digits decimal.exponent

/-- An optional sign, and then a word for infinity or for no number, in letters of any case, or an
unsigned numeral. -/
def ofNumeral? (text : List Char) : Option Float32 :=
  let (negative, unsigned) := Numeral.signed text
  let word := String.ofList (unsigned.map Char.toLower)
  if word = "inf" ∨ word = "infinity" then some (infinity negative)
  else if word = "nan" then some nan
  else (magnitude? unsigned).map (ofMagnitude negative)

end Binary32

end ImpStack

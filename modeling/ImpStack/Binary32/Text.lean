import ImpStack.Binary32.Shortest

/-!
Single-precision numbers as text: the shortest digits that read back, in one of two layouts.
-/
namespace ImpStack.Binary32

structure Layout where
  /-- Whole values keep the fraction `.0`. -/
  keepsFraction : Bool
  /-- Values below `10 ^ -4` and from `10 ^ 16` on have an exponent. -/
  usesExponent : Bool
  deriving DecidableEq, Repr

/-- The layout of listings and syntax trees. -/
def Layout.exact : Layout := ⟨true, true⟩

/-- The layout of printed values. -/
def Layout.plain : Layout := ⟨false, false⟩

/-- The digits with a decimal point `point` places behind their start. -/
def positional (layout : Layout) (digits : List Char) (point : Int) : List Char :=
  if point ≤ 0 then
    '0' :: '.' :: List.replicate point.natAbs '0' ++ digits
  else if digits.length ≤ point.toNat then
    digits ++ List.replicate (point.toNat - digits.length) '0' ++
      if layout.keepsFraction then ['.', '0'] else []
  else
    digits.take point.toNat ++ '.' :: digits.drop point.toNat

/-- One digit, then a point and the other digits if there are any, then the exponent. -/
def scientific (digits : List Char) (point : Int) : List Char :=
  let fraction := if digits.length ≤ 1 then [] else '.' :: digits.drop 1
  digits.take 1 ++ fraction ++ 'e' :: (toString (point - 1)).toList

def magnitudeText (layout : Layout) (bits : Nat) : List Char :=
  let decimal := shortest bits
  let digits := Nat.toDigits 10 decimal.digits
  let point := decimal.exponent + digits.length
  if layout.usesExponent ∧ bits ≠ 0 ∧ (point < -3 ∨ 16 < point) then scientific digits point
  else positional layout digits point

def signText (negative : Bool) : List Char := if negative then ['-'] else []

/-- A NaN has no sign. -/
def text (layout : Layout) (x : Float32) : String :=
  match classify x with
  | .nan => "NaN"
  | .infinite negative => String.ofList (signText negative ++ ['i', 'n', 'f'])
  | .finite negative bits => String.ofList (signText negative ++ magnitudeText layout bits)

end ImpStack.Binary32

/-!
Single-precision numbers as exact multiples of `2 ^ -149`, the smallest of them. A magnitude is
given by its bit pattern without the sign; the patterns below that of infinity are the finite
magnitudes, in ascending order. What is computed here is what the standard fixes for the arithmetic
of the language: rounding to nearest with ties to even, and the exact remainder.
-/
namespace ImpStack.Binary32

def infinityBits : Nat := 0x7F800000

/-- How often `2 ^ -149` goes into the magnitude. The pattern of infinity is read as the finite
magnitude that would follow the largest one. -/
def units (bits : Nat) : Nat :=
  if bits < Nat.pow 2 23 then bits
  else (Nat.pow 2 23 + bits % Nat.pow 2 23) * Nat.pow 2 (bits / Nat.pow 2 23 - 1)

/-- The number `digits * 10 ^ exponent`. -/
structure Decimal where
  digits : Nat
  exponent : Int
  deriving DecidableEq, Repr

/-- The magnitude nearest to `numerator / denominator` units, infinity if that is nearest; halfway
between two, the one with the even pattern. -/
def nearestBits (numerator denominator : Nat) : Nat :=
  let shift := (numerator / denominator).log2 - 23
  let spacing := denominator * Nat.pow 2 shift
  let quotient := numerator / spacing
  let twice := 2 * (numerator % spacing)
  let up := spacing < twice ∨ (spacing = twice ∧ quotient % 2 = 1)
  min infinityBits (shift * Nat.pow 2 23 + quotient + if up then 1 else 0)

/-- What a number is, apart from the payload of a NaN. -/
inductive Class where
  | nan
  | infinite (negative : Bool)
  | finite (negative : Bool) (bits : Nat)
  deriving DecidableEq, Repr

/-- The class of a number, read off its bit pattern. -/
def classify (x : Float32) : Class :=
  let bits := x.toBits.toNat
  let negative := decide (Nat.pow 2 31 ≤ bits)
  let magnitude := bits % Nat.pow 2 31
  if magnitude < infinityBits then .finite negative magnitude
  else if magnitude = infinityBits then .infinite negative
  else .nan

def ofMagnitude (negative : Bool) (bits : Nat) : Float32 :=
  .ofBits (.ofNat (if negative then Nat.pow 2 31 + bits else bits))

def nan : Float32 := .ofBits 0x7FC00000

def infinity (negative : Bool) : Float32 := ofMagnitude negative infinityBits

/-- The number nearest to an integer, a tie going to the even pattern. -/
def ofInt32 (n : Int32) : Float32 :=
  ofMagnitude (n.toInt < 0) (nearestBits (n.toInt.natAbs * Nat.pow 2 149) 1)

/-- What is left of `x` after taking away `y` as often as it fits, towards zero; it has the sign of
`x` and is exact. -/
def remainder (x y : Float32) : Float32 :=
  match classify x, classify y with
  | .finite negative bits, .finite _ divisor =>
    if divisor = 0 then nan
    else ofMagnitude negative (nearestBits (units bits % units divisor) 1)
  | .finite _ _, .infinite _ => x
  | _, _ => nan

end ImpStack.Binary32

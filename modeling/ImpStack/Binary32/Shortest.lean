import ImpStack.Binary32.Magnitude

/-!
The shortest decimal that reads back as a given magnitude. Every finite magnitude is a whole
multiple of `10 ^ -149`, so the search runs over grids of natural numbers, from the coarsest to that
one. Formatting promises no more than the fewest digits that read back, and of these the nearest.
-/
namespace ImpStack.Binary32

/-- Whether the decimal `candidate * 10 ^ -149` is read back as the magnitude `bits`: it lies
between the midpoints to the two neighbours, which belong to an even pattern. -/
def readsBack (bits candidate : Nat) : Bool :=
  let low := (units (bits - 1) + units bits) * Nat.pow 5 149
  let high := (units bits + units (bits + 1)) * Nat.pow 5 149
  if bits % 2 = 0 then low ≤ 2 * candidate && 2 * candidate ≤ high
  else low < 2 * candidate && 2 * candidate < high

/-- The multiple of `10 ^ (place - 149)` that reads back as the magnitude and is nearest to it, the
upper one of two equally near, as the number of these steps. Only the two neighbours of the
magnitude can be it. -/
def onGrid? (bits place : Nat) : Option Nat :=
  let exact := units bits * Nat.pow 5 149
  let step := Nat.pow 10 place
  let below := exact / step
  let lower := readsBack bits (below * step)
  let upper := readsBack bits ((below + 1) * step)
  if lower && (!upper || decide (2 * (exact % step) < step)) then some below
  else if upper then some (below + 1)
  else none

/-- The answer on the coarsest grid that has one, from `10 ^ (place - 149)` down. -/
def shortestFrom (bits : Nat) : (place : Nat) → Decimal
  | 0 => ⟨units bits * Nat.pow 5 149, -149⟩
  | place + 1 =>
    match onGrid? bits (place + 1) with
    | some digits => ⟨digits, (place + 1 : Int) - 149⟩
    | none => shortestFrom bits place

/-- The decimal with the fewest digits among those that read back as the finite magnitude, and of
these the nearest. No magnitude reaches `10 ^ 39`. -/
def shortest (bits : Nat) : Decimal :=
  if bits = 0 then ⟨0, 0⟩ else shortestFrom bits (39 + 149)

end ImpStack.Binary32

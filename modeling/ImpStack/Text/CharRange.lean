/-!
Runs of neighbouring code points, from which the two character classes of identifiers are built.
-/
namespace ImpStack.Text

/-- The first and the last code point of a run. -/
abbrev CharRange := Nat × Nat

namespace CharRange

def contains (range : CharRange) (c : Char) : Bool :=
  range.1 ≤ c.toNat && c.toNat ≤ range.2

/-- Whether the runs are not empty, ascend from `least` on and do not touch. -/
def areAscending (least : Nat) : List CharRange → Bool
  | [] => true
  | range :: rest => least ≤ range.1 && range.1 ≤ range.2 && areAscending (range.2 + 2) rest

end CharRange

end ImpStack.Text

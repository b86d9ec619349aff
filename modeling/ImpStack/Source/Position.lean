/-!
Places in a source text. Lines and columns start at one, and a column counts characters. Embeds the
positions of SPEC_FULL, section 3, and the way in which a cursor counts them (section 4.0): a line
feed belongs to the line that it ends, and no other character opens a line.
-/
namespace ImpStack

structure Position where
  line : Nat
  column : Nat
  deriving DecidableEq, Repr, Inhabited

namespace Position

/-- The place of the first character of every text. -/
def start : Position := ⟨1, 1⟩

/-- The place behind `c`, where `c` itself stands at `position`. Only a line feed opens a line. -/
def after (position : Position) (c : Char) : Position :=
  if c = '\n' then ⟨position.line + 1, 1⟩ else ⟨position.line, position.column + 1⟩

/-- The form in which a diagnostic names a place. -/
def text (position : Position) : String :=
  s!"{position.line}:{position.column}"

end Position

end ImpStack

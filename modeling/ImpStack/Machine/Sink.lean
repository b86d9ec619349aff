/-!
Where printed lines go, a line at a time. A refused line leaves nothing behind; a line that is
written in pieces, and may stay behind in part, is the business of `Channel`.
-/
namespace ImpStack

/-- The lines printed so far. A sink may refuse more than a number of lines, and it may refuse to
be flushed. -/
structure Sink where
  lines : Array String
  capacity : Option Nat
  flushes : Bool
  deriving DecidableEq, Repr

namespace Sink

/-- An empty sink that never refuses. -/
def unlimited : Sink := ⟨#[], none, true⟩

def isFull (sink : Sink) : Bool := sink.capacity.any (· ≤ sink.lines.size)

/-- A full sink refuses the whole line. -/
def write? (sink : Sink) (line : String) : Option Sink :=
  if sink.isFull then none else some { sink with lines := sink.lines.push line }

/-- The text of the lines behind the first `count`. -/
def textFrom (sink : Sink) (count : Nat) : String :=
  String.join ((sink.lines.toList.drop count).map (· ++ "\n"))

def text (sink : Sink) : String := sink.textFrom 0

end Sink

end ImpStack

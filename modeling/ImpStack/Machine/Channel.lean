import ImpStack.Machine.Value

/-!
The text of printed lines, which is written in pieces. A line that is refused in the middle keeps
the pieces that are written already: formatted output reaches its writer one piece after another
(SPEC_FULL, section 4.6, `with_output`).
-/
namespace ImpStack

/-- How the text of a value is cut into the pieces that are written one by one. -/
structure Spelling where
  pieces : Value → List String
  join_pieces (value : Value) : String.join (pieces value) = value.text

/-- The number of full lines of a text. -/
def fullLines (text : String) : Nat := text.toList.count '\n'

/-- The text written so far. A channel may refuse whatever is written once it holds a number of full
lines, and it may refuse to be flushed. -/
structure Channel where
  text : String
  capacity : Option Nat
  flushes : Bool
  deriving DecidableEq, Repr

namespace Channel

/-- An empty channel that never fails. -/
def unlimited : Channel := ⟨"", none, true⟩

/-- An empty channel that holds `count` lines and can be flushed. -/
def limited (count : Nat) : Channel := ⟨"", some count, true⟩

def isFull (channel : Channel) : Bool := channel.capacity.any (· ≤ fullLines channel.text)

/-- Writes one piece, unless the channel is full. -/
def write? (channel : Channel) (piece : String) : Option Channel :=
  if channel.isFull then none else some { channel with text := channel.text ++ piece }

/-- Writes the pieces up to the first that is refused, and tells whether there was none. -/
def writePieces (channel : Channel) : List String → Channel × Bool
  | [] => (channel, true)
  | piece :: pieces =>
    match channel.write? piece with
    | none => (channel, false)
    | some channel => channel.writePieces pieces

end Channel

end ImpStack

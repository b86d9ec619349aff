import ImpStack.Source.Position

/-!
The character that a diagnostic marks. A viewer of diagnostics ends a line at more characters than
the line feed that positions count, so a place is looked up by its line number and may come out
elsewhere in a text that holds one of those characters.

Embeds `char_span` (SPEC_FULL, section 7) together with what it asks of the viewer, the start of a
line by its number. `Span.ofLines` is that function with the viewer left open; `Line.start?` is the
viewer that is used.
-/
namespace ImpStack

/-- A run of characters, by their numbers in the text; `stop` is the first one behind it. -/
structure Span where
  start : Nat
  stop : Nat
  deriving DecidableEq, Repr

namespace Line

/-- The characters that end a line for a viewer. A carriage return and a line feed behind it are
one end. -/
def isTerminator (c : Char) : Bool :=
  c = '\n' || c = '\r' || c = '\x0b' || c = '\x0c' || c = '\u0085' || c = '\u2028' || c = '\u2029'

/-- Where the line `count` lines below the current one starts, for a text whose first character is
number `offset`. No line starts at the end of the text, except in an empty one. -/
def start? : Nat → Nat → List Char → Option Nat
  | 0, offset, _ => some offset
  | _ + 1, _, [] => none
  | count + 1, offset, '\r' :: '\n' :: rest =>
    if rest.isEmpty then none else start? count (offset + 2) rest
  | count + 1, offset, c :: rest =>
    if isTerminator c then
      if rest.isEmpty then none else start? count (offset + 1) rest
    else start? (count + 1) (offset + 1) rest

end Line

/-- The single character to mark for `position` where `lineStart` says at which character a line,
counted from zero, starts: its column counted from the start of its line, and the last character of
the text when that lies behind the end or there is no such line. -/
def Span.ofLines (lineStart : Nat → Option Nat) (source : String) (position : Position) : Span :=
  let total := source.toList.length
  let offset :=
    match lineStart (position.line - 1) with
    | some start => start + (position.column - 1)
    | none => total
  let start := min offset (total - 1)
  if total = 0 then ⟨0, 0⟩ else ⟨start, start + 1⟩

/-- The single character to mark for `position`, by the lines of a viewer. -/
def Span.ofPosition (source : String) (position : Position) : Span :=
  .ofLines (fun line => Line.start? line 0 source.toList) source position

end ImpStack

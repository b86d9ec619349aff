import ImpStack.Source.Position

/-!
A cursor that only moves forward over a text. It counts the UTF-8 bytes behind it and knows the line
and the column of the character under it.

Embeds the source cursor of SPEC_FULL, section 4.0: `current?`, `peek?`, `atEnd`, `advance` and
`advanceTo` are its `current`, `peek`, `is_eof`, `advance` and `advance_to`. The characters behind
the cursor are not kept, since nothing looks back; only their bytes and their place are counted.
-/
namespace ImpStack

/-- The text from the current character on, the number of bytes before it and its place. -/
structure Cursor where
  rest : List Char
  offset : Nat
  position : Position
  deriving DecidableEq, Repr

namespace Cursor

def ofText (source : String) : Cursor := ⟨source.toList, 0, .start⟩

def current? (cursor : Cursor) : Option Char := cursor.rest.head?

/-- The character behind the current one. -/
def peek? (cursor : Cursor) : Option Char := cursor.rest[1]?

def atEnd (cursor : Cursor) : Bool := cursor.rest.isEmpty

/-- At the end of the text the cursor stays. -/
def advance (cursor : Cursor) : Cursor :=
  match cursor.rest with
  | [] => cursor
  | c :: rest => ⟨rest, cursor.offset + c.utf8Size, cursor.position.after c⟩

def advanceBy (cursor : Cursor) : Nat → Cursor
  | 0 => cursor
  | count + 1 => cursor.advance.advanceBy count

/-- The first character boundary at or behind the byte offset `target`, looking forward from
`offset`. -/
def seek (target : Nat) : List Char → Nat → Position → Cursor
  | [], offset, position => ⟨[], offset, position⟩
  | c :: rest, offset, position =>
    if offset < target then seek target rest (offset + c.utf8Size) (position.after c)
    else ⟨c :: rest, offset, position⟩

/-- Moves on until the byte offset `target` is reached or passed, or the text ends. A target inside
a character is passed; one behind the cursor changes nothing. -/
def advanceTo (cursor : Cursor) (target : Nat) : Cursor :=
  seek target cursor.rest cursor.offset cursor.position

@[simp]
theorem advanceBy_rest (cursor : Cursor) (count : Nat) :
    (cursor.advanceBy count).rest = cursor.rest.drop count := by
  induction count generalizing cursor with
  | zero => rfl
  | succ count ih =>
    rw [advanceBy, ih, advance]
    split
    · next empty => simp [empty]
    · next here => simp [here]

end Cursor

end ImpStack

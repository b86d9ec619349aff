import Mathlib.Order.Bounds.Defs
import ImpStack.Proofs.Places

/-!
A cursor (SPEC_FULL, section 4.0) is told by its byte offset. However it was moved, its offset lies
between two characters, it shows the text behind that place, and its line and column count what is
in front of it. A target leads to the first such place that is not in front of it, also if it points
into the middle of a character (`Cursor.told_by_offset`).

What carries this through all moves is that a cursor stands between two parts of the source
(`Cursor.afterMoves_eq_between`).
-/
namespace ImpStack

open String (utf8Len)

namespace Cursor

/-- What can be done to a cursor. -/
inductive Move where
  | advance
  | advanceTo (target : Nat)
  deriving DecidableEq, Repr

def move (cursor : Cursor) : Move → Cursor
  | .advance => cursor.advance
  | .advanceTo target => cursor.advanceTo target

/-- A cursor over the source behind several moves. -/
def afterMoves (source : String) (moves : List Move) : Cursor := moves.foldl move (ofText source)

/-- The byte offset lies between two characters of the source, or at an end of it. -/
def IsBoundary (source : String) (offset : Nat) : Prop :=
  String.Pos.Raw.IsValid source ⟨offset⟩

/-- The characters in front of a byte offset. -/
def textBefore (source : String) (offset : Nat) : List Char :=
  (String.Pos.Raw.extract source 0 ⟨offset⟩).toList

/-- The characters behind a byte offset. -/
def textBehind (source : String) (offset : Nat) : List Char :=
  (String.Pos.Raw.extract source ⟨offset⟩ source.rawEndPos).toList

/-- The cursor at a byte offset: its line counts the line feeds in front of it, its column the
characters since the last of them. -/
def standingAt (source : String) (offset : Nat) : Cursor where
  rest := textBehind source offset
  offset := offset
  position :=
    ⟨1 + (textBefore source offset).count '\n',
      1 + ((textBefore source offset).rtakeWhile (· ≠ '\n')).length⟩

variable {source : String} {before part rest : List Char} {offset target : Nat}

/-! ### Splitting a source -/

/-- In front of a place between characters stand the characters of the first part. -/
theorem textBefore_eq (split : source.toList = before ++ rest) :
    textBefore source (utf8Len before) = before := by
  have front : source.toList = [] ++ before ++ rest := split
  have extracted : String.Pos.Raw.extract source 0 ⟨utf8Len before⟩ = String.ofList before :=
    extract_between front
  rw [textBefore, extracted, String.toList_ofList]

theorem textBehind_eq (split : source.toList = before ++ rest) :
    textBehind source (utf8Len before) = rest := by
  have size_eq : source.rawEndPos = ⟨utf8Len (before ++ rest)⟩ := by
    rw [String.rawEndPos, utf8ByteSize_eq, split]
  have whole : source.toList = before ++ rest ++ [] := by rw [split, List.append_nil]
  rw [textBehind, size_eq, extract_between whole, String.toList_ofList]

/-- Boundaries are the places at which the source can be split. -/
theorem isBoundary_iff :
    IsBoundary source offset ↔
      ∃ before rest, source.toList = before ++ rest ∧ offset = utf8Len before := by
  rw [IsBoundary, String.Pos.Raw.isValid_iff_exists_append]
  constructor
  · rintro ⟨front, back, rfl, at_eq⟩
    refine ⟨front.toList, back.toList, String.toList_append, ?_⟩
    rw [← utf8ByteSize_eq]
    exact congrArg String.Pos.Raw.byteIdx at_eq
  · rintro ⟨before, rest, split, rfl⟩
    refine ⟨String.ofList before, String.ofList rest, ?_, ?_⟩
    · rw [← String.ofList_append, ← split, String.ofList_toList]
    · rw [String.rawEndPos_ofList]

theorem between_eq_standingAt (split : source.toList = before ++ rest) :
    between before rest = standingAt source (utf8Len before) := by
  rw [standingAt, textBefore_eq split, textBehind_eq split, ← Position.ofIndex_length,
    ← Position.behind_eq_ofIndex]
  rfl

/-! ### Moving -/

/-- One step is a move to the next byte, which ends at the next character. -/
theorem advance_eq_advanceTo (cursor : Cursor) :
    cursor.advance = cursor.advanceTo (cursor.offset + 1) := by
  obtain ⟨text, offset, position⟩ := cursor
  cases text with
  | nil => rfl
  | cons c rest =>
    have behind : offset + 1 ≤ offset + c.utf8Size := Nat.add_le_add_left c.utf8Size_pos offset
    have passed : advanceTo ⟨rest, offset + c.utf8Size, position.after c⟩ (offset + 1) =
        ⟨rest, offset + c.utf8Size, position.after c⟩ := advanceTo_of_le behind
    simpa [advance, advanceTo, seek] using passed.symm

/-- A cursor passes the characters that begin in front of the target and no others. -/
theorem advanceTo_between (before rest : List Char) (target : Nat) :
    ∃ part later, rest = part ++ later ∧
      (between before rest).advanceTo target = between (before ++ part) later ∧
      (target ≤ utf8Len (before ++ part) ∨ later = []) ∧
      ∀ shorter c more, part = shorter ++ c :: more → utf8Len (before ++ shorter) < target := by
  induction rest generalizing before with
  | nil => exact ⟨[], [], rfl, by simp [between, advanceTo, seek], .inr rfl, by simp⟩
  | cons c rest ih =>
    by_cases short : utf8Len before < target
    · obtain ⟨part, later, rfl, moved, far, passed⟩ := ih (before ++ [c])
      refine ⟨c :: part, later, rfl, ?_, ?_, ?_⟩
      · rw [List.append_cons before c part, ← moved, between_append_singleton]
        simp [advanceTo, seek, between, short]
      · rwa [List.append_cons before c part]
      · intro shorter d more split
        cases shorter with
        | nil => rwa [List.append_nil]
        | cons _ shorter =>
          obtain ⟨rfl, same⟩ := List.cons.inj split
          rw [List.append_cons before c shorter]
          exact passed shorter d more same
    · refine ⟨[], c :: rest, rfl, ?_, .inl (by simpa using short), by simp⟩
      rw [advanceTo_of_le (Nat.le_of_not_lt short), List.append_nil]

/-- Moves split the source. The first part is behind the cursor. -/
theorem afterMoves_eq_between (source : String) (moves : List Move) :
    ∃ before rest, source.toList = before ++ rest ∧
      afterMoves source moves = between before rest := by
  induction moves using List.reverseRecOn with
  | nil => exact ⟨[], source.toList, rfl, rfl⟩
  | append_singleton moves move ih =>
    obtain ⟨before, rest, split, moved⟩ := ih
    have behind : afterMoves source (moves ++ [move]) = (between before rest).move move := by
      rw [afterMoves, List.foldl_append, ← moved]
      rfl
    obtain ⟨target, towards⟩ : ∃ target,
        (between before rest).move move = (between before rest).advanceTo target := by
      cases move with
      | advance => exact ⟨_, advance_eq_advanceTo _⟩
      | advanceTo target => exact ⟨target, rfl⟩
    obtain ⟨part, later, rfl, reached, -, -⟩ := advanceTo_between before rest target
    refine ⟨before ++ part, later, by rw [split, List.append_assoc], ?_⟩
    rw [behind, towards, reached]

/-- A beginning that reaches a byte ends at the first boundary that is not in front of it. -/
theorem isLeast_of_reaches (split : source.toList = before ++ rest)
    (reaches : Reaches target before) :
    IsLeast {offset | IsBoundary source offset ∧ target ≤ offset} (utf8Len before) := by
  refine ⟨⟨isBoundary_iff.mpr ⟨before, rest, split, rfl⟩, reaches.enough⟩, ?_⟩
  rintro _ ⟨boundary, enough⟩
  obtain ⟨other, behind, otherSplit, rfl⟩ := isBoundary_iff.mp boundary
  rcases List.append_eq_append_iff.mp (split.symm.trans otherSplit) with
    ⟨more, longer, -⟩ | ⟨more, longer, -⟩
  · rw [longer, String.utf8Len_append]
    exact Nat.le_add_right _ _
  · cases more with
    | nil => rw [longer, List.append_nil]
    | cons c more => exact absurd (reaches.shortest longer) (Nat.not_lt.mpr enough)

/-- A target in front of the cursor is reached, or the end of the source. -/
theorem reaches_advanceTo (rest : List Char) (ahead : utf8Len before < target) :
    ∃ part later, rest = part ++ later ∧
      (between before rest).advanceTo target = between (before ++ part) later ∧
      Reaches (min target (utf8Len (before ++ rest))) (before ++ part) := by
  obtain ⟨part, later, rfl, moved, far, passed⟩ := advanceTo_between before rest target
  refine ⟨part, later, rfl, moved, ?_, fun {shorter c more} longer => ?_⟩
  · rcases far with enough | rfl
    · exact Nat.le_trans (Nat.min_le_left _ _) enough
    · rw [List.append_nil]
      exact Nat.min_le_right _ _
  · have inside : utf8Len shorter < utf8Len (before ++ (part ++ later)) := by
      have positive := c.utf8Size_pos
      rw [← List.append_assoc, longer]
      simp only [String.utf8Len_append, String.utf8Len_cons]
      omega
    refine Nat.lt_min.mpr ⟨?_, inside⟩
    rcases List.append_eq_append_iff.mp longer with ⟨front, shorter_eq, part_eq⟩ |
      ⟨back, before_eq, -⟩
    · rw [shorter_eq]
      exact passed front c more part_eq
    · refine Nat.lt_of_le_of_lt ?_ ahead
      rw [before_eq, String.utf8Len_append]
      exact Nat.le_add_right _ _

/-- However a cursor has been moved, its byte offset lies between two characters, and it says what
the line and the column are and which characters come next. A target ahead of the cursor leads to
the first place between characters that is not in front of it, or to the end; another one changes
nothing. Of two targets the later one counts. -/
theorem told_by_offset (source : String) (moves : List Move) :
    let cursor := afterMoves source moves
    IsBoundary source cursor.offset ∧
    cursor = standingAt source cursor.offset ∧
    cursor.current? = (textBehind source cursor.offset)[0]? ∧
    cursor.peek? = (textBehind source cursor.offset)[1]? ∧
    cursor.advance = cursor.advanceTo (cursor.offset + 1) ∧
    (∀ target, cursor.offset < target →
      IsLeast {offset | IsBoundary source offset ∧ min target source.utf8ByteSize ≤ offset}
        (cursor.advanceTo target).offset) ∧
    (∀ target ≤ cursor.offset, cursor.advanceTo target = cursor) ∧
    (∀ first second,
      (cursor.advanceTo first).advanceTo second = cursor.advanceTo (max first second)) := by
  obtain ⟨before, rest, split, moved⟩ := afterMoves_eq_between source moves
  -- Whatever the moves were, they led to a place between two parts of the text.
  simp only [moved, between_offset]
  have behind_eq := textBehind_eq split
  refine ⟨isBoundary_iff.mpr ⟨before, rest, split, rfl⟩, between_eq_standingAt split, ?_, ?_,
    advance_eq_advanceTo _, fun target ahead => ?_, fun target le => advanceTo_of_le le,
    advanceTo_advanceTo _⟩
  · rw [behind_eq, ← List.head?_eq_getElem?]
    rfl
  · rw [behind_eq]
    rfl
  · obtain ⟨part, later, rfl, reached, reaches⟩ := reaches_advanceTo rest ahead
    have splitLater : source.toList = before ++ part ++ later := by rw [split, List.append_assoc]
    rw [reached, utf8ByteSize_eq, split]
    exact isLeast_of_reaches splitLater reaches

/-- Behind a target that cuts a character, with a target beyond the end and one passed already. -/
theorem told_by_offset_cut :
    let source := "é\n+€x"
    let cursor := afterMoves source [.advanceTo 1, .advance, .advanceTo 5]
    cursor = ⟨['x'], 7, ⟨2, 3⟩⟩ ∧ cursor = standingAt source 7 ∧
    (cursor.offset < 100 ∧
      IsLeast {offset | IsBoundary source offset ∧ min 100 source.utf8ByteSize ≤ offset}
        (cursor.advanceTo 100).offset) ∧
    (5 ≤ cursor.offset ∧ cursor.advanceTo 5 = cursor) := by
  intro source cursor
  have stands : cursor = ⟨['x'], 7, ⟨2, 3⟩⟩ := by decide
  have offset_eq : cursor.offset = 7 := congrArg Cursor.offset stands
  have ahead : cursor.offset < 100 := by omega
  have passed : 5 ≤ cursor.offset := by omega
  obtain ⟨-, state_eq, -, -, -, forward, still, -⟩ :=
    told_by_offset source [.advanceTo 1, .advance, .advanceTo 5]
  refine ⟨stands, ?_, ⟨ahead, forward 100 ahead⟩, ⟨passed, still 5 passed⟩⟩
  rw [← offset_eq]
  exact state_eq

end Cursor

end ImpStack

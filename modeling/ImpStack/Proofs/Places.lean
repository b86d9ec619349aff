import Mathlib.Data.List.DropRight
import Mathlib.Data.String.Basic
import ImpStack.Source.Cursor

/-!
Places as functions of the text in front of them: the position that a reader of that text comes to
(SPEC_FULL, section 3), and the cursor that has it behind. A byte offset stands for the first place
between characters that is not in front of it (`Reaches`), and `Cursor.advanceTo` goes there
(`Cursor.advanceTo_of_reaches`).
-/
namespace ImpStack

open String (utf8Len)

namespace Position

/-- The place of character number `index`: the line feeds in front of it give the line, the
characters since the last of them the column. -/
def ofIndex (text : List Char) (index : Nat) : Position where
  line := 1 + (text.take index).count '\n'
  column := 1 + ((text.take index).rtakeWhile (· ≠ '\n')).length

/-- The place behind `text`. -/
def behind (text : List Char) : Position := text.foldl after start

@[simp]
theorem behind_nil : behind [] = start := rfl

/-- One more character moves the place by one step. -/
theorem behind_append_singleton (text : List Char) (c : Char) :
    behind (text ++ [c]) = (behind text).after c := by
  simp [behind]

/-- Steps over a text lead to the place behind it. -/
theorem foldl_after (before text : List Char) :
    text.foldl after (behind before) = behind (before ++ text) := by
  simp [behind]

theorem ofIndex_length (text : List Char) :
    ofIndex text text.length =
      ⟨1 + text.count '\n', 1 + (text.rtakeWhile (· ≠ '\n')).length⟩ := by
  simp [ofIndex]

/-- To walk over a text is to count its line feeds and the characters since the last of them. -/
theorem behind_eq_ofIndex (text : List Char) : behind text = ofIndex text text.length := by
  induction text using List.reverseRecOn with
  | nil => rfl
  | append_singleton text c ih =>
    rw [behind_append_singleton, ih, ofIndex_length, ofIndex_length]
    by_cases feed : c = '\n'
    · simp [after, feed, Nat.add_assoc]
    · simp [after, feed, Nat.add_assoc]

/-- The place behind a text does not depend on what follows. -/
theorem behind_eq_ofIndex_append (before rest : List Char) :
    behind before = ofIndex (before ++ rest) before.length := by
  rw [behind_eq_ofIndex]
  simp [ofIndex]

end Position

variable {source : String} {target : Nat} {before part rest : List Char} {c : Char}

/-- Between whole characters, bytes say what characters say. -/
theorem extract_between {part : List Char} (split : source.toList = before ++ part ++ rest) :
    String.Pos.Raw.extract source ⟨utf8Len before⟩ ⟨utf8Len (before ++ part)⟩ =
      String.ofList part := by
  rw [← String.ofList_toList (s := source), split, String.utf8Len_append]
  exact String.extract_of_valid before part rest

theorem utf8ByteSize_eq (source : String) : source.utf8ByteSize = utf8Len source.toList := by
  rw [← String.utf8ByteSize_ofList, String.ofList_toList]

/-- `before` is the shortest beginning of its text that has at least `target` bytes. -/
structure Reaches (target : Nat) (before : List Char) : Prop where
  enough : target ≤ utf8Len before
  shortest : ∀ {shorter c later}, before = shorter ++ c :: later → utf8Len shorter < target

namespace Reaches

theorem whole (before : List Char) : Reaches (utf8Len before) before where
  enough := Nat.le_refl _
  shortest := by
    intro shorter c later split
    simp only [split, String.utf8Len_append, String.utf8Len_cons]
    have := c.utf8Size_pos
    omega

/-- No two beginnings of one text reach the same byte. -/
theorem unique {first second firstRest secondRest : List Char} (left : Reaches target first)
    (right : Reaches target second) (same : first ++ firstRest = second ++ secondRest) :
    first = second ∧ firstRest = secondRest := by
  rcases List.append_eq_append_iff.mp same with ⟨more, longer, rests⟩ | ⟨more, longer, rests⟩
  · cases more with
    | nil => simpa [eq_comm] using And.intro longer rests
    | cons c more =>
      have := right.shortest longer
      have := left.enough
      omega
  · cases more with
    | nil => simpa [eq_comm] using And.intro longer rests
    | cons c more =>
      have := left.shortest longer
      have := right.enough
      omega

/-- A later byte is reached at the same place if that is far enough. -/
theorem later {further : Nat} (reaches : Reaches target before) (le : target ≤ further)
    (enough : further ≤ utf8Len before) : Reaches further before where
  enough := enough
  shortest split := Nat.lt_of_lt_of_le (reaches.shortest split) le

end Reaches

/-- A character is passed only if what is in front of it is too short. -/
theorem shortest_append_singleton (short : utf8Len before < target) {shorter later : List Char}
    {d : Char} (split : before ++ [c] = shorter ++ d :: later) : utf8Len shorter < target := by
  have isPrefix : shorter <+: before := by
    have shorterPrefix : shorter <+: before ++ [c] := ⟨d :: later, split.symm⟩
    rcases List.prefix_concat_iff.mp shorterPrefix with whole | isPrefix
    · have lengths := congrArg List.length (whole ▸ split)
      simp at lengths
    · exact isPrefix
  exact Nat.lt_of_le_of_lt (String.utf8Len_le_of_prefix isPrefix) short

namespace Cursor

/-- The cursor with `before` behind it and `rest` in front of it. -/
def between (before rest : List Char) : Cursor := ⟨rest, utf8Len before, .behind before⟩

@[simp] theorem between_rest : (between before rest).rest = rest := rfl

@[simp] theorem between_offset : (between before rest).offset = utf8Len before := rfl

@[simp] theorem between_position : (between before rest).position = .behind before := rfl

/-- The step that every walk over the text repeats. -/
theorem between_append_singleton (before rest : List Char) (c : Char) :
    between (before ++ [c]) rest =
      ⟨rest, utf8Len before + c.utf8Size, (Position.behind before).after c⟩ := by
  simp [between, Position.behind_append_singleton]

/-- A cursor passes whole characters until the target is reached. -/
theorem advanceTo_of_reaches (reaches : Reaches target (before ++ part)) :
    (between before (part ++ rest)).advanceTo target = between (before ++ part) rest := by
  induction part generalizing before with
  | nil =>
    have reached : ¬ utf8Len before < target := by simpa using reaches.enough
    cases rest with
    | nil => simp [advanceTo, seek, between]
    | cons c rest => simp [advanceTo, seek, between, reached]
  | cons c part ih =>
    have short : utf8Len before < target := reaches.shortest rfl
    have step : (between before (c :: part ++ rest)).advanceTo target =
        (between (before ++ [c]) (part ++ rest)).advanceTo target := by
      rw [between_append_singleton]
      simp [advanceTo, seek, between, short]
    rw [step, ih (by simpa using reaches)]
    simp

/-- A target that is not in front of the cursor changes nothing. -/
theorem advanceTo_of_le {cursor : Cursor} (le : target ≤ cursor.offset) :
    cursor.advanceTo target = cursor := by
  obtain ⟨text, offset, position⟩ := cursor
  cases text with
  | nil => rfl
  | cons c rest => simp [advanceTo, seek, Nat.not_lt.mpr le]

/-- Of two targets the later one counts. -/
theorem advanceTo_advanceTo (cursor : Cursor) (first second : Nat) :
    (cursor.advanceTo first).advanceTo second = cursor.advanceTo (max first second) := by
  obtain ⟨text, offset, position⟩ := cursor
  induction text generalizing offset position with
  | nil => rfl
  | cons c rest ih =>
    by_cases short : offset < first
    · have shorter : offset < max first second := Nat.lt_of_lt_of_le short (Nat.le_max_left _ _)
      simpa [advanceTo, seek, short, shorter] using ih (offset + c.utf8Size) (position.after c)
    · have passed : ∀ target ≤ first, advanceTo ⟨c :: rest, offset, position⟩ target =
          ⟨c :: rest, offset, position⟩ :=
        fun target le => advanceTo_of_le (Nat.le_trans le (Nat.le_of_not_lt short))
      rw [passed first (Nat.le_refl _)]
      rcases Nat.le_total first second with le | le
      · rw [Nat.max_eq_right le]
      · rw [Nat.max_eq_left le, passed first (Nat.le_refl _), passed second le]

end Cursor

end ImpStack

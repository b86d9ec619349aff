import ImpStack.Proofs.Places
import ImpStack.Source.Line

/-!
Which character a diagnostic marks (SPEC_FULL, section 7). Positions count line feeds, a viewer
counts more ends of lines; the character marked is the right one exactly where the two have counted
the same lines so far (`Span.marks_character_iff`). Of the viewer nothing is used but how it splits
lines (`Line.Splits`).

The lines of a viewer are said by the characters at which they end, and the walk over a text is
shown to find them (`Line.splits_start?`). They come to the lines of a position by counting: the
viewer has counted as many as the position if no line has ended for it alone
(`Line.endsBefore_eq_count_iff`).
-/
namespace ImpStack

namespace Line

variable {text rest : List Char} {c : Char} {index start line : Nat}

/-- With the character number `index` a line ends for a viewer. -/
def endsAt (text : List Char) (index : Nat) : Bool :=
  text[index]?.any fun c => isTerminator c && !(c = '\r' && text[index + 1]? = some '\n')

/-- How many lines end in front of the character number `index`. -/
def endsBefore (text : List Char) (index : Nat) : Nat := (List.range index).countP (endsAt text)

/-- A line starts with the character number `start`: at the beginning, or behind the end of a line
unless that is the end of the text. -/
def Opens (text : List Char) (start : Nat) : Prop :=
  start = 0 ∨ start < text.length ∧ endsAt text (start - 1) = true

/-- How a viewer splits a text: the lines that start are numbered in their order, from zero. -/
def Splits (text : List Char) (lineStart : Nat → Option Nat) : Prop :=
  ∀ line start, lineStart line = some start ↔ Opens text start ∧ endsBefore text start = line

/-- With the character number `index` a line ends for a viewer and for no one else. -/
def EndsForViewer (text : List Char) (index : Nat) : Prop :=
  endsAt text index = true ∧ text[index]? ≠ some '\n'

/-! ### Lines from the left -/

/-- Whether a line ends is seen from its last character and the one behind it. -/
theorem endsAt_cons_succ (c : Char) (rest : List Char) (index : Nat) :
    endsAt (c :: rest) (index + 1) = endsAt rest index := by
  simp [endsAt]

theorem endsBefore_succ (text : List Char) (index : Nat) :
    endsBefore text (index + 1) = endsBefore text index + if endsAt text index then 1 else 0 := by
  simp [endsBefore, List.range_succ, List.countP_cons]

/-- The first character may end a line, the others end as many as they do by themselves. -/
theorem endsBefore_cons_succ (c : Char) (rest : List Char) (index : Nat) :
    endsBefore (c :: rest) (index + 1) =
      (if endsAt (c :: rest) 0 then 1 else 0) + endsBefore rest index := by
  simp only [endsBefore, List.range_succ_eq_map, List.countP_cons, List.countP_map]
  rw [Nat.add_comm]
  congr 1

/-- Behind the first character, lines open where they do in the text that is left. The first line of
that text is one of its own only if the first character ends a line. -/
theorem opens_cons_succ (c : Char) (rest : List Char) (index : Nat) :
    Opens (c :: rest) (index + 1) ↔
      (endsAt (c :: rest) 0 = true ∧ rest ≠ [] ∨ index ≠ 0) ∧ Opens rest index := by
  cases index with
  | zero => simp [Opens, List.length_pos_iff, and_comm]
  | succ index => simp [Opens, endsAt_cons_succ]

/-- A line that is not the first one has another one in front of it. -/
theorem endsBefore_pos (opens : Opens text start) (behind : start ≠ 0) :
    0 < endsBefore text start := by
  obtain ⟨index, rfl⟩ := Nat.exists_eq_succ_of_ne_zero behind
  have ends : endsAt text index = true := (opens.resolve_left behind).2
  simp [endsBefore_succ, ends]

/-- Where a line starts that is not the first one, by the character at the front. -/
theorem opens_cons_iff (line start : Nat) :
    Opens (c :: rest) start ∧ endsBefore (c :: rest) start = line + 1 ↔
      ∃ later, start = later + 1 ∧ Opens rest later ∧
        if endsAt (c :: rest) 0 then rest ≠ [] ∧ endsBefore rest later = line
        else endsBefore rest later = line + 1 := by
  cases start with
  | zero => simp [endsBefore]
  | succ later =>
    simp only [Nat.add_right_cancel_iff, exists_eq_left', opens_cons_succ, endsBefore_cons_succ]
    by_cases ends : endsAt (c :: rest) 0 = true
    · have inside : Opens rest later → later ≠ 0 → rest ≠ [] := by
        rintro opens behind rfl
        exact absurd (opens.resolve_left behind).1 (Nat.not_lt_zero _)
      simp only [ends, true_and, if_true, Nat.add_comm 1, Nat.add_right_cancel_iff]
      tauto
    · have positive : Opens rest later → endsBefore rest later = line + 1 → later ≠ 0 := by
        rintro _ count rfl
        simp [endsBefore] at count
      simp only [ends, Bool.false_eq_true, false_and, false_or, if_false, Nat.zero_add]
      tauto

/-- A line that is not the first one starts behind the character at the front. -/
theorem exists_opens_cons_iff (line offset place : Nat) :
    (∃ start, place = offset + start ∧
        Opens (c :: rest) start ∧ endsBefore (c :: rest) start = line + 1) ↔
      ∃ later, place = offset + 1 + later ∧ Opens rest later ∧
        if endsAt (c :: rest) 0 then rest ≠ [] ∧ endsBefore rest later = line
        else endsBefore rest later = line + 1 := by
  simp only [opens_cons_iff]
  constructor
  · rintro ⟨_, rfl, later, rfl, found⟩
    exact ⟨later, by omega, found⟩
  · rintro ⟨later, rfl, found⟩
    exact ⟨later + 1, by omega, later, rfl, found⟩

theorem endsAt_zero_of_isTerminator (ends : isTerminator c = true)
    (single : ∀ later, c = '\r' → rest = '\n' :: later → False) :
    endsAt (c :: rest) 0 = true := by
  have apart : c = '\r' → rest[0]? ≠ some '\n' := by
    intro isReturn feed
    cases rest with
    | nil => cases feed
    | cons d later =>
      obtain rfl := Option.some.inj feed
      exact single later isReturn rfl
  simpa [endsAt, ends, imp_iff_not_or] using apart

/-- The walk over a text finds the lines of a viewer. -/
theorem start?_eq_some_iff (line offset : Nat) (text : List Char) (place : Nat) :
    start? line offset text = some place ↔
      ∃ start, place = offset + start ∧ Opens text start ∧ endsBefore text start = line := by
  fun_induction start? line offset text generalizing place with
  | case1 offset text =>
    constructor
    · rintro ⟨⟩
      exact ⟨0, rfl, .inl rfl, rfl⟩
    · rintro ⟨start, rfl, opens, count⟩
      by_cases first : start = 0
      · rw [first, Nat.add_zero]
      · exact absurd count (Nat.pos_iff_ne_zero.mp (endsBefore_pos opens first))
  | case2 line offset =>
    constructor
    · rintro ⟨⟩
    · rintro ⟨start, rfl, opens, count⟩
      rcases opens with rfl | inside
      · cases count
      · exact absurd inside.1 (Nat.not_lt_zero _)
  -- A carriage return in front of a line feed ends no line, the line feed does.
  | case3 line offset rest empty =>
    obtain rfl := List.isEmpty_iff.mp empty
    simp [exists_opens_cons_iff, endsAt, isTerminator]
  | case4 line offset rest more ih =>
    have nonempty : rest ≠ [] := by simpa using more
    simp [exists_opens_cons_iff, endsAt, isTerminator, nonempty, ih]
  | case5 line offset c rest single ends empty =>
    have here := endsAt_zero_of_isTerminator ends single
    obtain rfl := List.isEmpty_iff.mp empty
    simp [exists_opens_cons_iff, here]
  | case6 line offset c rest single ends more ih =>
    have here := endsAt_zero_of_isTerminator ends single
    have nonempty : rest ≠ [] := by simpa using more
    simp [exists_opens_cons_iff, here, nonempty, ih]
  | case7 line offset c rest single inside ih =>
    have here : endsAt (c :: rest) 0 = false := by
      simp [endsAt, inside]
    simp [exists_opens_cons_iff, here, ih]

/-- The lines that the walk finds are those of a viewer. -/
theorem splits_start? (text : List Char) : Splits text fun line => start? line 0 text := by
  intro line start
  simp [start?_eq_some_iff]

/-! ### Two ways of counting lines -/

/-- The lines that end for a viewer are those that end with a line feed and those that end for no
one else. -/
theorem endsBefore_eq (text : List Char) (index : Nat) :
    endsBefore text index =
      (text.take index).count '\n' +
        (List.range index).countP fun index => endsAt text index && text[index]? ≠ some '\n' := by
  induction index with
  | zero => simp [endsBefore]
  | succ index ih =>
    rw [endsBefore_succ, ih, List.range_succ, List.countP_append, List.take_add_one,
      List.count_append, List.countP_singleton]
    by_cases feed : text[index]? = some '\n'
    · have ends : endsAt text index = true := by simp [endsAt, feed, isTerminator]
      simp [feed, ends]
      omega
    · have none : (text[index]?.toList).count '\n' = 0 :=
        List.count_eq_zero.mpr (mt Option.mem_toList.mp feed)
      simp [feed, none, Nat.add_assoc]

theorem endsBefore_eq_count_iff (text : List Char) (index : Nat) :
    endsBefore text index = (text.take index).count '\n' ↔
      ∀ earlier < index, ¬ EndsForViewer text earlier := by
  rw [endsBefore_eq, Nat.add_eq_left, List.countP_eq_zero]
  simp [EndsForViewer]

/-- Lines are not left out: of every number up to that of a place there is a line that starts at or
in front of it. -/
theorem exists_opens {line index : Nat} (inside : index < text.length)
    (le : line ≤ endsBefore text index) :
    ∃ start ≤ index, Opens text start ∧ endsBefore text start = line := by
  induction index with
  | zero => exact ⟨0, Nat.le_refl 0, .inl rfl, (Nat.le_zero.mp le).symm⟩
  | succ index ih =>
    by_cases earlier : line ≤ endsBefore text index
    · obtain ⟨start, before, found⟩ := ih (Nat.lt_of_succ_lt inside) earlier
      exact ⟨start, Nat.le_succ_of_le before, found⟩
    · rw [endsBefore_succ] at le
      split at le
      · next ends =>
        refine ⟨index + 1, Nat.le_refl _, .inr ⟨inside, ends⟩, ?_⟩
        rw [endsBefore_succ, if_pos ends]
        omega
      · omega

/-- Further on, more lines have ended. -/
theorem endsBefore_mono {earlier later : Nat} (le : earlier ≤ later) :
    endsBefore text earlier ≤ endsBefore text later := by
  induction le with
  | refl => exact Nat.le_refl _
  | step _ ih => exact Nat.le_trans ih (endsBefore_succ text _ ▸ Nat.le_add_right _ _)

end Line

/-! ### The character that is marked -/

namespace Position

variable {text : List Char} {index : Nat}

/-- Where the line of the place number `index` starts, if lines end with line feeds only. -/
def lineStart (text : List Char) (index : Nat) : Nat := index - ((ofIndex text index).column - 1)

/-- In front of a place stand whole lines and a part of its own line. -/
theorem exists_lines (inside : index ≤ text.length) :
    ∃ lines part rest, text = lines ++ part ++ rest ∧ index = lines.length + part.length ∧
      (lines = [] ∨ ∃ earlier, lines = earlier ++ ['\n']) ∧
      ofIndex text index = ⟨1 + lines.count '\n', 1 + part.length⟩ := by
  have split : text.take index = (text.take index).rdropWhile (· ≠ '\n') ++
      (text.take index).rtakeWhile (· ≠ '\n') := List.rdropWhile_append_rtakeWhile.symm
  refine ⟨(text.take index).rdropWhile (· ≠ '\n'), (text.take index).rtakeWhile (· ≠ '\n'),
    text.drop index, ?_, ?_, ?_, ?_⟩
  · rw [← split, List.take_append_drop]
  · rw [← List.length_append, ← split, List.length_take_of_le inside]
  · by_cases none : (text.take index).rdropWhile (· ≠ '\n') = []
    · exact .inl none
    · have last := List.rdropWhile_last_not _ _ none
      refine .inr ⟨((text.take index).rdropWhile (· ≠ '\n')).dropLast, ?_⟩
      nth_rewrite 1 [← List.dropLast_append_getLast none]
      simpa using last
  · have free : ((text.take index).rtakeWhile (· ≠ '\n')).count '\n' = 0 :=
      List.count_eq_zero.mpr fun feed => by simpa using List.mem_rtakeWhile_imp feed
    rw [ofIndex]
    nth_rewrite 1 [split]
    rw [List.count_append, free, Nat.add_zero]

/-- The line of a place, and where it starts. -/
theorem line_start (inside : index ≤ text.length) :
    lineStart text index ≤ index ∧
      lineStart text index + ((ofIndex text index).column - 1) = index ∧
      (ofIndex text index).line - 1 = (text.take (lineStart text index)).count '\n' ∧
      (lineStart text index = 0 ∨
        text[lineStart text index - 1]? = some '\n') := by
  obtain ⟨lines, part, rest, rfl, rfl, whole, place⟩ := exists_lines inside
  have start : lineStart (lines ++ part ++ rest) (lines.length + part.length) = lines.length := by
    rw [lineStart, place]
    simp
  rw [start, place]
  refine ⟨Nat.le_add_right _ _, by simp, by simp, ?_⟩
  rcases whole with rfl | ⟨earlier, rfl⟩
  · exact .inl rfl
  · exact .inr (by simp)

end Position

namespace Line

variable {text : List Char} {lineStart : Nat → Option Nat} {index line start : Nat}

theorem Splits.unique {other : Nat → Option Nat} (splits : Splits text lineStart)
    (otherSplits : Splits text other) : lineStart = other := by
  funext line
  ext start
  exact (splits line start).trans (otherSplits line start).symm

/-- A line feed ends a line for every viewer. -/
theorem endsAt_of_feed (feed : text[index]? = some '\n') : endsAt text index = true := by
  simp [endsAt, feed, isTerminator]

/-- A viewer opens a line where a line starts behind a line feed. -/
theorem opens_lineStart (inside : index ≤ text.length)
    (before : Position.lineStart text index < text.length) :
    Opens text (Position.lineStart text index) := by
  obtain ⟨-, -, -, whole⟩ := Position.line_start inside
  exact whole.imp_right fun feed => ⟨before, endsAt_of_feed feed⟩

/-- The line of a character starts, for a viewer, where it does for the position, or in front of
that, if lines have ended for the viewer only. -/
theorem Splits.lineStart_cases (splits : Splits text lineStart) (inside : index < text.length) :
    (∀ earlier < Position.lineStart text index, ¬ EndsForViewer text earlier) ∧
      lineStart ((Position.ofIndex text index).line - 1) =
        some (Position.lineStart text index) ∨
    (¬ ∀ earlier < Position.lineStart text index, ¬ EndsForViewer text earlier) ∧
      ∃ start < Position.lineStart text index,
        lineStart ((Position.ofIndex text index).line - 1) = some start := by
  obtain ⟨le, -, line_eq, -⟩ := Position.line_start (Nat.le_of_lt inside)
  have before := Nat.lt_of_le_of_lt le inside
  have opens := opens_lineStart (Nat.le_of_lt inside) before
  rw [← endsBefore_eq_count_iff, ← line_eq]
  by_cases same : endsBefore text (Position.lineStart text index) =
      (Position.ofIndex text index).line - 1
  · exact .inl ⟨same, (splits _ _).mpr ⟨opens, same⟩⟩
  · have more : (Position.ofIndex text index).line - 1 ≤
        endsBefore text (Position.lineStart text index) := by
      rw [line_eq, endsBefore_eq]
      exact Nat.le_add_right _ _
    obtain ⟨start, le, found, count⟩ := exists_opens before more
    refine .inr ⟨same, start, Nat.lt_of_le_of_ne le ?_, (splits _ _).mpr ⟨found, count⟩⟩
    rintro rfl
    exact same count

/-- The line of the end of a text starts where it does for the position, if there is one. -/
theorem Splits.start_eq_lineStart (splits : Splits text lineStart) (nonempty : 0 < text.length)
    (found : lineStart line = some start)
    (count : endsBefore text (Position.lineStart text text.length) = line) :
    start = Position.lineStart text text.length := by
  obtain ⟨le, -, -, whole⟩ := Position.line_start (Nat.le_refl text.length)
  obtain ⟨opens, startCount⟩ := (splits _ _).mp found
  rcases Nat.lt_or_eq_of_le le with before | behind
  · have again := (splits _ _).mpr ⟨opens_lineStart (Nat.le_refl _) before, count⟩
    exact Option.some.inj (found.symm.trans again)
  -- The text ends in a line feed, and no line starts behind it.
  · have feed := whole.resolve_left (by omega)
    rw [behind] at feed count
    have startLe : start ≤ text.length - 1 := by
      rcases opens with rfl | ⟨inside, -⟩ <;> omega
    have fewer : endsBefore text start ≤ endsBefore text (text.length - 1) :=
      endsBefore_mono startLe
    have last := endsBefore_succ text (text.length - 1)
    rw [endsAt_of_feed feed, Nat.sub_add_cancel nonempty] at last
    simp only [if_true] at last
    omega

end Line

namespace Span

variable {source : String} {lineStart : Nat → Option Nat} {index : Nat}

/-- The character that is marked in a text that is not empty. -/
theorem ofLines_eq (nonempty : source ≠ "") (position : Position) :
    ∃ offset, offset = (lineStart (position.line - 1)).elim source.toList.length
        (· + (position.column - 1)) ∧
      ofLines lineStart source position =
        ⟨min offset (source.toList.length - 1), min offset (source.toList.length - 1) + 1⟩ := by
  have length_ne : source.toList.length ≠ 0 := by simpa using nonempty
  refine ⟨_, rfl, ?_⟩
  simp only [ofLines, if_neg length_ne]
  cases lineStart (position.line - 1) <;> rfl

/-- The mark is right if the line of the position is the line of the viewer. -/
theorem ofLines_ofIndex_iff (splits : Line.Splits source.toList lineStart)
    (inside : index < source.toList.length) :
    ofLines lineStart source (.ofIndex source.toList index) = ⟨index, index + 1⟩ ↔
      ∀ earlier < Position.lineStart source.toList index,
        ¬ Line.EndsForViewer source.toList earlier := by
  have nonempty : source ≠ "" := by
    rintro rfl
    exact absurd inside (Nat.not_lt_zero _)
  obtain ⟨offset, offset_eq, marked⟩ :=
    @ofLines_eq _ lineStart nonempty (.ofIndex source.toList index)
  have column := (Position.line_start (Nat.le_of_lt inside)).2.1
  rw [marked, mk.injEq]
  rcases splits.lineStart_cases inside with ⟨agree, found⟩ | ⟨differ, start, before, found⟩
  · rw [found, Option.elim_some, column] at offset_eq
    exact iff_of_true (by omega) agree
  · rw [found, Option.elim_some] at offset_eq
    exact iff_of_false (by omega) differ

/-- Behind a text in which a viewer counts the same lines, there is no line or the last one. -/
theorem ofLines_ofIndex_length (splits : Line.Splits source.toList lineStart)
    (nonempty : source ≠ "")
    (agree : ∀ earlier < Position.lineStart source.toList source.toList.length,
      ¬ Line.EndsForViewer source.toList earlier) :
    ofLines lineStart source (.ofIndex source.toList source.toList.length) =
      ⟨source.toList.length - 1, source.toList.length⟩ := by
  have positive : 0 < source.toList.length :=
    List.length_pos_of_ne_nil (by simpa using nonempty)
  obtain ⟨offset, offset_eq, marked⟩ :=
    @ofLines_eq _ lineStart nonempty (.ofIndex source.toList source.toList.length)
  obtain ⟨before, column, line_eq, whole⟩ := Position.line_start (Nat.le_refl source.toList.length)
  rw [← Line.endsBefore_eq_count_iff, ← line_eq] at agree
  have behind : offset = source.toList.length := by
    cases found : lineStart ((Position.ofIndex source.toList source.toList.length).line - 1) with
    | none => rw [offset_eq, found, Option.elim_none]
    | some start =>
      rw [offset_eq, found, Option.elim_some, splits.start_eq_lineStart positive found agree,
        column]
  rw [marked, behind, mk.injEq]
  omega

/-- A mark is one character of the text, if there is any. -/
theorem ofLines_inside (lineStart : Nat → Option Nat) (source : String) (position : Position) :
    (source = "" → ofLines lineStart source position = ⟨0, 0⟩) ∧
      (source ≠ "" → ∃ index < source.toList.length,
        ofLines lineStart source position = ⟨index, index + 1⟩) := by
  constructor
  · rintro rfl
    rfl
  · intro nonempty
    obtain ⟨offset, -, marked⟩ := @ofLines_eq _ lineStart nonempty position
    have positive : 0 < source.toList.length :=
      List.length_pos_of_ne_nil (by simpa using nonempty)
    exact ⟨_, by omega, marked⟩

/-- The character at a position is the one that is marked if and only if, in front of its line, no
line ends for a viewer only. If none does in front of the last line, the end of the text marks the
last character. Whatever the position, a single character of the text is marked, unless there is
none. All this is so for every viewer that splits lines in the same way. -/
theorem marks_character_iff (source : String) :
    (∀ lineStart, Line.Splits source.toList lineStart →
      ofLines lineStart source = ofPosition source) ∧
    (∀ index < source.toList.length,
      (ofPosition source (.ofIndex source.toList index) = ⟨index, index + 1⟩ ↔
        ∀ earlier < Position.lineStart source.toList index,
          ¬ Line.EndsForViewer source.toList earlier)) ∧
    (source ≠ "" →
      (∀ earlier < Position.lineStart source.toList source.toList.length,
        ¬ Line.EndsForViewer source.toList earlier) →
      ofPosition source (.ofIndex source.toList source.toList.length) =
        ⟨source.toList.length - 1, source.toList.length⟩) ∧
    ∀ position,
      (source = "" → ofPosition source position = ⟨0, 0⟩) ∧
      (source ≠ "" → ∃ index < source.toList.length,
        ofPosition source position = ⟨index, index + 1⟩) := by
  have splits := Line.splits_start? source.toList
  refine ⟨?_, ?_, ?_, ?_⟩
  · intro lineStart others
    rw [others.unique splits]
    rfl
  · intro index inside
    exact ofLines_ofIndex_iff splits inside
  · exact ofLines_ofIndex_length splits
  · exact ofLines_inside _ source

/-- A carriage return on the last line does no harm. -/
theorem marks_character_iff_lastLine :
    Line.Splits "a\nb\r".toList (fun line => [0, 2][line]?) ∧
      ofLines (fun line => [0, 2][line]?) "a\nb\r" = ofPosition "a\nb\r" ∧
      (2 < "a\nb\r".toList.length ∧ ofPosition "a\nb\r" ⟨2, 1⟩ = ⟨2, 3⟩) ∧
      ("a\nb\r" ≠ "" ∧ ofPosition "a\nb\r" ⟨2, 3⟩ = ⟨3, 4⟩ ∧
        ∃ index < 4, ofPosition "a\nb\r" ⟨9, 7⟩ = ⟨index, index + 1⟩) := by
  have agree : ∀ earlier < 2, ¬ Line.EndsForViewer "a\nb\r".toList earlier := by
    unfold Line.EndsForViewer
    decide
  have table : (fun line => [0, 2][line]?) = fun line => Line.start? line 0 "a\nb\r".toList := by
    funext line
    rcases line with _ | _ | line <;> rfl
  have splits : Line.Splits "a\nb\r".toList (fun line => [0, 2][line]?) :=
    table ▸ Line.splits_start? _
  obtain ⟨viewers, characters, finish, inside⟩ := marks_character_iff "a\nb\r"
  refine ⟨splits, viewers _ splits, ⟨by decide, ?_⟩, by decide, ?_, ?_⟩
  · exact (characters 2 (by decide)).mpr agree
  · exact finish (by decide) agree
  · exact (inside ⟨9, 7⟩).2 (by decide)

/-- The line feed is on the second line for a viewer, and so is the character that is marked in
place of `c`. -/
example : Position.ofIndex "a\rb\nc".toList 4 = ⟨2, 1⟩ ∧
    Span.ofPosition "a\rb\nc" ⟨2, 1⟩ = ⟨2, 3⟩ := by
  decide

end Span

end ImpStack

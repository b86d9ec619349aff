import ImpStack.Machine.Channel
import ImpStack.Proofs.SinkLimits

/-!
A channel that takes lines in pieces shows what a sink that takes whole lines does
(`Shows.writePieces`). No line is torn: it has its only line break at its end, and a channel is full
or not from one line break to the next. How a value is cut into pieces does not matter; that its
text is one line does (`Value.oneLine_text`).
-/
namespace ImpStack

/-- The text has no line break. -/
def OneLine (text : String) : Prop := '\n' ∉ text.toList

/-! ### The text of a value -/

namespace Binary32

variable {layout : Layout} {digits : List Char}

theorem newline_not_mem_toDigits (number : Nat) : '\n' ∉ Nat.toDigits 10 number := by
  intro member
  have digit := Nat.isDigit_of_mem_toDigits (by decide) (by decide) member
  exact absurd digit (by decide)

theorem newline_not_mem_positional (free : '\n' ∉ digits) (point : Int) :
    '\n' ∉ positional layout digits point := by
  unfold positional
  split
  · simp [free]
  · split
    · cases layout.keepsFraction <;> simp [free]
    · intro member
      obtain before | behind := List.mem_append.mp member
      · exact free (List.mem_of_mem_take before)
      · obtain impossible | behind := List.mem_cons.mp behind
        · exact absurd impossible (by decide)
        · exact free (List.mem_of_mem_drop behind)

theorem newline_not_mem_magnitudeText (bits : Nat) : '\n' ∉ magnitudeText .plain bits := by
  have free := newline_not_mem_toDigits (shortest bits).digits
  exact newline_not_mem_positional free _

theorem newline_not_mem_signText (negative : Bool) : '\n' ∉ signText negative := by
  cases negative <;> decide

theorem oneLine_text (x : Float32) : OneLine (text .plain x) := by
  unfold OneLine text
  split
  · decide
  · next negative _ => simp [newline_not_mem_signText negative]
  · next negative bits _ =>
    simp [newline_not_mem_signText negative, newline_not_mem_magnitudeText bits]

end Binary32

/-- A printed value is one line. -/
theorem Value.oneLine_text (value : Value) : OneLine value.text := by
  cases value with
  | float x => exact Binary32.oneLine_text x
  | int x =>
    show OneLine (toString x.toInt)
    generalize x.toInt = number
    cases number with
    | ofNat number =>
      simpa [OneLine, toString, Int.repr] using Binary32.newline_not_mem_toDigits number
    | negSucc number =>
      simpa [OneLine, toString, Int.repr] using Binary32.newline_not_mem_toDigits (number + 1)

/-! ### Lines in a channel -/

/-- The lines one below the other. -/
def linesText (lines : Array String) : String := String.join (lines.toList.map (· ++ "\n"))

theorem linesText_cons (line : String) (lines : List String) :
    linesText ⟨line :: lines⟩ = line ++ "\n" ++ linesText ⟨lines⟩ := by
  simp [linesText]

theorem linesText_push (lines : Array String) (line : String) :
    linesText (lines.push line) = linesText lines ++ line ++ "\n" := by
  simp [linesText, String.append_assoc]

theorem linesText_append (first second : Array String) :
    linesText (first ++ second) = linesText first ++ linesText second := by
  simp [linesText]

theorem fullLines_append (first second : String) :
    fullLines (first ++ second) = fullLines first + fullLines second := by
  simp [fullLines]

theorem OneLine.fullLines_eq {text : String} (oneLine : OneLine text) : fullLines text = 0 :=
  List.count_eq_zero.mpr oneLine

/-- Lines that are whole are counted one by one. -/
theorem fullLines_linesText {lines : Array String} (whole : ∀ line ∈ lines, OneLine line) :
    fullLines (linesText lines) = lines.size := by
  obtain ⟨lines⟩ := lines
  induction lines with
  | nil => rfl
  | cons line lines ih =>
    have first := (whole line (by simp)).fullLines_eq
    have rest := ih fun line member => whole line (by simp_all)
    have size_eq : (Array.mk (line :: lines)).size = (Array.mk lines).size + 1 := by simp
    rw [linesText_cons, size_eq, fullLines_append, fullLines_append, first, rest,
      show fullLines "\n" = 1 from rfl]
    omega

namespace Channel

/-- The channel behind some lines more. -/
def after (channel : Channel) (lines : Array String) : Channel :=
  { channel with text := channel.text ++ linesText lines }

/-- An empty sink that takes as many lines as the channel still does. -/
def room (channel : Channel) : Sink :=
  ⟨#[], channel.capacity.map (· - fullLines channel.text), channel.flushes⟩

/-- Since the beginning, whole lines have been written to the channel, and these are the lines of
the sink. -/
def Shows (start channel : Channel) (sink : Sink) : Prop :=
  ∃ lines, (∀ line ∈ lines, OneLine line) ∧
    sink = start.room.append lines ∧ channel = start.after lines

variable {start channel : Channel} {sink : Sink}

/-- A channel shows nothing before anything is written. -/
theorem shows_room (start : Channel) : Shows start start start.room := by
  refine ⟨#[], by simp, (Sink.append_empty _).symm, ?_⟩
  simp [after, linesText]

/-- The channel holds the lines it had and those written since. -/
theorem fullLines_after {lines : Array String} (whole : ∀ line ∈ lines, OneLine line) :
    fullLines (start.after lines).text = fullLines start.text + lines.size := by
  rw [after, fullLines_append, fullLines_linesText whole]

/-- The channel is full exactly when the sink is. -/
theorem Shows.isFull_eq (shows : Shows start channel sink) : channel.isFull = sink.isFull := by
  obtain ⟨lines, whole, rfl, rfl⟩ := shows
  rw [isFull, fullLines_after whole]
  cases capacity_eq : start.capacity with
  | none => simp [after, Sink.isFull, Sink.append, room, capacity_eq]
  | some limit =>
    simp only [after, Sink.isFull, Sink.append, room, capacity_eq, Option.map_some,
      Option.any_some, Array.size_append]
    rw [decide_eq_decide]
    simp
    omega

theorem Shows.flushes_eq (shows : Shows start channel sink) : channel.flushes = sink.flushes := by
  obtain ⟨lines, _, rfl, rfl⟩ := shows
  rfl

/-- Pieces without a line break do not make a channel full. -/
theorem isFull_of_oneLine (channel : Channel) {piece : String} (oneLine : OneLine piece) :
    isFull { channel with text := channel.text ++ piece } = channel.isFull := by
  have same : fullLines (channel.text ++ piece) = fullLines channel.text := by
    rw [fullLines_append, oneLine.fullLines_eq, Nat.add_zero]
  unfold isFull
  rw [same]

/-- A full channel takes no piece. -/
theorem writePieces_of_isFull (full : channel.isFull = true) (piece : String)
    (pieces : List String) : channel.writePieces (piece :: pieces) = (channel, false) := by
  simp [writePieces, write?, full]

/-- The pieces of a line are all taken, since none of them ends it. -/
theorem writePieces_of_oneLine (open_ : channel.isFull = false) {pieces : List String}
    (oneLine : OneLine (String.join pieces)) (rest : List String) :
    channel.writePieces (pieces ++ rest) =
      writePieces { channel with text := channel.text ++ String.join pieces } rest := by
  induction pieces generalizing channel with
  | nil => simp
  | cons piece pieces ih =>
    obtain ⟨first, others⟩ : OneLine piece ∧ OneLine (String.join pieces) := by
      simpa [OneLine, not_or] using oneLine
    have stillOpen := (isFull_of_oneLine channel first).trans open_
    rw [List.cons_append, writePieces, write?, open_]
    have goesOn := ih stillOpen others
    simp only [Bool.false_eq_true, if_false]
    rw [goesOn]
    simp [String.append_assoc]

/-- A line is written to the channel where the sink takes it, and where the sink refuses it nothing
of it is written. -/
theorem Shows.writePieces (shows : Shows start channel sink) {pieces : List String}
    (oneLine : OneLine (String.join pieces)) :
    match sink.write? (String.join pieces) with
    | none => channel.writePieces (pieces ++ ["\n"]) = (channel, false)
    | some written => ∃ longer,
      channel.writePieces (pieces ++ ["\n"]) = (longer, true) ∧ Shows start longer written := by
  have full_eq := shows.isFull_eq
  cases full : sink.isFull with
  | true =>
    rw [full] at full_eq
    simp only [Sink.write?, full, if_true]
    cases pieces with
    | nil => exact writePieces_of_isFull full_eq _ _
    | cons piece pieces => exact writePieces_of_isFull full_eq _ _
  | false =>
    rw [full] at full_eq
    simp only [Sink.write?, full, Bool.false_eq_true, if_false]
    -- No piece breaks the line, so none of them makes the channel full.
    have stillOpen := (isFull_of_oneLine channel oneLine).trans full_eq
    obtain ⟨lines, whole, rfl, rfl⟩ := shows
    refine ⟨start.after (lines.push (String.join pieces)), ?_, lines.push (String.join pieces), ?_,
      ?_, rfl⟩
    · rw [writePieces_of_oneLine full_eq oneLine]
      simp [Channel.writePieces, write?, stillOpen]
      simp [after, linesText_push, String.append_assoc]
    · intro line member
      obtain before | rfl := Array.mem_push.mp member
      · exact whole line before
      · exact oneLine
    · simp [Sink.append]

/-- A channel that takes every piece and can be flushed. -/
def NeverFails (channel : Channel) : Prop := channel.capacity = none ∧ channel.flushes = true

/-- The room of a channel that never fails has no limit. -/
theorem NeverFails.room_eq (neverFails : channel.NeverFails) :
    channel.room = Channel.unlimited.room := by
  obtain ⟨noLimit, flushes⟩ := neverFails
  simp [room, unlimited, noLimit, flushes]

end Channel

end ImpStack

import ImpStack.Proofs.ProcessorRuns

/-!
A channel that refuses everything once it holds a number of lines cuts the output of a run there
(`refusal_cuts_output`). The run stops at the first piece of the first line too many; until then it
goes step by step like a run that is not limited, and nothing of a further line is left behind. A
run without an end is cut in the same way.
-/
namespace ImpStack

/-! ### The first lines of a text -/

/-- The characters up to the end of the first `count` full lines, or all of them. -/
def firstLinesOf : (count : Nat) → List Char → List Char
  | 0, _ => []
  | _ + 1, [] => []
  | count + 1, c :: text => c :: firstLinesOf (if c = '\n' then count else count + 1) text
termination_by structural _ text => text

/-- The text up to the end of its first full lines. -/
def firstLines (count : Nat) (text : String) : String := .ofList (firstLinesOf count text.toList)

theorem firstLinesOf_line {line : List Char} (oneLine : '\n' ∉ line) (count : Nat)
    (rest : List Char) :
    firstLinesOf (count + 1) (line ++ '\n' :: rest) = line ++ '\n' :: firstLinesOf count rest := by
  induction line with
  | nil => simp [firstLinesOf]
  | cons c line ih =>
    obtain ⟨other, later⟩ := not_or.mp (mt List.mem_cons.mpr oneLine)
    rw [List.cons_append, firstLinesOf, if_neg (Ne.symm other), ih later, List.cons_append]

/-- As many full lines as are asked for are what a text begins with. -/
theorem firstLines_linesText {lines : Array String} (whole : ∀ line ∈ lines, OneLine line)
    (rest : String) : firstLines lines.size (linesText lines ++ rest) = linesText lines := by
  obtain ⟨lines⟩ := lines
  induction lines with
  | nil => simp [firstLines, firstLinesOf, linesText]
  | cons line lines ih =>
    have others := ih fun line member => whole line (by simp_all)
    have oneLine : '\n' ∉ line.toList := whole line (by simp)
    rw [String.ext_iff, firstLines, String.toList_ofList, String.toList_append] at others
    have chars : (linesText ⟨line :: lines⟩ ++ rest).toList =
        line.toList ++ '\n' :: ((linesText ⟨lines⟩).toList ++ rest.toList) := by
      simp [linesText_cons]
    have size_eq : (Array.mk (line :: lines)).size = (Array.mk lines).size + 1 := by simp
    rw [String.ext_iff, firstLines, String.toList_ofList, chars, size_eq,
      firstLinesOf_line oneLine, others]
    simp [linesText_cons]

/-! ### What a run shows -/

/-- How the first `count` steps of a run of `entry` have ended, if they have, and what they have
written to the channel. -/
def shown (spelling : Spelling) (assembly : Assembly) (entry : String) (channel : Channel)
    (count : Nat) : Option Outcome × String :=
  let (outcome?, processor) := Processor.run spelling assembly entry count (.new channel)
  (outcome?, processor.channel.text)

namespace Channel

/-- Without its limit the channel has unlimited room. -/
theorem room_limited_free (limit : Nat) : (limited limit).room.free = unlimited.room := rfl

/-- Lines for which a limited channel has room are not more than it may hold. -/
theorem size_le_of_admits {limit : Nat} {lines : Array String}
    (admits : (limited limit).room.Admits lines) : lines.size ≤ limit := by
  obtain rfl | bounded := admits
  · exact Nat.zero_le _
  · have le := bounded limit rfl
    simpa [room] using le

/-- A limited channel that has become full holds as many lines as it may. -/
theorem size_eq_of_isFull {limit : Nat} {lines : Array String}
    (full : ((limited limit).room.append lines).isFull = true)
    (admits : (limited limit).room.Admits lines) : lines.size = limit := by
  have capacity_eq : (limited limit).room.capacity = some limit := rfl
  have le := size_le_of_admits admits
  obtain ⟨_, same, enough⟩ := Sink.isFull_iff.mp full
  obtain rfl := Option.some.inj (capacity_eq.symm.trans same)
  simp only [Sink.append, room, Array.size_append, List.size_toArray, List.length_nil] at enough
  omega

end Channel

namespace Assembly

/-- Whether a run starts does not depend on the sink. -/
theorem start_eq_error {assembly : Assembly} {entry : String} {sink : Sink} {fault : Fault}
    (failed : Machine.start assembly entry sink = .error fault) (other : Sink) :
    Machine.start assembly entry other = .error fault := by
  unfold Machine.start at failed ⊢
  split
  · next missing =>
    rw [missing] at failed
    exact failed
  · next routine found =>
    rw [found] at failed
    dsimp only at failed
    split
    · next noParams =>
      rw [if_pos noParams] at failed
      cases failed
    · next params =>
      rw [if_neg params] at failed
      exact failed

/-- After as many steps, a run with a limit and one without show the same, or the limit is reached
and the other run has printed a line more. -/
theorem runEntry_limited (assembly : Assembly) (entry : String) (limit count : Nat) :
    ∃ own, (assembly.runEntry entry (Channel.limited limit).room count).1 =
        (Channel.limited limit).room.append own ∧
      (own.size ≤ limit ∧ assembly.runEntry entry Channel.unlimited.room count =
          (Channel.unlimited.room.append own,
            (assembly.runEntry entry (Channel.limited limit).room count).2) ∨
        own.size = limit ∧ (assembly.runEntry entry (Channel.limited limit).room count).2 =
            some (.error .sinkFull) ∧
          ∃ line more, (assembly.runEntry entry Channel.unlimited.room count).1 =
            Channel.unlimited.room.append (own.push line ++ more)) := by
  cases started : Machine.start assembly entry (Channel.limited limit).room with
  | error fault =>
    have freeStarted := start_eq_error started Channel.unlimited.room
    rw [runEntry_error started, runEntry_error freeStarted]
    exact ⟨#[], rfl, .inl ⟨Nat.zero_le limit, rfl⟩⟩
  | ok machine =>
    obtain ⟨own, own_eq, admits, goes⟩ := runEntry_free started count
    rw [Channel.room_limited_free] at goes
    refine ⟨own, own_eq, ?_⟩
    obtain ⟨same, ended⟩ | ⟨full, refused, beyond⟩ := goes
    · refine .inl ⟨Channel.size_le_of_admits admits, Prod.ext same ?_⟩
      rw [ended]
      cases (assembly.runEntry entry Channel.unlimited.room count).2 with
      | none => rfl
      | some outcome => rfl
    · exact .inr ⟨Channel.size_eq_of_isFull full admits, refused, beyond⟩

end Assembly

variable (spelling : Spelling) (assembly : Assembly) (entry : String)

/-- A run from an empty channel shows what the run of a machine does. -/
theorem shown_eq {channel : Channel} (empty : channel.text = "") (count : Nat) :
    ∃ lines, (∀ line ∈ lines, OneLine line) ∧
      (assembly.runEntry entry channel.room count).1 = channel.room.append lines ∧
      shown spelling assembly entry channel count =
        ((assembly.runEntry entry channel.room count).2, linesText lines) := by
  obtain ⟨ended, lines, whole, sink_eq, channel_eq⟩ :=
    Processor.run_eq spelling assembly entry count (.new channel)
  refine ⟨lines, whole, sink_eq, Prod.ext ended ?_⟩
  show (Processor.run spelling assembly entry count (.new channel)).2.channel.text = _
  rw [channel_eq]
  simp [Channel.after, Processor.new, empty]

/-- After as many steps, a limited run and one that is not have shown the same, or there are more
lines than the limit and the limited run has stopped with the first of them. -/
theorem shown_limited (limit count : Nat) :
    shown spelling assembly entry (.limited limit) count =
      if fullLines (shown spelling assembly entry .unlimited count).2 ≤ limit then
        shown spelling assembly entry .unlimited count
      else
        (some (.error .sinkFull),
          firstLines limit (shown spelling assembly entry .unlimited count).2) := by
  obtain ⟨lines, whole, lines_eq, limited_eq⟩ :=
    shown_eq spelling assembly entry (rfl : (Channel.limited limit).text = "") count
  obtain ⟨freeLines, freeWhole, freeLines_eq, free_eq⟩ :=
    shown_eq spelling assembly entry (rfl : Channel.unlimited.text = "") count
  obtain ⟨own, own_eq, goes⟩ := assembly.runEntry_limited entry limit count
  obtain rfl : lines = own := Sink.append_inj (lines_eq.symm.trans own_eq)
  rw [limited_eq, free_eq]
  dsimp only
  rw [fullLines_linesText freeWhole]
  obtain ⟨enough, same⟩ | ⟨filled, refused, line, more, beyond⟩ := goes
  · rw [same] at freeLines_eq ⊢
    obtain rfl : lines = freeLines := Sink.append_inj freeLines_eq
    rw [if_pos enough]
  · obtain rfl : lines.push line ++ more = freeLines :=
      Sink.append_inj (beyond.symm.trans freeLines_eq)
    have tooMany : ¬ (lines.push line ++ more).size ≤ limit := by
      rw [Array.size_append, Array.size_push]
      omega
    -- What the limited run has shown fills the channel, so these are the first lines of the other.
    have front : lines.push line ++ more = lines ++ (#[line] ++ more) := by simp
    have first := firstLines_linesText whole (linesText (#[line] ++ more))
    rw [if_neg tooMany, refused, front, linesText_append, ← filled, first]

/-! ### How a run ends -/

/-- The run of `entry` ends with the outcome and leaves the text in the channel. -/
def Finishes (channel : Channel) (outcome : Outcome) (text : String) : Prop :=
  ∃ count, shown spelling assembly entry channel count = (some outcome, text)

variable {spelling : Spelling} {assembly : Assembly} {entry : String} {channel : Channel}

/-- A run that has ended shows nothing more. -/
theorem shown_add {count : Nat} {outcome : Outcome} {text : String}
    (ended : shown spelling assembly entry channel count = (some outcome, text)) (more : Nat) :
    shown spelling assembly entry channel (count + more) = (some outcome, text) := by
  have ran := Processor.run_add (congrArg Prod.fst ended) more
  unfold shown at ended ⊢
  rw [ran]
  exact ended

/-- A run ends in one way only. -/
theorem Finishes.unique {count : Nat} {outcome other : Outcome} {text otherText : String}
    (finishes : Finishes spelling assembly entry channel outcome text)
    (ended : shown spelling assembly entry channel count = (some other, otherText)) :
    outcome = other ∧ text = otherText := by
  obtain ⟨steps, shown_eq⟩ := finishes
  have later := shown_add shown_eq count
  rw [Nat.add_comm, shown_add ended steps] at later
  obtain ⟨ends, same⟩ := Prod.mk.inj later
  exact ⟨(Option.some.inj ends).symm, same.symm⟩

/-- A channel that refuses whatever comes behind its first lines cuts the output of a run and
nothing else. Where the run of a machine with no limit never prints more lines, the limited run goes
step by step like it and ends exactly when it does, in the same way and with the same text. Where it
prints a line more, whether or not it ever ends, the limited run ends on a refused write and leaves
the first lines and no part of another. -/
theorem refusal_cuts_output (spelling : Spelling) (assembly : Assembly) (entry : String)
    (limit : Nat) :
    (∀ count, shown spelling assembly entry .unlimited count =
      ((assembly.runEntry entry .unlimited count).2,
        (assembly.runEntry entry .unlimited count).1.text)) ∧
    ((∀ count, fullLines (shown spelling assembly entry .unlimited count).2 ≤ limit) →
      (∀ count, shown spelling assembly entry (.limited limit) count =
        shown spelling assembly entry .unlimited count) ∧
      ∀ outcome text, Finishes spelling assembly entry (.limited limit) outcome text ↔
        Finishes spelling assembly entry .unlimited outcome text) ∧
    ∀ count, limit < fullLines (shown spelling assembly entry .unlimited count).2 →
      ∀ outcome text, Finishes spelling assembly entry (.limited limit) outcome text ↔
        outcome = .error .sinkFull ∧
          text = firstLines limit (shown spelling assembly entry .unlimited count).2 := by
  refine ⟨fun count => ?_, ?_, ?_⟩
  · obtain ⟨ended, text_eq⟩ := Processor.new_run_eq spelling assembly entry count
    exact Prod.ext ended text_eq
  · intro few
    have same : ∀ count, shown spelling assembly entry (.limited limit) count =
        shown spelling assembly entry .unlimited count := by
      intro count
      rw [shown_limited, if_pos (few count)]
    refine ⟨same, fun outcome text => ?_⟩
    unfold Finishes
    simp only [same]
  · intro count beyond outcome text
    have stopped := shown_limited spelling assembly entry limit count
    rw [if_neg (Nat.not_le.mpr beyond)] at stopped
    constructor
    · intro finishes
      exact finishes.unique stopped
    · rintro ⟨rfl, rfl⟩
      exact ⟨count, stopped⟩

/-- The text of a value, one letter at a time. -/
def Spelling.letters : Spelling where
  pieces value := value.text.toList.map String.singleton
  join_pieces value := by
    rw [String.ext_iff, String.toList_join, List.flatMap_map]
    simp

/-- Prints one line, or lines without end. -/
def printer (again : Bool) : Assembly :=
  ⟨"Main", [⟨"main", 0, 0, true,
    #[.pushInt 17, .print, if again then .jump 0 else .returnVoid]⟩]⟩

theorem refusal_cuts_output_printer :
    (∀ count, fullLines (shown .letters (printer false) "main" .unlimited count).2 ≤ 1) ∧
    (Finishes .letters (printer false) "main" (.limited 1) (.ok none) "17\n" ↔
      Finishes .letters (printer false) "main" .unlimited (.ok none) "17\n") ∧
    (1 < fullLines (shown .letters (printer true) "main" .unlimited 7).2 ∧
      Finishes .letters (printer true) "main" (.limited 1) (.error .sinkFull) "17\n") := by
  have few : ∀ count,
      fullLines (shown .letters (printer false) "main" .unlimited count).2 ≤ 1 := by
    have early : ∀ count < 3,
        fullLines (shown .letters (printer false) "main" .unlimited count).2 ≤ 1 := by
      decide +kernel
    have ended : shown .letters (printer false) "main" .unlimited 3 =
        (some (.ok none), "17\n") := by
      decide +kernel
    intro count
    rcases Nat.lt_or_ge count 3 with less | enough
    · exact early count less
    · obtain ⟨more, rfl⟩ := Nat.exists_eq_add_of_le enough
      rw [shown_add ended more]
      decide
  have many : 1 < fullLines (shown .letters (printer true) "main" .unlimited 7).2 := by
    decide +kernel
  refine ⟨few, ((refusal_cuts_output .letters (printer false) "main" 1).2.1 few).2 _ _, many, ?_⟩
  apply ((refusal_cuts_output .letters (printer true) "main" 1).2.2 7 many _ _).mpr
  exact ⟨rfl, by decide +kernel⟩

end ImpStack

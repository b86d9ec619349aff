import ImpStack.Proofs.Observation

/-!
A sink that refuses lines cuts a run short and changes nothing else. So what a run shows in any sink
follows from what it shows in one that never fails (`prints_iff_free`, `ends_iff_free`). The two
runs go step by step together until the line for which there is no room (`run_free`); only `print`
looks at the sink (`perform_free`).
-/
namespace ImpStack

namespace Sink

/-- The same lines in a sink that never fails. -/
def free (sink : Sink) : Sink := { sink with capacity := none, flushes := true }

/-- The sink has room for the lines. -/
def Admits (sink : Sink) (lines : Array String) : Prop :=
  lines = #[] ∨ ∀ limit, sink.capacity = some limit → sink.lines.size + lines.size ≤ limit

theorem free_neverFails (sink : Sink) : sink.free.NeverFails := ⟨rfl, rfl⟩

theorem free_append (sink : Sink) (lines : Array String) :
    (sink.append lines).free = sink.free.append lines := rfl

/-- A sink is full when it holds as many lines as it may. -/
theorem isFull_iff {sink : Sink} :
    sink.isFull = true ↔ ∃ limit, sink.capacity = some limit ∧ limit ≤ sink.lines.size := by
  simp [isFull, Option.any_eq_true]

/-- A line is refused by a full sink and taken by any other. -/
theorem write?_eq (sink : Sink) (line : String) :
    sink.isFull = true ∧ sink.write? line = none ∨
      sink.Admits #[line] ∧ sink.write? line = some (sink.append #[line]) := by
  unfold write?
  split
  · next full => exact .inl ⟨full, rfl⟩
  · next room =>
    refine .inr ⟨.inr fun limit limit_eq => ?_, by simp [append]⟩
    have less : ¬ limit ≤ sink.lines.size :=
      fun full => room (isFull_iff.mpr ⟨limit, limit_eq, full⟩)
    simp only [List.size_toArray, List.length_cons, List.length_nil]
    omega

theorem Admits.append {sink : Sink} {first second : Array String} (left : sink.Admits first)
    (right : (sink.append first).Admits second) : sink.Admits (first ++ second) := by
  obtain rfl | room := right
  · rwa [Array.append_empty]
  · refine .inr fun limit limit_eq => ?_
    have bound := room limit limit_eq
    simp only [Sink.append, Array.size_append] at bound ⊢
    omega

/-- Room for all of the lines is room for the first of them. -/
theorem Admits.left {sink : Sink} {first second : Array String}
    (admits : sink.Admits (first ++ second)) : sink.Admits first := by
  obtain none | room := admits
  · exact .inl (Array.append_eq_empty_iff.mp none).1
  · refine .inr fun limit limit_eq => ?_
    have bound := room limit limit_eq
    simp only [Array.size_append] at bound
    omega

/-- A sink that the lines have filled has no room for more of them. -/
theorem size_le_of_isFull {sink : Sink} {lines other : Array String}
    (full : (sink.append lines).isFull = true) (admits : sink.Admits other) :
    other.size ≤ lines.size := by
  obtain ⟨limit, limit_eq, le⟩ := isFull_iff.mp full
  obtain rfl | room := admits
  · exact Nat.zero_le _
  · have bound := room limit limit_eq
    simp only [append, Array.size_append] at le
    omega

end Sink

/-- Of two beginnings of one array the shorter one begins the longer one. -/
theorem exists_append_of_append_eq {α : Type} {first second left right : Array α}
    (same : first ++ left = second ++ right) (le : second.size ≤ first.size) :
    ∃ rest, first = second ++ rest := by
  obtain ⟨rest, rfl, _⟩ | ⟨rest, rfl, _⟩ := Array.append_eq_append_iff.mp same
  · rw [Array.size_append] at le
    have none : rest = #[] := Array.eq_empty_of_size_eq_zero (by omega)
    exact ⟨#[], by rw [none, Array.append_empty, Array.append_empty]⟩
  · exact ⟨rest, rfl⟩

namespace Machine

variable {assembly : Assembly} {machine : Machine}

/-- The same machine with a sink that never fails. -/
def free (machine : Machine) : Machine := { machine with sink := machine.sink.free }

end Machine

/-- The same step in a sink that never fails. -/
def Step.free : Step → Step
  | .running machine => .running machine.free
  | .stopped outcome => .stopped outcome

namespace Machine

variable {assembly : Assembly} {machine : Machine}

/-- Jumps do not look at the sink. -/
theorem jump_free (frame : Frame) (operands : Operands) (target : Nat) :
    machine.free.jump frame operands target = (machine.jump frame operands target).free := by
  unfold jump
  split
  · rfl
  · rfl

/-- Nor do returns. -/
theorem leave_free (operands : Operands) (value : Option Value) :
    machine.free.leave operands value = (machine.leave operands value).free := by
  unfold leave free
  dsimp only
  split
  · rfl
  · rfl

/-- Nor do calls. -/
theorem call_free (frame : Frame) (underflow : Fault) (callee : String) (arity : Nat) :
    machine.free.call assembly frame underflow callee arity =
      (machine.call assembly frame underflow callee arity).free := by
  unfold call free
  dsimp only
  split
  · rfl
  · split
    · rfl
    · split
      · rfl
      · rfl

/-- Only printing depends on the sink. -/
theorem perform_free (frame : Frame) (underflow : Fault) {instruction : Instruction Nat}
    (silent : instruction ≠ .print) :
    machine.free.perform assembly frame underflow instruction =
      (machine.perform assembly frame underflow instruction).free := by
  cases instruction with
  | pushInt value | pushFloat value => rfl
  | jump target => exact jump_free frame machine.operands target
  | call callee arity => exact call_free frame underflow callee arity
  | returnVoid => exact leave_free machine.operands none
  | print => exact absurd rfl silent
  | load slot | store slot | dup | pop | neg =>
    simp only [perform, free]
    split
    · rfl
    · rfl
  | arithmetic op =>
    simp only [perform, free]
    split
    · split
      · rfl
      · rfl
    · rfl
  | jumpIfZero target | jumpIf comparison target =>
    simp only [perform]
    rw [show machine.free.operands = machine.operands from rfl]
    split
    · split
      · exact jump_free _ _ target
      · rfl
    · rfl
  | return_ =>
    simp only [perform]
    rw [show machine.free.operands = machine.operands from rfl]
    split
    · exact leave_free _ _
    · rfl

/-- A step is the same in a sink that never fails, or it prints one line too many. -/
theorem step_free (assembly : Assembly) (machine : Machine) :
    machine.free.step assembly = (machine.step assembly).free ∨
      machine.sink.isFull = true ∧ machine.step assembly = .stopped (.error .sinkFull) ∧
        ∃ next line, machine.free.step assembly = .running next ∧
          next.sink = machine.sink.free.append #[line] := by
  unfold step
  dsimp only
  rw [show machine.free.frame = machine.frame from rfl]
  split
  · exact .inl rfl
  · next instruction fetch =>
    -- Only a print looks at the limit of the sink.
    by_cases silent : instruction = .print
    · subst silent
      simp only [perform]
      rw [show machine.free.operands = machine.operands from rfl]
      split
      · next value operands popped =>
        have taken : machine.free.sink.write? value.text =
            some (machine.sink.free.append #[value.text]) :=
          Sink.write?_append machine.sink.free_neverFails #[] value.text
        rw [taken]
        obtain ⟨full, refused⟩ | ⟨_, written⟩ := machine.sink.write?_eq value.text
        · rw [refused]
          exact .inr ⟨full, rfl, _, _, rfl, rfl⟩
        · rw [written]
          exact .inl rfl
      · exact .inl rfl
    · exact .inl (perform_free _ _ silent)

/-- A running step prints what the sink has room for. -/
theorem step_admits {next : Machine} (running : machine.step assembly = .running next) :
    ∃ lines, next.sink = machine.sink.append lines ∧ machine.sink.Admits lines := by
  unfold step at running
  dsimp only at running
  split at running
  · cases running
  · obtain same | ⟨line, written⟩ := extends_of_perform running
    · exact ⟨#[], same.trans (Sink.append_empty _).symm, .inl rfl⟩
    · obtain ⟨_, refused⟩ | ⟨admits, taken⟩ := machine.sink.write?_eq line
      · rw [refused] at written
        cases written
      · rw [taken] at written
        exact ⟨#[line], (Option.some.inj written).symm, admits⟩

/-- After as many steps, the run in a sink that never fails is in the same place, or it has printed
a line for which the sink has no room, and the run in the sink has stopped before that line. -/
theorem run_free (assembly : Assembly) (machine : Machine) (count : Nat) :
    ∃ lines, (machine.run assembly count).1.sink = machine.sink.append lines ∧
      machine.sink.Admits lines ∧
      (machine.free.run assembly count =
          ((machine.run assembly count).1.free, (machine.run assembly count).2) ∨
        (machine.sink.append lines).isFull = true ∧
          (machine.run assembly count).2 = some (.error .sinkFull) ∧
          ∃ line more, (machine.free.run assembly count).1.sink =
            machine.sink.free.append (lines.push line ++ more)) := by
  induction count generalizing machine with
  | zero => exact ⟨#[], (Sink.append_empty _).symm, .inl rfl, .inl rfl⟩
  | succ count ih =>
    -- The runs go on together until a print is refused. There the limited one stops and the other
    -- one has a line more.
    obtain same | ⟨full, stopped, next, line, running, next_sink⟩ := step_free assembly machine
    · unfold run
      rw [same]
      cases steps : machine.step assembly with
      | stopped outcome => exact ⟨#[], (Sink.append_empty _).symm, .inl rfl, .inl rfl⟩
      | running next =>
        obtain ⟨first, first_eq, room⟩ := step_admits steps
        obtain ⟨lines, shown, more_room, goes⟩ := ih next
        rw [first_eq] at shown more_room goes
        refine ⟨first ++ lines, ?_, room.append more_room, ?_⟩
        · rw [← Sink.append_append]
          exact shown
        · obtain both | ⟨full, stopped, line, more, beyond⟩ := goes
          · exact .inl both
          · rw [Sink.append_append] at full
            refine .inr ⟨full, stopped, line, more, ?_⟩
            rw [Sink.free_append, Sink.append_append] at beyond
            rw [← Array.append_push, Array.append_assoc]
            exact beyond
    · obtain ⟨more, more_eq⟩ := run_sink assembly next count
      unfold run
      rw [stopped, running]
      refine ⟨#[], (Sink.append_empty _).symm, .inl rfl, .inr ⟨?_, rfl, line, more, ?_⟩⟩
      · rw [Sink.append_empty]
        exact full
      · rw [next_sink, Sink.append_append] at more_eq
        exact more_eq

/-- A run starts in any sink. -/
theorem start_eq_ok {entry : String} {sink : Sink}
    (started : Machine.start assembly entry sink = .ok machine) :
    machine.sink = sink ∧ Machine.start assembly entry sink.free = .ok machine.free := by
  unfold start at started ⊢
  split at started
  · cases started
  · next routine reached =>
    split at started
    · next none =>
      obtain rfl := Except.ok.inj started
      exact ⟨rfl, if_pos none⟩
    · cases started

end Machine

namespace Assembly

variable {assembly : Assembly} {entry : String} {sink : Sink} {machine : Machine}

theorem runEntry_eq (started : Machine.start assembly entry sink = .ok machine) (count : Nat) :
    assembly.runEntry entry sink count = ((machine.run assembly count).1.sink,
      (machine.run assembly count).2.map (Machine.conclude sink)) := by
  obtain ⟨more, more_eq⟩ := Machine.run_sink assembly machine count
  rw [(Machine.start_eq_ok started).1] at more_eq
  have same : Machine.conclude (sink.append more) = Machine.conclude sink := rfl
  unfold runEntry
  simp only [started, more_eq, same]

theorem runEntry_error {fault : Fault} (failed : Machine.start assembly entry sink = .error fault)
    (count : Nat) : assembly.runEntry entry sink count = (sink, some (.error fault)) := by
  unfold runEntry
  simp only [failed]

/-- After as many steps, a run shows the same lines as in a sink that never fails and has stopped if
it has stopped there, or it has stopped at a line for which the sink has no room. -/
theorem runEntry_free (started : Machine.start assembly entry sink = .ok machine) (count : Nat) :
    ∃ own, (assembly.runEntry entry sink count).1 = sink.append own ∧ sink.Admits own ∧
      ((assembly.runEntry entry sink.free count).1 = sink.free.append own ∧
          (assembly.runEntry entry sink count).2 =
            (assembly.runEntry entry sink.free count).2.map (Machine.conclude sink) ∨
        (sink.append own).isFull = true ∧
          (assembly.runEntry entry sink count).2 =
            some (Machine.conclude sink (.error .sinkFull)) ∧
          ∃ line more, (assembly.runEntry entry sink.free count).1 =
            sink.free.append (own.push line ++ more)) := by
  obtain ⟨sink_eq, freeStarted⟩ := Machine.start_eq_ok started
  obtain ⟨own, own_eq, admits, goes⟩ := Machine.run_free assembly machine count
  rw [sink_eq] at own_eq admits goes
  rw [runEntry_eq started, runEntry_eq freeStarted]
  refine ⟨own, own_eq, admits, ?_⟩
  obtain both | ⟨full, stopped, beyond⟩ := goes
  · rw [both]
    refine .inl ⟨congrArg Sink.free own_eq, ?_⟩
    cases (machine.run assembly count).2 with
    | none => rfl
    | some outcome => rfl
  · rw [stopped]
    exact .inr ⟨full, rfl, beyond⟩

/-- A sink shows what one that never fails does, as far as it has room. -/
theorem prints_iff_free (started : Machine.start assembly entry sink = .ok machine)
    (lines : Array String) : assembly.Prints entry sink lines ↔
      sink.Admits lines ∧ assembly.Prints entry sink.free lines := by
  constructor
  · rintro ⟨count, more, shown⟩
    obtain ⟨own, own_eq, admits, goes⟩ := runEntry_free started count
    obtain rfl := Sink.append_inj (own_eq.symm.trans shown)
    obtain ⟨both, _⟩ | ⟨_, _, line, rest, beyond⟩ := goes
    · exact ⟨admits.left, count, more, both⟩
    · refine ⟨admits.left, count, more.push line ++ rest, ?_⟩
      rw [beyond, ← Array.append_push, Array.append_assoc]
  · rintro ⟨admits, count, more, shown⟩
    obtain ⟨own, own_eq, _, goes⟩ := runEntry_free started count
    obtain ⟨both, _⟩ | ⟨full, _, line, rest, beyond⟩ := goes
    · obtain rfl := Sink.append_inj (both.symm.trans shown)
      exact ⟨count, more, own_eq⟩
    · have same := Sink.append_inj (beyond.symm.trans shown)
      rw [← Array.append_singleton, Array.append_assoc] at same
      obtain ⟨later, rfl⟩ := exists_append_of_append_eq same (Sink.size_le_of_isFull full admits)
      exact ⟨count, later, own_eq⟩

/-- A run ends in a sink as in one that never fails, if the sink has room for all its lines, and
otherwise at the first line for which it has none. -/
theorem ends_iff_free (started : Machine.start assembly entry sink = .ok machine)
    (lines : Array String) (outcome : Outcome) : assembly.Ends entry sink lines outcome ↔
      sink.Admits lines ∧
        ((∃ own, assembly.Ends entry sink.free lines own ∧ outcome = Machine.conclude sink own) ∨
          (sink.append lines).isFull = true ∧
            (∃ line, assembly.Prints entry sink.free (lines.push line)) ∧
            outcome = Machine.conclude sink (.error .sinkFull)) := by
  unfold Ends Prints
  simp only [Prod.ext_iff]
  constructor
  · rintro ⟨count, shown, ended⟩
    obtain ⟨own, own_eq, admits, goes⟩ := runEntry_free started count
    obtain rfl := Sink.append_inj (own_eq.symm.trans shown)
    refine ⟨admits, ?_⟩
    obtain ⟨both, stopped⟩ | ⟨full, stopped, line, more, beyond⟩ := goes
    · obtain ⟨free, free_eq, rfl⟩ := Option.map_eq_some_iff.mp (stopped.symm.trans ended)
      exact .inl ⟨free, ⟨count, both, free_eq⟩, rfl⟩
    · obtain rfl := Option.some.inj (stopped.symm.trans ended)
      exact .inr ⟨full, ⟨line, count, more, beyond⟩, rfl⟩
  · rintro ⟨admits, ⟨free, ⟨count, shown, ended⟩, rfl⟩ | ⟨full, ⟨line, count, more, shown⟩, rfl⟩⟩
    · obtain ⟨own, own_eq, _, goes⟩ := runEntry_free started count
      obtain ⟨both, stopped⟩ | ⟨ownFull, _, line, more, beyond⟩ := goes
      · obtain rfl := Sink.append_inj (both.symm.trans shown)
        exact ⟨count, own_eq, by rw [stopped, ended, Option.map_some]⟩
      · have size_eq := congrArg Array.size (Sink.append_inj (beyond.symm.trans shown))
        have bound := Sink.size_le_of_isFull ownFull admits
        simp only [Array.size_append, Array.size_push] at size_eq
        omega
    · obtain ⟨own, own_eq, ownAdmits, goes⟩ := runEntry_free started count
      have ownBound := Sink.size_le_of_isFull full ownAdmits
      obtain ⟨both, _⟩ | ⟨ownFull, stopped, other, rest, beyond⟩ := goes
      · have size_eq := congrArg Array.size (Sink.append_inj (both.symm.trans shown))
        simp only [Array.size_append, Array.size_push] at size_eq
        omega
      -- both stop at the line behind as many lines as the sink takes
      · have bound := Sink.size_le_of_isFull ownFull admits
        have same := Sink.append_inj (beyond.symm.trans shown)
        rw [← Array.append_singleton, ← Array.append_singleton, Array.append_assoc,
          Array.append_assoc] at same
        obtain rfl := (Array.append_inj same (Nat.le_antisymm ownBound bound)).1
        exact ⟨count, own_eq, stopped⟩

/-- Runs that show the same and end in the same way. -/
structure SameRuns (left right : Assembly) (entry : String) (sink : Sink) : Prop where
  prints_iff : ∀ lines, left.Prints entry sink lines ↔ right.Prints entry sink lines
  ends_iff : ∀ lines outcome, left.Ends entry sink lines outcome ↔
    right.Ends entry sink lines outcome

namespace SameRuns

variable {left right : Assembly}

/-- Runs that do not start, for one reason, are the same. -/
theorem of_start_error {fault : Fault} (leftFails : Machine.start left entry sink = .error fault)
    (rightFails : Machine.start right entry sink = .error fault) :
    left.SameRuns right entry sink := by
  have same : ∀ count, left.runEntry entry sink count = right.runEntry entry sink count := by
    intro count
    rw [runEntry_error leftFails, runEntry_error rightFails]
  refine ⟨fun lines => ?_, fun lines outcome => ?_⟩
  · unfold Prints
    simp only [same]
  · unfold Ends
    simp only [same]

/-- Runs that are the same in a sink that never fails are the same in any sink. -/
theorem of_free {machine other : Machine}
    (leftStarted : Machine.start left entry sink = .ok machine)
    (rightStarted : Machine.start right entry sink = .ok other)
    (same : left.SameRuns right entry sink.free) : left.SameRuns right entry sink := by
  refine ⟨fun lines => ?_, fun lines outcome => ?_⟩
  · rw [prints_iff_free leftStarted, prints_iff_free rightStarted, same.prints_iff]
  · rw [ends_iff_free leftStarted, ends_iff_free rightStarted]
    simp only [same.prints_iff, same.ends_iff]

end SameRuns

end Assembly

end ImpStack

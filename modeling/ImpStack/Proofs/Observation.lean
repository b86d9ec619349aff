import ImpStack.Proofs.Correctness

/-!
What a run shows before it ends, if it ends at all: the lines printed so far and the values read so
far. A run takes nothing back (`run_sink`), so every run is a part of one that shows what some
evaluation shows, and what an evaluation shows is shown by some run (`RunsAs.run_within`,
`RunsAs.log_shown`). Programs that run forever are compared by what they print on the way
(`ofProgram_prints_iff`).
-/
namespace ImpStack

theorem Sink.append_append (sink : Sink) (first second : Array String) :
    (sink.append first).append second = sink.append (first ++ second) := by
  simp only [append, Array.append_assoc]

namespace Machine

variable {assembly : Assembly} {machine next reached : Machine}

/-- A sink that has taken nothing or one more line. -/
def Extends (before after : Sink) : Prop := after = before ∨ ∃ line, before.write? line = some after

theorem extends_of_within {frame : Frame} {operands : Operands}
    (running : machine.within frame operands = .running next) : Extends machine.sink next.sink := by
  obtain rfl := Step.running.inj running
  exact .inl rfl

theorem extends_of_jump {frame : Frame} {operands : Operands} {target : Nat}
    (running : machine.jump frame operands target = .running next) :
    Extends machine.sink next.sink := by
  unfold jump at running
  split at running
  · exact extends_of_within running
  · cases running

theorem extends_of_leave {operands : Operands} {value : Option Value}
    (running : machine.leave operands value = .running next) :
    Extends machine.sink next.sink := by
  unfold leave at running
  split at running
  · cases running
  · obtain rfl := Step.running.inj running
    exact .inl rfl

theorem extends_of_call {frame : Frame} {underflow : Fault} {callee : String} {arity : Nat}
    (running : machine.call assembly frame underflow callee arity = .running next) :
    Extends machine.sink next.sink := by
  unfold call at running
  split at running
  · cases running
  · split at running
    · cases running
    · split at running
      · cases running
      · obtain rfl := Step.running.inj running
        exact .inl rfl

/-- An instruction prints one line or nothing. -/
theorem extends_of_perform {frame : Frame} {underflow : Fault} {instruction : Instruction Nat}
    (running : machine.perform assembly frame underflow instruction = .running next) :
    Extends machine.sink next.sink := by
  cases instruction with
  | pushInt value | pushFloat value => exact extends_of_within running
  | jump target => exact extends_of_jump running
  | call callee arity => exact extends_of_call running
  | returnVoid => exact extends_of_leave running
  | load slot | store slot | dup | pop | neg =>
    simp only [perform] at running
    split at running
    · exact extends_of_within running
    · cases running
  | arithmetic op =>
    simp only [perform] at running
    split at running
    · split at running
      · exact extends_of_within running
      · cases running
    · cases running
  | jumpIfZero target | jumpIf comparison target =>
    simp only [perform] at running
    split at running
    · split at running
      · exact extends_of_jump running
      · exact extends_of_within running
    · cases running
  | print =>
    simp only [perform] at running
    split at running
    · split at running
      · next sink written =>
        obtain rfl := Step.running.inj running
        exact .inr ⟨_, written⟩
      · cases running
    · cases running
  | return_ =>
    simp only [perform] at running
    split at running
    · exact extends_of_leave running
    · cases running

theorem Extends.append {before after : Sink} (extends_ : Extends before after) :
    ∃ more, after = before.append more := by
  obtain rfl | ⟨line, written⟩ := extends_
  · exact ⟨#[], (Sink.append_empty _).symm⟩
  · refine ⟨#[line], ?_⟩
    unfold Sink.write? at written
    split at written
    · cases written
    · obtain rfl := Option.some.inj written
      simp [Sink.append]

/-- A step takes no line back. -/
theorem step_sink (running : machine.step assembly = .running next) :
    ∃ more, next.sink = machine.sink.append more := by
  unfold step at running
  dsimp only at running
  split at running
  · cases running
  · exact (extends_of_perform running).append

/-- What a run has printed it does not take back. -/
theorem run_sink (assembly : Assembly) (machine : Machine) (count : Nat) :
    ∃ more, (machine.run assembly count).1.sink = machine.sink.append more := by
  induction count generalizing machine with
  | zero => exact ⟨#[], (Sink.append_empty _).symm⟩
  | succ count ih =>
    unfold run
    cases steps : machine.step assembly with
    | stopped outcome => exact ⟨#[], (Sink.append_empty _).symm⟩
    | running next =>
      obtain ⟨first, first_eq⟩ := step_sink steps
      obtain ⟨more, more_eq⟩ := ih next
      dsimp only
      exact ⟨first ++ more, by rw [more_eq, first_eq, Sink.append_append]⟩

/-- The output of a longer run begins with that of a shorter one. -/
theorem Reaches.run_sink {count steps : Nat} {reads : List Read}
    (reaches : Reaches assembly count machine reads reached) (le : steps ≤ count) :
    ∃ more, reached.sink = (machine.run assembly steps).1.sink.append more := by
  obtain ⟨rest, rfl⟩ := Nat.exists_eq_add_of_le le
  have ran := reaches.run_eq
  rw [run_add] at ran
  cases middle : machine.run assembly steps with
  | mk between stopped =>
    rw [middle] at ran
    cases stopped with
    | none =>
      have goes : between.run assembly rest = (reached, none) := ran
      obtain ⟨more, more_eq⟩ := Machine.run_sink assembly between rest
      rw [goes] at more_eq
      exact ⟨more, more_eq⟩
    | some outcome => cases ran

/-- A run that stops reads nothing more. -/
theorem Reaches.reads_stopped {count : Nat} {reads : List Read} {outcome : Outcome}
    (reaches : Reaches assembly count machine reads reached)
    (stops : reached.step assembly = .stopped outcome) (more : Nat) :
    machine.reads assembly (count + more) = reads := by
  induction reaches with
  | refl machine =>
    cases more with
    | zero => rfl
    | succ more => simp [Machine.reads, stops]
  | step running _ ih =>
    rw [Nat.add_right_comm, Machine.reads, running]
    simp only [ih stops]

end Machine

namespace RunsAs

variable {assembly : Assembly} {sink : Sink} {machine : Machine}
  {results : Nat → EStateM.Result Halt Log (Option Value)}

/-- Every run is a part of one that shows what some evaluation shows. -/
theorem run_within (runs : RunsAs assembly sink machine results) (steps : Nat) :
    (∃ more, sink.append (Evaluation.log (results (steps + 1))).lines =
      (machine.run assembly steps).1.sink.append more) ∧
    machine.reads assembly steps <+: (Evaluation.log (results (steps + 1))).reads := by
  obtain ⟨count, reached, ⟨shown, reads, reaches, reads_eq⟩, goes⟩ := runs (steps + 1)
  have logged : (Evaluation.log (results (steps + 1))).reads = reads := reads_eq
  rw [← shown, logged]
  rcases Nat.le_total steps count with le | beyond
  · exact ⟨reaches.run_sink le, reaches.reads_isPrefix le⟩
  · cases ended : Evaluation.outcome? (results (steps + 1)) with
    | none =>
      rw [ended] at goes
      have le : steps ≤ count := Nat.le_of_succ_le_succ goes
      exact ⟨reaches.run_sink le, reaches.reads_isPrefix le⟩
    | some outcome =>
      rw [ended] at goes
      obtain ⟨more, rfl⟩ := Nat.exists_eq_add_of_le beyond
      refine ⟨⟨#[], ?_⟩, ?_⟩
      · cases more with
        | zero => rw [Nat.add_zero, reaches.run_eq, Sink.append_empty]
        | succ more => rw [reaches.run_stopped goes, Sink.append_empty]
      · have same := reaches.reads_stopped goes more
        exact ⟨[], by rw [same, List.append_nil]⟩

/-- What an evaluation has printed some run has printed too. -/
theorem log_shown (runs : RunsAs assembly sink machine results) (fuel : Nat) :
    ∃ steps, (machine.run assembly steps).1.sink =
      sink.append (Evaluation.log (results fuel)).lines := by
  obtain ⟨count, reached, ⟨shown, reads, reaches, _⟩, _⟩ := runs fuel
  exact ⟨count, by rw [reaches.run_eq, shown]⟩

end RunsAs

namespace Assembly

/-- At some time the run of `entry` has printed the lines, and maybe more. -/
def Prints (assembly : Assembly) (entry : String) (sink : Sink) (lines : Array String) : Prop :=
  ∃ count more, (assembly.runEntry entry sink count).1 = sink.append (lines ++ more)

/-- The values that loads have yielded in the first `count` steps from `entry`. -/
def entryReads (assembly : Assembly) (entry : String) (sink : Sink) (count : Nat) : List Read :=
  match Machine.start assembly entry sink with
  | .error _ => []
  | .ok machine => machine.reads assembly count

end Assembly

/-- With some fuel the evaluation from `entry` prints the lines, and maybe more. -/
def Evaluation.Prints {Variables : Type} (rules : Rules Variables) (program : Program)
    (entry : String) (lines : Array String) : Prop :=
  ∃ fuel more, (Evaluation.log (Evaluation.program rules program entry fuel)).lines = lines ++ more

section

variable {name entry : String} {program : Program} {assembly : Assembly} {sink : Sink}
  {function : Function}

/-- A run prints lines, and maybe more, exactly if an evaluation does. -/
theorem ofProgram_prints_iff (ok : Assembly.ofProgram name program = .ok assembly)
    (distinct : ∀ function ∈ program.functions, function.paramNames.Nodup)
    (found : program.function? entry = some function) (noParams : function.params = [])
    (neverFails : sink.NeverFails) (lines : Array String) :
    assembly.Prints entry sink lines ↔ Evaluation.Prints .flat program entry lines := by
  obtain ⟨machine, started, runs⟩ := ofProgram_runsAs ok distinct found noParams neverFails
  unfold Assembly.Prints Assembly.runEntry
  simp only [started]
  constructor
  · rintro ⟨steps, more, shown⟩
    obtain ⟨⟨later, later_eq⟩, _⟩ := runs.run_within steps
    rw [shown, Sink.append_append, Array.append_assoc] at later_eq
    exact ⟨steps + 1, more ++ later, Sink.append_inj later_eq⟩
  · rintro ⟨fuel, more, logged⟩
    obtain ⟨steps, shown⟩ := runs.log_shown fuel
    exact ⟨steps, more, by rw [shown, logged]⟩

/-- What a run has read in so many steps an evaluation with that much fuel reads as well, in the
same order. -/
theorem ofProgram_reads_isPrefix (ok : Assembly.ofProgram name program = .ok assembly)
    (distinct : ∀ function ∈ program.functions, function.paramNames.Nodup)
    (found : program.function? entry = some function) (noParams : function.params = [])
    (neverFails : sink.NeverFails) (count : Nat) :
    assembly.entryReads entry sink count <+:
      (Evaluation.log (Evaluation.program .flat program entry (count + 1))).reads := by
  obtain ⟨machine, started, runs⟩ := ofProgram_runsAs ok distinct found noParams neverFails
  unfold Assembly.entryReads
  simp only [started]
  exact (runs.run_within count).2

end

end ImpStack

import ImpStack.Machine.Step
import ImpStack.Proofs.Evaluation

/-!
Runs of the machine from one state to another, with the values that loads yield on the way, and runs
of an entry function to their end. `Reaches` counts the steps, so that a run can be cut and put
together again; `Ends` is what a user sees of a run that comes to its end.
-/
namespace ImpStack

/-- The read that an instruction makes in a frame, if it loads a slot that has a value. -/
def Frame.read? (frame : Frame) : Instruction Nat → Option Read
  | .load slot => (frame.load? slot).map fun value => ⟨frame.routine.name, slot, value⟩
  | _ => none

namespace Machine

/-- The instruction to execute next. -/
def instruction? (machine : Machine) : Option (Instruction Nat) :=
  machine.frame.routine.code[machine.frame.next]?

/-- The read made by the next step. -/
def read? (machine : Machine) : Option Read := machine.instruction?.bind machine.frame.read?

/-- The reads made by at most `count` steps. -/
def reads (assembly : Assembly) : (count : Nat) → Machine → List Read
  | 0, _ => []
  | count + 1, machine =>
    match machine.step assembly with
    | .running next => machine.read?.toList ++ reads assembly count next
    | .stopped _ => []

/-- In exactly `count` steps a machine becomes another one, and these are the reads it makes. -/
inductive Reaches (assembly : Assembly) : Nat → Machine → List Read → Machine → Prop where
  | refl (machine : Machine) : Reaches assembly 0 machine [] machine
  | step {count : Nat} {machine next reached : Machine} {reads : List Read} :
      machine.step assembly = .running next → Reaches assembly count next reads reached →
      Reaches assembly (count + 1) machine (machine.read?.toList ++ reads) reached

variable {assembly : Assembly}

theorem Reaches.trans {first second : Nat} {machine middle reached : Machine}
    {before after : List Read} (left : Reaches assembly first machine before middle)
    (right : Reaches assembly second middle after reached) :
    Reaches assembly (first + second) machine (before ++ after) reached := by
  induction left with
  | refl => simpa using right
  | step steps _ ih =>
    rw [Nat.add_right_comm, List.append_assoc]
    exact .step steps (ih right)

/-- A counted run is what `run` makes of that many steps. -/
theorem Reaches.run_eq {count : Nat} {machine reached : Machine} {reads : List Read}
    (reaches : Reaches assembly count machine reads reached) :
    machine.run assembly count = (reached, none) := by
  induction reaches with
  | refl => rfl
  | step steps _ ih => simpa only [run, steps] using ih

/-- A run that stops goes no further, however many steps it is given. -/
theorem Reaches.run_stopped {count : Nat} {machine reached : Machine} {reads : List Read}
    {outcome : Outcome} (reaches : Reaches assembly count machine reads reached)
    (stops : reached.step assembly = .stopped outcome) (more : Nat) :
    machine.run assembly (count + (more + 1)) = (reached, some outcome) := by
  rw [run_add, reaches.run_eq]
  simp only [run, stops]

/-- The reads of a shorter run are those with which a longer one begins. -/
theorem Reaches.reads_isPrefix {count shorter : Nat} {machine reached : Machine}
    {reads : List Read} (reaches : Reaches assembly count machine reads reached)
    (le : shorter ≤ count) : machine.reads assembly shorter <+: reads := by
  induction reaches generalizing shorter with
  | refl =>
    obtain rfl := Nat.le_zero.mp le
    exact List.prefix_refl []
  | step steps _ ih =>
    cases shorter with
    | zero => exact List.nil_prefix
    | succ shorter =>
      simp only [Machine.reads, steps]
      exact (List.prefix_append_right_inj _).mpr (ih (Nat.le_of_succ_le_succ le))

end Machine

namespace Sink

/-- A sink that takes every line and can be flushed. -/
def NeverFails (sink : Sink) : Prop := sink.capacity = none ∧ sink.flushes = true

/-- The sink behind more lines. -/
def append (sink : Sink) (lines : Array String) : Sink := { sink with lines := sink.lines ++ lines }

theorem append_empty (sink : Sink) : sink.append #[] = sink := by
  simp [append]

/-- A sink shows which lines it has taken. -/
theorem append_inj {sink : Sink} {left right : Array String}
    (same : sink.append left = sink.append right) : left = right :=
  (Array.append_right_inj sink.lines).mp (congrArg lines same)

theorem write?_append {sink : Sink} (neverFails : sink.NeverFails) (lines : Array String)
    (line : String) :
    (sink.append lines).write? line = some (sink.append (lines.push line)) := by
  simp [write?, isFull, append, neverFails.1]

end Sink

namespace Assembly

/-- Runs `entry` for at most `count` steps: the sink then, and the outcome if the run has ended. -/
def runEntry (assembly : Assembly) (entry : String) (sink : Sink) (count : Nat) :
    Sink × Option Outcome :=
  match Machine.start assembly entry sink with
  | .error fault => (sink, some (.error fault))
  | .ok machine =>
    let (reached, outcome?) := machine.run assembly count
    (reached.sink, outcome?.map (Machine.conclude reached.sink))

/-- The run of `entry` ends with the outcome and has printed the lines. -/
def Ends (assembly : Assembly) (entry : String) (sink : Sink) (lines : Array String)
    (outcome : Outcome) : Prop :=
  ∃ count, assembly.runEntry entry sink count = (sink.append lines, some outcome)

end Assembly

end ImpStack

import ImpStack.Proofs.Execution
import ImpStack.Proofs.Lowering

/-!
The states of one call while it executes: what one step does there, for each instruction. A state is
given by what changes, the offset, the slots, the operands and the printed lines; everything else is
fixed by the `Activation`. Each instruction has one lemma, which says what it needs (enough operands
above the base, a target inside the code, a value in the slot) and where the machine is behind it,
so that no later proof looks into `perform`.
-/
namespace ImpStack

/-- What does not change while one call executes: its routine, its place among the live calls, and
the sink of the run as it was at first. -/
structure Activation where
  routine : Routine
  base : Nat
  depth : Nat
  callers : List Frame
  sink : Sink

namespace Activation

/-- The machine at offset `next` of the call, when the run has printed the lines. -/
def machine (activation : Activation) (next : Nat) (locals : Locals) (values : List Value)
    (lines : Array String) : Machine where
  frame := ⟨activation.routine, next, locals, activation.base, activation.depth⟩
  callers := activation.callers
  operands := .ofList values
  sink := activation.sink.append lines

variable {assembly : Assembly} {activation : Activation} {next target slot : Nat}
  {locals : Locals} {values : List Value} {value left right : Value} {lines : Array String}

/-- A step performs the instruction at its offset. -/
theorem step_eq {instruction : Instruction Nat}
    (fetch : activation.routine.code[next]? = some instruction) :
    (activation.machine next locals values lines).step assembly =
      (activation.machine next locals values lines).perform assembly
        ⟨activation.routine, next + 1, locals, activation.base, activation.depth⟩
        (.stackUnderflow activation.routine.name next) instruction := by
  simp only [Machine.step, machine, fetch]

/-- Only a load reads anything. -/
theorem read?_eq {instruction : Instruction Nat}
    (fetch : activation.routine.code[next]? = some instruction) :
    (activation.machine next locals values lines).read? =
      Frame.read? ⟨activation.routine, next, locals, activation.base, activation.depth⟩
        instruction := by
  simp only [Machine.read?, Machine.instruction?, machine, fetch, Option.bind_some]

theorem step_pushInt {literal : Int32}
    (fetch : activation.routine.code[next]? = some (.pushInt literal)) :
    (activation.machine next locals values lines).step assembly =
      .running (activation.machine (next + 1) locals (.int literal :: values) lines) := by
  rw [step_eq fetch]
  rfl

theorem step_pushFloat {literal : Float32}
    (fetch : activation.routine.code[next]? = some (.pushFloat literal)) :
    (activation.machine next locals values lines).step assembly =
      .running (activation.machine (next + 1) locals (.float literal :: values) lines) := by
  rw [step_eq fetch]
  rfl

theorem step_load (fetch : activation.routine.code[next]? = some (.load slot))
    (written : locals.get? slot = some value) :
    (activation.machine next locals values lines).step assembly =
      .running (activation.machine (next + 1) locals (value :: values) lines) := by
  rw [step_eq fetch]
  simp only [Machine.perform, Frame.load?, written]
  rfl

/-- A slot that this call has not written stops the run. -/
theorem step_load_unwritten (fetch : activation.routine.code[next]? = some (.load slot))
    (unwritten : locals.get? slot = none) :
    (activation.machine next locals values lines).step assembly =
      .stopped (.error (.uninitializedSlot activation.routine.name slot)) := by
  rw [step_eq fetch]
  simp only [Machine.perform, Frame.load?, unwritten]
  rfl

theorem step_store (fetch : activation.routine.code[next]? = some (.store slot))
    (above : activation.base ≤ values.length) :
    (activation.machine next locals (value :: values) lines).step assembly =
      .running (activation.machine (next + 1) (locals.set slot value) values lines) := by
  rw [step_eq fetch]
  simp only [Machine.perform, machine, Operands.pop?_ofList_cons above]
  rfl

theorem step_dup (fetch : activation.routine.code[next]? = some .dup)
    (above : activation.base ≤ values.length) :
    (activation.machine next locals (value :: values) lines).step assembly =
      .running (activation.machine (next + 1) locals (value :: value :: values) lines) := by
  rw [step_eq fetch]
  simp only [Machine.perform, machine, Operands.pop?_ofList_cons above]
  rfl

theorem step_pop (fetch : activation.routine.code[next]? = some .pop)
    (above : activation.base ≤ values.length) :
    (activation.machine next locals (value :: values) lines).step assembly =
      .running (activation.machine (next + 1) locals values lines) := by
  rw [step_eq fetch]
  simp only [Machine.perform, machine, Operands.pop?_ofList_cons above]
  rfl

/-- The right operand lies on top. An integer division by zero stops the run. -/
theorem step_arithmetic {op : Arithmetic}
    (fetch : activation.routine.code[next]? = some (.arithmetic op))
    (above : activation.base ≤ values.length) :
    (activation.machine next locals (right :: left :: values) lines).step assembly =
      match Value.combine? op left right with
      | some value => .running (activation.machine (next + 1) locals (value :: values) lines)
      | none => .stopped (.error (.divisionByZero activation.routine.name)) := by
  rw [step_eq fetch]
  simp only [Machine.perform, machine, Operands.popPair?_ofList_cons above]
  cases Value.combine? op left right <;> rfl

theorem step_neg (fetch : activation.routine.code[next]? = some .neg)
    (above : activation.base ≤ values.length) :
    (activation.machine next locals (value :: values) lines).step assembly =
      .running (activation.machine (next + 1) locals (value.negate :: values) lines) := by
  rw [step_eq fetch]
  simp only [Machine.perform, machine, Operands.pop?_ofList_cons above]
  rfl

theorem step_jump (fetch : activation.routine.code[next]? = some (.jump target))
    (inside : target < activation.routine.code.size) :
    (activation.machine next locals values lines).step assembly =
      .running (activation.machine target locals values lines) := by
  rw [step_eq fetch]
  simp only [Machine.perform, Machine.jump, if_pos inside]
  rfl

/-- The value is gone on both ways. -/
theorem step_jumpIfZero (fetch : activation.routine.code[next]? = some (.jumpIfZero target))
    (above : activation.base ≤ values.length)
    (inside : target < activation.routine.code.size) :
    (activation.machine next locals (value :: values) lines).step assembly =
      .running (activation.machine (if value.isZero then target else next + 1) locals values
        lines) := by
  rw [step_eq fetch]
  simp only [Machine.perform, machine, Operands.pop?_ofList_cons above, Machine.jump,
    if_pos inside]
  split <;> rfl

/-- Both operands are gone on both ways, and a comparison never fails. -/
theorem step_jumpIf {comparison : Comparison}
    (fetch : activation.routine.code[next]? = some (.jumpIf comparison target))
    (above : activation.base ≤ values.length)
    (inside : target < activation.routine.code.size) :
    (activation.machine next locals (right :: left :: values) lines).step assembly =
      .running (activation.machine (if Value.holds comparison left right then target else next + 1)
        locals values lines) := by
  rw [step_eq fetch]
  simp only [Machine.perform, machine, Operands.popPair?_ofList_cons above, Machine.jump,
    if_pos inside]
  split <;> rfl

theorem step_print (fetch : activation.routine.code[next]? = some .print)
    (above : activation.base ≤ values.length) (neverFails : activation.sink.NeverFails) :
    (activation.machine next locals (value :: values) lines).step assembly =
      .running (activation.machine (next + 1) locals values (lines.push value.text)) := by
  rw [step_eq fetch]
  simp only [Machine.perform, machine, Operands.pop?_ofList_cons above,
    Sink.write?_append neverFails]

/-- The call that `callee` begins when it is called from offset `next`. -/
def callee (activation : Activation) (routine : Routine) (next : Nat) (locals : Locals)
    (values : List Value) : Activation where
  routine := routine
  base := values.length
  depth := activation.depth + 1
  callers := ⟨activation.routine, next + 1, locals, activation.base, activation.depth⟩ ::
    activation.callers
  sink := activation.sink

/-- The arguments become the first slots of the callee, whose base lies where they lay. A call too
deep stops the run before it begins. -/
theorem step_call {name : String} {args : List Value} {routine : Routine}
    (fetch : activation.routine.code[next]? = some (.call name args.length))
    (reached : assembly.dispatch? name = some routine)
    (above : activation.base ≤ values.length) :
    (activation.machine next locals (args.reverse ++ values) lines).step assembly =
      if maxCallDepth ≤ activation.depth then .stopped (.error .callDepthExceeded)
      else .running ((activation.callee routine next locals values).machine 0
        (.ofArgs args routine.locals) values lines) := by
  have taken := Operands.popMany?_ofList_append above args.reverse
  rw [List.length_reverse, List.reverse_reverse] at taken
  rw [step_eq fetch]
  simp only [Machine.perform, Machine.call, machine, reached, taken]
  split <;> rfl

/-- The call of an entry function. -/
def ofEntry (routine : Routine) (sink : Sink) : Activation where
  routine := routine
  base := 0
  depth := 1
  callers := []
  sink := sink

/-- A run begins like a call without arguments. -/
theorem start_eq {name : String} {routine : Routine} {sink : Sink}
    (reached : assembly.dispatch? name = some routine) (noParams : routine.arity = 0) :
    Machine.start assembly name sink =
      .ok ((ofEntry routine sink).machine 0 (.ofArgs [] routine.locals) [] #[]) := by
  simp only [Machine.start, reached, noParams, if_true, machine, ofEntry, Sink.append_empty]
  rfl

/-- The end of a call that has nothing left above its base. -/
theorem leave_eq {caller : Frame} {callers : List Frame}
    (waiting : activation.callers = caller :: callers)
    (height : values.length = activation.base) (result : Option Value) {rest : List Value} :
    (activation.machine next locals rest lines).leave (.ofList values) result =
      .running ⟨caller, callers, .ofList (result.getD (.int 0) :: values),
        activation.sink.append lines⟩ := by
  have cut := Operands.truncate_ofList_append [] values
  rw [List.nil_append, height] at cut
  simp only [Machine.leave, machine, waiting, cut]
  rfl

/-- A call that returns a value leaves whatever lies below that value. -/
theorem step_return (fetch : activation.routine.code[next]? = some .return_)
    (above : activation.base ≤ values.length) :
    (activation.machine next locals (value :: values) lines).step assembly =
      (activation.machine next locals (value :: values) lines).leave (.ofList values)
        (some value) := by
  rw [step_eq fetch]
  simp only [Machine.perform, machine, Operands.pop?_ofList_cons above]

/-- A call that returns none leaves all of its operands. -/
theorem step_returnVoid (fetch : activation.routine.code[next]? = some .returnVoid) :
    (activation.machine next locals values lines).step assembly =
      (activation.machine next locals values lines).leave (.ofList values) none := by
  rw [step_eq fetch]
  rfl

end Activation

end ImpStack

import ImpStack.Machine.State

/-!
The steps of the machine, and runs as counted steps.

Embeds the virtual machine of SPEC_FULL, section 4.6: `step` fetches as its `run` does, `perform` is
its `execute`, `call` the check of a callee with `push_frame` behind it, `leave` is `return_from`,
and `jump` is `jump`. A run is cut off after a number of steps, so that it is a function also of
code that loops forever. The flush at the end is `conclude`; what a fault leaves behind for the next
run, and the pieces in which a line is written, are modelled by `Processor`.
-/
namespace ImpStack

/-- What a step leads to. -/
inductive Step where
  | running (machine : Machine)
  | stopped (outcome : Outcome)
  deriving Repr

namespace Machine

/-- The machine with another executing frame and other operands. -/
def within (machine : Machine) (frame : Frame) (operands : Operands) : Step :=
  .running { machine with frame, operands }

def fault (fault : Fault) : Step := .stopped (.error fault)

/-- Continues at `target` of the executing function, which must lie inside its code (`jump`). -/
def jump (machine : Machine) (frame : Frame) (operands : Operands) (target : Nat) : Step :=
  if target < frame.routine.code.size then machine.within { frame with next := target } operands
  else Machine.fault (.invalidJump frame.routine.name target)

/-- Ends the executing call (`return_from`). Its caller gets the value, or zero if there is none,
and whatever else the call left is dropped. -/
def leave (machine : Machine) (operands : Operands) (value : Option Value) : Step :=
  match machine.callers with
  | [] => .stopped (.ok value)
  | caller :: callers =>
    let operands := (operands.truncate machine.frame.base).push (value.getD (.int 0))
    .running { machine with frame := caller, callers, operands }

/-- Calls `callee` from `frame`, whose topmost `arity` operands are the arguments (`push_frame`).
Too few operands are noticed before too many calls. -/
def call (assembly : Assembly) (machine : Machine) (frame : Frame) (underflow : Fault)
    (callee : String) (arity : Nat) : Step :=
  match assembly.dispatch? callee with
  | none => Machine.fault (.unknownFunction callee)
  | some routine =>
    match machine.operands.popMany? frame.base arity with
    | none => Machine.fault underflow
    | some (args, operands) =>
      if maxCallDepth ≤ frame.depth then Machine.fault .callDepthExceeded
      else
        .running { machine with
          frame := .enter routine args operands.height (frame.depth + 1)
          callers := frame :: machine.callers
          operands }

/-- Executes one instruction, where `frame` is the executing frame with its next offset already
behind that instruction (`execute`). -/
@[simp]
def perform (assembly : Assembly) (machine : Machine) (frame : Frame) (underflow : Fault) :
    Instruction Nat → Step
  | .pushInt value => machine.within frame (machine.operands.push (.int value))
  | .pushFloat value => machine.within frame (machine.operands.push (.float value))
  | .load slot =>
    match frame.load? slot with
    | some value => machine.within frame (machine.operands.push value)
    | none => Machine.fault (.uninitializedSlot frame.routine.name slot)
  | .store slot =>
    match machine.operands.pop? frame.base with
    | some (value, operands) => machine.within (frame.store slot value) operands
    | none => Machine.fault underflow
  | .dup =>
    match machine.operands.pop? frame.base with
    | some (value, operands) => machine.within frame ((operands.push value).push value)
    | none => Machine.fault underflow
  | .pop =>
    match machine.operands.pop? frame.base with
    | some (_, operands) => machine.within frame operands
    | none => Machine.fault underflow
  | .arithmetic op =>
    match machine.operands.popPair? frame.base with
    | some ((left, right), operands) =>
      match Value.combine? op left right with
      | some value => machine.within frame (operands.push value)
      | none => Machine.fault (.divisionByZero frame.routine.name)
    | none => Machine.fault underflow
  | .neg =>
    match machine.operands.pop? frame.base with
    | some (value, operands) => machine.within frame (operands.push value.negate)
    | none => Machine.fault underflow
  | .jump target => machine.jump frame machine.operands target
  | .jumpIfZero target =>
    match machine.operands.pop? frame.base with
    | some (value, operands) =>
      if value.isZero then machine.jump frame operands target else machine.within frame operands
    | none => Machine.fault underflow
  | .jumpIf comparison target =>
    match machine.operands.popPair? frame.base with
    | some ((left, right), operands) =>
      if Value.holds comparison left right then machine.jump frame operands target
      else machine.within frame operands
    | none => Machine.fault underflow
  | .call callee arity => machine.call assembly frame underflow callee arity
  | .print =>
    match machine.operands.pop? frame.base with
    | some (value, operands) =>
      match machine.sink.write? value.text with
      | some sink => .running { machine with frame, operands, sink }
      | none => Machine.fault .sinkFull
    | none => Machine.fault underflow
  | .return_ =>
    match machine.operands.pop? frame.base with
    | some (value, operands) => machine.leave operands (some value)
    | none => Machine.fault underflow
  | .returnVoid => machine.leave machine.operands none

/-- One step of a machine that runs the routines of `assembly`. -/
def step (assembly : Assembly) (machine : Machine) : Step :=
  let frame := machine.frame
  match frame.routine.code[frame.next]? with
  | none => Machine.fault (.invalidJump frame.routine.name frame.next)
  | some instruction =>
    machine.perform assembly { frame with next := frame.next + 1 }
      (.stackUnderflow frame.routine.name frame.next) instruction

/-- At most `count` steps: the last machine reached, and how the run ended if it did. -/
def run (assembly : Assembly) : (count : Nat) → Machine → Machine × Option Outcome
  | 0, machine => (machine, none)
  | count + 1, machine =>
    match machine.step assembly with
    | .running machine => run assembly count machine
    | .stopped outcome => (machine, some outcome)

/-- A run goes on where a shorter one was interrupted. -/
theorem run_add (assembly : Assembly) (first second : Nat) (machine : Machine) :
    run assembly (first + second) machine =
      match run assembly first machine with
      | (reached, none) => run assembly second reached
      | (reached, some outcome) => (reached, some outcome) := by
  induction first generalizing machine with
  | zero => simp [run]
  | succ first ih =>
    rw [Nat.succ_add, run, run]
    cases machine.step assembly with
    | running next => exact ih next
    | stopped outcome => rfl

end Machine

end ImpStack

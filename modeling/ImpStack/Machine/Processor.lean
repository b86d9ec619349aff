import ImpStack.Machine.Channel
import ImpStack.Machine.State

/-!
The stack machine as one object that is kept from run to run. A fault abandons it as it is, in the
middle of an instruction, with its live calls, its operands and what has been written.

Embeds the virtual machine of SPEC_FULL, section 4.6, function by function: `run`, `pushFrame`,
`pop`, `popPair`, `jump`, `returnFrom` and `perform` are its `run`, `push_frame`, `pop`, `pop_pair`,
`jump`, `return_from` and `execute`. The frames are one list that may be empty, as they are before a
run and behind its end.
-/
namespace ImpStack

/-- The live calls, the innermost first, the operands of all of them, and the output. -/
structure Processor where
  frames : List Frame
  operands : Operands
  channel : Channel
  deriving DecidableEq, Repr

/-- What a processor does until a fault. -/
abbrev Processing := ExceptT Fault (StateM Processor)

namespace Processor

/-- A processor that has not run yet. -/
def new (channel : Channel) : Processor := ⟨[], .empty, channel⟩

/-- The height of the operand stack at the start of the executing call. -/
def base (processor : Processor) : Nat :=
  match processor.frames with
  | [] => 0
  | frame :: _ => frame.base

/-- The fault of an instruction that finds too few operands; the executing call is at the offset
behind it already. -/
def underflow (processor : Processor) : Fault :=
  match processor.frames with
  | [] => .stackUnderflow "" 0
  | frame :: _ => .stackUnderflow frame.routine.name (frame.next - 1)

end Processor

namespace Processing

/-- The result and the processor that is left, also by a fault. -/
def runOn {α : Type} (processing : Processing α) (processor : Processor) :
    Except Fault α × Processor :=
  Id.run (StateT.run (ExceptT.run processing) processor)

def push (value : Value) : Processing Unit :=
  modify fun processor => { processor with operands := processor.operands.push value }

def pop : Processing Value := do
  let processor ← get
  match processor.operands.pop? processor.base with
  | some (value, operands) =>
    set { processor with operands }
    return value
  | none => throw processor.underflow

/-- The two topmost operands, the lower one first. -/
def popPair : Processing (Value × Value) := do
  let right ← pop
  let left ← pop
  return (left, right)

/-- The `count` topmost operands, the lowest first. -/
def popMany : (count : Nat) → Processing (List Value)
  | 0 => return []
  | count + 1 => do
    let last ← pop
    let values ← popMany count
    return values ++ [last]

/-- Replaces the executing call. -/
def resume (frame : Frame) : Processing Unit :=
  modify fun processor => { processor with frames := frame :: processor.frames.tail }

/-- Continues the executing call at `target`. -/
def jump (frame : Frame) (target : Nat) : Processing Unit :=
  if target < frame.routine.code.size then resume { frame with next := target }
  else throw (.invalidJump frame.routine.name target)

def pushFrame (routine : Routine) (args : List Value) : Processing Unit := do
  let processor ← get
  let live := processor.frames.length
  if maxCallDepth ≤ live then throw .callDepthExceeded
  else
    let frame := Frame.enter routine args processor.operands.height (live + 1)
    set { processor with frames := frame :: processor.frames }

/-- Ends the executing call. Its caller gets the value, or zero if there is none; without a caller
the run ends with the value. -/
def returnFrom (value : Option Value) : Processing (Option (Option Value)) := do
  let processor ← get
  match processor.frames with
  | [] => return some value
  | [frame] =>
    set { processor with frames := [], operands := processor.operands.truncate frame.base }
    return some value
  | frame :: callers =>
    set { processor with frames := callers, operands := processor.operands.truncate frame.base }
    push (value.getD (.int 0))
    return none

/-- Writes the text of the value piece by piece, then the end of the line. -/
def print (spelling : Spelling) (value : Value) : Processing Unit := do
  let processor ← get
  let (channel, written) := processor.channel.writePieces (spelling.pieces value ++ ["\n"])
  set { processor with channel }
  if written then return () else throw .sinkFull

variable (spelling : Spelling) (assembly : Assembly)

/-- Executes one instruction of the call `frame`. The result is there once the run has ended. -/
def perform (frame : Frame) : Instruction Nat → Processing (Option (Option Value))
  | .pushInt value => do
    push (.int value)
    return none
  | .pushFloat value => do
    push (.float value)
    return none
  | .load slot =>
    match frame.load? slot with
    | some value => do
      push value
      return none
    | none => throw (.uninitializedSlot frame.routine.name slot)
  | .store slot => do
    let value ← pop
    resume (frame.store slot value)
    return none
  | .dup => do
    let value ← pop
    push value
    push value
    return none
  | .pop => do
    let _ ← pop
    return none
  | .arithmetic op => do
    let (left, right) ← popPair
    match Value.combine? op left right with
    | some value =>
      push value
      return none
    | none => throw (.divisionByZero frame.routine.name)
  | .neg => do
    let value ← pop
    push value.negate
    return none
  | .jump target => do
    jump frame target
    return none
  | .jumpIfZero target => do
    let value ← pop
    if value.isZero then jump frame target
    return none
  | .jumpIf comparison target => do
    let (left, right) ← popPair
    if Value.holds comparison left right then jump frame target
    return none
  | .call callee arity =>
    match assembly.dispatch? callee with
    | none => throw (.unknownFunction callee)
    | some routine => do
      let args ← popMany arity
      pushFrame routine args
      return none
  | .print => do
    let value ← pop
    print spelling value
    return none
  | .return_ => do
    let value ← pop
    returnFrom (some value)
  | .returnVoid => returnFrom none

/-- Executes the next instruction; without a live call there is none. -/
def step : Processing (Option (Option Value)) := do
  match (← get).frames with
  | [] => return some none
  | frame :: _ =>
    match frame.routine.code[frame.next]? with
    | none => throw (.invalidJump frame.routine.name frame.next)
    | some instruction =>
      let frame := { frame with next := frame.next + 1 }
      resume frame
      perform spelling assembly frame instruction

end Processing

namespace Processor

variable (spelling : Spelling) (assembly : Assembly)

/-- At most `count` steps: how the run ended, if it did, and the processor then. -/
def execute : (count : Nat) → Processor → Option Outcome × Processor
  | 0, processor => (none, processor)
  | count + 1, processor =>
    match (Processing.step spelling assembly).runOn processor with
    | (.error fault, processor) => (some (.error fault), processor)
    | (.ok (some result), processor) => (some (.ok result), processor)
    | (.ok none, processor) => execute count processor

/-- Forgets what an earlier run has left, except for the output. -/
def reset (processor : Processor) : Processor :=
  { processor with frames := [], operands := .empty }

/-- The outcome once the output has been flushed; a refused flush hides it. -/
def conclude (processor : Processor) (outcome : Outcome) : Outcome :=
  if processor.channel.flushes then outcome else .error .flushRefused

/-- Runs `entry` for at most `count` steps. A run that is refused before it starts leaves everything
as it is. -/
def run (entry : String) (count : Nat) (processor : Processor) : Option Outcome × Processor :=
  match assembly.dispatch? entry with
  | none => (some (.error (.unknownFunction entry)), processor)
  | some routine =>
    if routine.arity = 0 then
      match (Processing.pushFrame routine []).runOn processor.reset with
      | (.error fault, processor) => (some (.error fault), processor)
      | (.ok (), processor) =>
        let (outcome?, processor) := execute spelling assembly count processor
        (outcome?.map processor.conclude, processor)
    else (some (.error (.entryTakesArguments entry routine.arity)), processor)

end Processor

end ImpStack

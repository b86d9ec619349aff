import ImpStack.Code.Assembly
import ImpStack.Machine.Locals
import ImpStack.Machine.Operands
import ImpStack.Machine.Sink

/-!
The stack machine (SPEC_FULL, section 4.6). Every live call has a frame with its own local slots;
its operands lie above its base on the one stack of all calls. The executing frame is a field of its
own, so that a running machine always has one.
-/
namespace ImpStack

/-- The greatest number of live calls. -/
def maxCallDepth : Nat := 10000

/-- Why a run ends without a result. -/
inductive Fault where
  | unknownFunction (name : String)
  | entryTakesArguments (name : String) (arity : Nat)
  | divisionByZero (function : String)
  /-- The instruction at `offset` finds too few operands. -/
  | stackUnderflow (function : String) (offset : Nat)
  /-- A jump out of the code, or a step behind its end. -/
  | invalidJump (function : String) (target : Nat)
  | uninitializedSlot (function : String) (slot : Nat)
  | callDepthExceeded
  | sinkFull
  | flushRefused
  deriving DecidableEq, Repr

def Fault.message : Fault → String
  | unknownFunction name => s!"function '{name}' not found in module"
  | entryTakesArguments name arity =>
    s!"entry function '{name}' takes {arity} argument(s); entry functions take none"
  | divisionByZero function => s!"division by zero in '{function}'"
  | stackUnderflow function offset =>
    s!"operand stack underflow in '{function}' at {offsetText offset}"
  | invalidJump function target =>
    s!"jump to invalid offset {offsetText target} in '{function}'"
  | uninitializedSlot function slot =>
    s!"local slot {slot} read before being written in '{function}'"
  | callDepthExceeded => s!"call depth exceeded {maxCallDepth} frames"
  | sinkFull => "failed to write program output: sink full"
  | flushRefused => "failed to write program output: flush refused"

/-- One live call. -/
structure Frame where
  routine : Routine
  /-- The offset of the instruction to execute next. -/
  next : Nat
  locals : Locals
  /-- The height of the operand stack at the start of the call. -/
  base : Nat
  /-- The number of live calls up to this one. -/
  depth : Nat
  deriving DecidableEq, Repr

namespace Frame

/-- A call at its start; its arguments fill the first slots. -/
def enter (routine : Routine) (args : List Value) (base depth : Nat) : Frame where
  routine := routine
  next := 0
  locals := .ofArgs args routine.locals
  base := base
  depth := depth

def load? (frame : Frame) (slot : Nat) : Option Value := frame.locals.get? slot

def store (frame : Frame) (slot : Nat) (value : Value) : Frame :=
  { frame with locals := frame.locals.set slot value }

end Frame

/-- A running machine: the frame that executes, the frames that wait for it, innermost first, the
operands of all of them, and the output. -/
structure Machine where
  frame : Frame
  callers : List Frame
  operands : Operands
  sink : Sink
  deriving DecidableEq, Repr

/-- How a run ends: with a fault, with a value or without one. -/
abbrev Outcome := Except Fault (Option Value)

namespace Machine

/-- A machine about to run the function `entry`, which must take no arguments. -/
def start (assembly : Assembly) (entry : String) (sink : Sink) : Except Fault Machine :=
  match assembly.dispatch? entry with
  | none => .error (.unknownFunction entry)
  | some routine =>
    if routine.arity = 0 then .ok ⟨.enter routine [] 0 1, [], .empty, sink⟩
    else .error (.entryTakesArguments entry routine.arity)

/-- The outcome once the sink has been flushed; a refused flush hides it. -/
def conclude (sink : Sink) (outcome : Outcome) : Outcome :=
  if sink.flushes then outcome else .error .flushRefused

end Machine

end ImpStack

import ImpStack.Binary32.Text
import ImpStack.Syntax.Operator

/-!
Instructions of the stack machine, with their texts in a listing (SPEC_FULL, sections 4.4 and 4.5).
`mapTarget` is `map_target`, by which labels become offsets.
-/
namespace ImpStack

/-- One instruction, whose jumps lead to a `Target`: an offset in the code of its function, or a
label that stands for one. -/
inductive Instruction (Target : Type) where
  | pushInt (value : Int32)
  | pushFloat (value : Float32)
  | load (slot : Nat)
  | store (slot : Nat)
  | dup
  | pop
  /-- Takes the right operand, then the left one. -/
  | arithmetic (op : Arithmetic)
  | neg
  | jump (target : Target)
  | jumpIfZero (target : Target)
  /-- Takes the right operand, then the left one, and jumps when the comparison holds. -/
  | jumpIf (comparison : Comparison) (target : Target)
  | call (callee : String) (arity : Nat)
  | print
  | return_
  | returnVoid
  deriving DecidableEq, Repr

/-- At least four digits. -/
def offsetText (offset : Nat) : String :=
  let digits := toString offset
  "".pushn '0' (4 - digits.length) ++ digits

namespace Instruction

/-- Replaces the jump target, if there is one. -/
def mapTarget {α β ε : Type} (f : α → Except ε β) : Instruction α → Except ε (Instruction β)
  | pushInt value => .ok (pushInt value)
  | pushFloat value => .ok (pushFloat value)
  | load slot => .ok (load slot)
  | store slot => .ok (store slot)
  | dup => .ok dup
  | pop => .ok pop
  | arithmetic op => .ok (arithmetic op)
  | neg => .ok neg
  | jump target => (f target).map jump
  | jumpIfZero target => (f target).map jumpIfZero
  | jumpIf comparison target => (f target).map (jumpIf comparison)
  | call callee arity => .ok (call callee arity)
  | print => .ok print
  | return_ => .ok return_
  | returnVoid => .ok returnVoid

def text : Instruction Nat → String
  | pushInt value => s!"push {value.toInt}"
  | pushFloat value => "pushf " ++ Binary32.text .exact value
  | load slot => s!"load {slot}"
  | store slot => s!"store {slot}"
  | dup => "dup"
  | pop => "pop"
  | arithmetic op => op.mnemonic
  | neg => "neg"
  | jump target => "jump " ++ offsetText target
  | jumpIfZero target => "jz " ++ offsetText target
  | jumpIf comparison target => s!"if_{comparison.mnemonic} " ++ offsetText target
  | call callee arity => s!"call {callee} {arity}"
  | print => "print"
  | return_ => "ret"
  | returnVoid => "ret_void"

end Instruction

end ImpStack

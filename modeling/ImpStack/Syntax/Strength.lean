import ImpStack.Syntax.Operator
import ImpStack.Token.Kind

/-!
How tightly operators bind. An operator binds its operands before any operator of lesser strength
does. The strengths are the levels of the grammar of SPEC_FULL, section 4.2, from `assignment` to
`primary`; `tighter` is the `next` of a precedence.
-/
namespace ImpStack

inductive Strength where
  /-- What is no operator. -/
  | none
  | assignment | equality | ordering | sum | product | negation | call | primary
  deriving DecidableEq, Repr

namespace Strength

def rank : Strength → Nat
  | none => 0
  | assignment => 1
  | equality => 2
  | ordering => 3
  | sum => 4
  | product => 5
  | negation => 6
  | call => 7
  | primary => 8

instance : LE Strength := ⟨fun s t => s.rank ≤ t.rank⟩

instance (s t : Strength) : Decidable (s ≤ t) := inferInstanceAs (Decidable (s.rank ≤ t.rank))

/-- The next tighter strength; `primary` is the tightest. -/
def tighter : Strength → Strength
  | none => assignment
  | assignment => equality
  | equality => ordering
  | ordering => sum
  | sum => product
  | product => negation
  | negation => call
  | call => primary
  | primary => primary

end Strength

/-- What a token between two operands, or behind a callee, stands for. -/
inductive Operator where
  | assign
  | call
  | binary (op : BinaryOp)
  deriving DecidableEq, Repr

namespace Operator

def strength : Operator → Strength
  | assign => .assignment
  | call => .call
  | binary (.comparison .eq) => .equality
  | binary (.comparison .ne) => .equality
  | binary (.comparison _) => .ordering
  | binary (.arithmetic .add) => .sum
  | binary (.arithmetic .sub) => .sum
  | binary (.arithmetic _) => .product

end Operator

namespace Symbol

def operator? : Symbol → Option Operator
  | plus => some (.binary (.arithmetic .add))
  | minus => some (.binary (.arithmetic .sub))
  | times => some (.binary (.arithmetic .mul))
  | divide => some (.binary (.arithmetic .div))
  | modulo => some (.binary (.arithmetic .rem))
  | assign => some .assign
  | equal => some (.binary (.comparison .eq))
  | notEqual => some (.binary (.comparison .ne))
  | less => some (.binary (.comparison .lt))
  | greater => some (.binary (.comparison .gt))
  | lessEqual => some (.binary (.comparison .le))
  | greaterEqual => some (.binary (.comparison .ge))
  | leftParen => some .call
  | rightParen | leftBrace | rightBrace | semicolon | comma => none

end Symbol

namespace Kind

def operator? : Kind → Option Operator
  | .symbol sign => sign.operator?
  | _ => none

/-- The strength with which a token of this kind binds what stands before it. -/
def strength (kind : Kind) : Strength :=
  match kind.operator? with
  | some op => op.strength
  | none => .none

end Kind

end ImpStack

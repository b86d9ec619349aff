import ImpStack.Source.Position
import ImpStack.Syntax.Operator

/-!
Programs as trees. Every expression and every statement carries the place of the first token of its
phrase. Embeds the nodes of SPEC_FULL, section 3, in which a node is paired with its position.
-/
namespace ImpStack

inductive Expr where
  | int (position : Position) (value : Int32)
  | float (position : Position) (value : Float32)
  | var (position : Position) (name : String)
  | binary (position : Position) (op : BinaryOp) (left right : Expr)
  | negate (position : Position) (operand : Expr)
  | call (position : Position) (callee : String) (args : List Expr)
  /-- An assignment inside a larger expression; its value is the one assigned. -/
  | assign (position : Position) (target : String) (value : Expr)
  deriving Repr

namespace Expr

def position : Expr → Position
  | .int position _ => position
  | .float position _ => position
  | .var position _ => position
  | .binary position .. => position
  | .negate position _ => position
  | .call position .. => position
  | .assign position .. => position

/-- The same expression at another place, as for one in parentheses. -/
def moveTo (position : Position) : Expr → Expr
  | .int _ value => .int position value
  | .float _ value => .float position value
  | .var _ name => .var position name
  | .binary _ op left right => .binary position op left right
  | .negate _ operand => .negate position operand
  | .call _ callee args => .call position callee args
  | .assign _ target value => .assign position target value

end Expr

inductive Stmt where
  | assign (position : Position) (target : String) (value : Expr)
  /-- An expression whose value is dropped. -/
  | discard (position : Position) (value : Expr)
  | print (position : Position) (value : Expr)
  | branch (position : Position) (condition : Expr) (body : List Stmt)
      (alternative : Option (List Stmt))
  | loop (position : Position) (condition : Expr) (body : List Stmt)
  | return_ (position : Position) (value : Option Expr)
  | block (position : Position) (body : List Stmt)
  deriving Repr

abbrev Block := List Stmt

namespace Stmt

def position : Stmt → Position
  | .assign position .. => position
  | .discard position _ => position
  | .print position _ => position
  | .branch position .. => position
  | .loop position .. => position
  | .return_ position _ => position
  | .block position _ => position

/-- The statement as the body of a branch or a loop; a block is taken as it is. -/
def asBlock : Stmt → Block
  | .block _ body => body
  | statement => [statement]

end Stmt

structure Param where
  name : String
  position : Position
  deriving DecidableEq, Repr

structure Function where
  name : String
  params : List Param
  body : Block
  /-- The place of the word `function`. -/
  position : Position
  deriving Repr

namespace Function

def arity (function : Function) : Nat := function.params.length

end Function

/-- The functions in the order in which they stand in the text. -/
structure Program where
  functions : List Function
  deriving Repr

end ImpStack

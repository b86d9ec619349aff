/-!
The operators of expressions, with their spellings in the language and their names in listings
(SPEC_FULL, sections 3 and 4.5). Embeds `symbol` and `is_comparison` of the operators and `mnemonic`
and `negate` of the comparisons that code branches on.
-/
namespace ImpStack

inductive Arithmetic where
  | add | sub | mul | div | rem
  deriving DecidableEq, Repr

namespace Arithmetic

def all : List Arithmetic := [add, sub, mul, div, rem]

def spelling : Arithmetic → String
  | add => "+"
  | sub => "-"
  | mul => "*"
  | div => "/"
  | rem => "%"

def mnemonic : Arithmetic → String
  | add => "add"
  | sub => "sub"
  | mul => "mul"
  | div => "div"
  | rem => "rem"

end Arithmetic

inductive Comparison where
  | eq | ne | lt | le | gt | ge
  deriving DecidableEq, Repr

namespace Comparison

def all : List Comparison := [eq, ne, lt, le, gt, ge]

def spelling : Comparison → String
  | eq => "=="
  | ne => "!="
  | lt => "<"
  | le => "<="
  | gt => ">"
  | ge => ">="

def mnemonic : Comparison → String
  | eq => "eq"
  | ne => "ne"
  | lt => "lt"
  | le => "le"
  | gt => "gt"
  | ge => "ge"

/-- The comparison that holds of two ordered operands exactly when this one does not. Of operands
without an order it need not hold either. -/
def negate : Comparison → Comparison
  | eq => ne
  | ne => eq
  | lt => ge
  | le => gt
  | gt => le
  | ge => lt

end Comparison

inductive BinaryOp where
  | arithmetic (op : Arithmetic)
  | comparison (op : Comparison)
  deriving DecidableEq, Repr

namespace BinaryOp

def all : List BinaryOp :=
  Arithmetic.all.map arithmetic ++
    [.comparison .eq, .comparison .ne, .comparison .lt, .comparison .gt, .comparison .le,
     .comparison .ge]

def spelling : BinaryOp → String
  | .arithmetic op => op.spelling
  | .comparison op => op.spelling

def comparison? : BinaryOp → Option Comparison
  | .arithmetic _ => none
  | .comparison op => some op

end BinaryOp

end ImpStack

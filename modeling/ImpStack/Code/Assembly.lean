import ImpStack.Code.Instruction

/-!
Compiled programs and their listings. Embeds the artifact of SPEC_FULL, section 4.5: `Assembly` and
`Routine` are its module and its functions, `listing` the text that is written to a file, `routine?`
the search by `function`.
-/
namespace ImpStack

/-- The code of one function. -/
structure Routine where
  name : String
  arity : Nat
  /-- How many slots it uses; the parameters come first. -/
  locals : Nat
  /-- Whether it is the entry function, which has no value unless it returns one. -/
  void : Bool
  code : Array (Instruction Nat)
  deriving DecidableEq, Repr

/-- The routines of a program, in the order of its functions. -/
structure Assembly where
  name : String
  routines : List Routine
  deriving DecidableEq, Repr

namespace Routine

/-- The types of the parameters, in parentheses, and of the value: `I` is a number, `V` none. -/
def descriptor (routine : Routine) : String :=
  "(" ++ "".pushn 'I' routine.arity ++ ")" ++ if routine.void then "V" else "I"

/-- An instruction on a line of its own, behind its offset. -/
def line (instruction : Instruction Nat) (offset : Nat) : String :=
  "  " ++ offsetText offset ++ "  " ++ instruction.text ++ "\n"

def listing (routine : Routine) : String :=
  s!".function {routine.name} {routine.descriptor} locals={routine.locals}\n" ++
    String.join (routine.code.toList.zipIdx.map fun (instruction, offset) =>
      line instruction offset) ++
    ".end\n"

end Routine

namespace Assembly

def listing (assembly : Assembly) : String :=
  s!".module {assembly.name}\n" ++ String.join (assembly.routines.map Routine.listing)

/-- The first routine of a name. -/
def routine? (assembly : Assembly) (name : String) : Option Routine :=
  assembly.routines.find? (·.name = name)

/-- The routine that a call of a name reaches: the last one of that name. -/
def dispatch? (assembly : Assembly) (name : String) : Option Routine :=
  assembly.routines.reverse.find? (·.name = name)

end Assembly

end ImpStack

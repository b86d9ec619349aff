import ImpStack.Scope.Stack

/-!
The frames in one row, the global one first and the innermost one last. Only the way in which frames
are left keeps the global one in the row. A declaration and a look at the functions take it for
granted that there is a frame, and have no answer if there is none.

Embeds the stack of frames of SPEC_FULL, section 3, as it is kept: `enter` and `exit` push and pop
at its end, `resolve?` walks it from there, `isFunction?` looks at index 0.
-/
namespace ImpStack

/-- The frames, outermost first. -/
structure FrameRow where
  frames : List Scope
  deriving DecidableEq, Repr

namespace FrameRow

def fresh : FrameRow := ⟨[.empty]⟩

def depth (row : FrameRow) : Nat := row.frames.length

def enter (row : FrameRow) : FrameRow := ⟨row.frames ++ [.empty]⟩

/-- A frame that stands alone is not left. -/
def exit (row : FrameRow) : FrameRow :=
  if 1 < row.depth then ⟨row.frames.dropLast⟩ else row

/-- Whether the name is new to the innermost frame, and the row with the name declared there. -/
def declare? (row : FrameRow) (name : String) : Option (Bool × FrameRow) :=
  row.frames[row.depth - 1]?.map fun scope =>
    match scope.declare? name with
    | some declared => (true, ⟨row.frames.set (row.depth - 1) declared⟩)
    | none => (false, row)

/-- Looks a name up from the innermost frame outwards. -/
def resolve? (row : FrameRow) (name : String) : Option Resolution :=
  row.frames.zipIdx.reverse.findSome? fun entry => (entry.1.get? name).map (.mk entry.2)

def isFunction? (row : FrameRow) (name : String) : Option Bool :=
  row.frames[0]?.map (·.contains name)

/-- Marks a name in the first frame that holds it. -/
def defineFirst (name : String) : List Scope → List Scope
  | [] => []
  | scope :: outer =>
    match scope.define? name with
    | some defined => defined :: outer
    | none => scope :: defineFirst name outer

/-- Marks the innermost declaration of a name as initialized, if there is one. -/
def define (row : FrameRow) (name : String) : FrameRow :=
  ⟨(defineFirst name row.frames.reverse).reverse⟩

end FrameRow

end ImpStack

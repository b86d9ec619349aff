import ImpStack.Code.Instruction

/-!
Labels for jump targets that are not known yet: ids handed out in order and bound to offsets when
the code reaches them (SPEC_FULL, section 4.4; `fresh`, `bind` and `offset` of the labels).
-/
namespace ImpStack

structure Label where
  id : Nat
  deriving DecidableEq, Repr

/-- The labels that have been handed out, in order, each with the offset it is bound to. -/
structure Labels where
  offsets : Array (Option Nat)
  deriving DecidableEq, Repr

namespace Labels

def empty : Labels := ⟨#[]⟩

/-- A new label, not bound yet. -/
def fresh (labels : Labels) : Label × Labels :=
  (⟨labels.offsets.size⟩, ⟨labels.offsets.push none⟩)

/-- Binds a label, anew if it is bound. A label of another table that this one does not reach is
left alone. -/
def bind (labels : Labels) (label : Label) (offset : Nat) : Labels :=
  ⟨labels.offsets.setIfInBounds label.id (some offset)⟩

def offset? (labels : Labels) (label : Label) : Option Nat := labels.offsets[label.id]?.join

/-- Replaces the label of a jump by its offset; fails with a label that is not bound. -/
def resolve (labels : Labels) (instruction : Instruction Label) :
    Except Label (Instruction Nat) :=
  instruction.mapTarget fun label =>
    match labels.offset? label with
    | some offset => .ok offset
    | none => .error label

end Labels

end ImpStack

/-!
Slots for the local names of a function (SPEC_FULL, section 3). The names in the order in which they
are first seen stand for the table, which has no gaps; the table as it is kept is `SlotTable`.
-/
namespace ImpStack

/-- The local names seen so far; the slot of a name is its place in the list. A name keeps its slot
until the end of the function. -/
structure Slots where
  names : List String
  deriving DecidableEq, Repr

namespace Slots

def empty : Slots := ⟨[]⟩

def size (slots : Slots) : Nat := slots.names.length

def slot? (slots : Slots) (name : String) : Option Nat := slots.names.findIdx? (· = name)

/-- The slots with one for `name`, the next free one if it had none. -/
def insert (slots : Slots) (name : String) : Slots :=
  if name ∈ slots.names then slots else ⟨slots.names ++ [name]⟩

/-- The slot of `name` in the slots that `insert` yields. -/
def slotOf (slots : Slots) (name : String) : Nat := slots.names.idxOf name

theorem mem_insert (slots : Slots) (name : String) : name ∈ (slots.insert name).names := by
  unfold insert
  split
  · assumption
  · simp

theorem slotOf_lt (slots : Slots) (name : String) :
    (slots.insert name).slotOf name < (slots.insert name).size :=
  List.idxOf_lt_length_of_mem (slots.mem_insert name)

theorem nodup_insert {slots : Slots} (distinct : slots.names.Nodup) (name : String) :
    (slots.insert name).names.Nodup := by
  unfold insert
  split
  · exact distinct
  · next fresh =>
    refine List.nodup_append.mpr ⟨distinct, by simp, ?_⟩
    intro known member other single
    obtain rfl := List.mem_singleton.mp single
    rintro rfl
    exact fresh member

end Slots

end ImpStack

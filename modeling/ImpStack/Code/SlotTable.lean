/-!
Slots handed out on request (`slot_for`). The table remembers each name with the slot it got; a name
that it does not know gets the number of names so far.
-/
namespace ImpStack

structure SlotTable where
  entries : List (String × Nat)
  deriving DecidableEq, Repr

namespace SlotTable

def empty : SlotTable := ⟨[]⟩

def size (table : SlotTable) : Nat := table.entries.length

def find? (table : SlotTable) (name : String) : Option Nat := table.entries.lookup name

/-- The slot of a name, and the table behind the request. -/
def request (table : SlotTable) (name : String) : Nat × SlotTable :=
  match table.find? name with
  | some slot => (slot, table)
  | none => (table.size, ⟨table.entries ++ [(name, table.size)]⟩)

/-- The table behind requests for several names. -/
def requestAll (table : SlotTable) (names : List String) : SlotTable :=
  names.foldl (fun table name => (table.request name).2) table

end SlotTable

end ImpStack

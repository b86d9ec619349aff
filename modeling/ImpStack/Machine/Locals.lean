import ImpStack.Machine.Value

/-!
The local slots of one call. A slot that has not been written in this call has no value, which is
not the same as zero (SPEC_FULL, section 4.6, `UninitializedSlot`).
-/
namespace ImpStack

/-- The slots with what was written to them last; one without a value has not been written in this
call. -/
structure Locals where
  slots : Array (Option Value)
  deriving DecidableEq, Repr

namespace Locals

/-- The slots at the start of a call: the arguments fill the first ones, and there are at least
`size` of them. -/
def ofArgs (args : List Value) (size : Nat) : Locals :=
  ⟨(args.map some).toArray ++ Array.replicate (size - args.length) none⟩

def get? (locals : Locals) (slot : Nat) : Option Value := locals.slots[slot]?.join

/-- Writes a slot; slots up to it are added where they are missing. -/
def set (locals : Locals) (slot : Nat) (value : Value) : Locals :=
  let missing := Array.replicate (slot + 1 - locals.slots.size) none
  ⟨(locals.slots ++ missing).setIfInBounds slot (some value)⟩

theorem get?_ofArgs (args : List Value) (size slot : Nat) :
    (ofArgs args size).get? slot = args[slot]? := by
  simp only [get?, ofArgs, Array.getElem?_append, List.size_toArray, List.length_map]
  split
  · next inside => simp [inside]
  · next outside =>
    rw [List.getElem?_eq_none (Nat.le_of_not_lt outside), Array.getElem?_replicate]
    split <;> rfl

theorem get?_set_self (locals : Locals) (slot : Nat) (value : Value) :
    (locals.set slot value).get? slot = some value := by
  have inside : slot < locals.slots.size + (slot + 1 - locals.slots.size) := by omega
  simp [get?, set, inside]

theorem get?_set_of_ne (locals : Locals) {slot other : Nat} (different : other ≠ slot)
    (value : Value) : (locals.set slot value).get? other = locals.get? other := by
  simp only [get?, set, Array.getElem?_setIfInBounds_ne (Ne.symm different), Array.getElem?_append]
  split
  · rfl
  · next outside =>
    rw [Array.getElem?_eq_none (Nat.le_of_not_lt outside), Array.getElem?_replicate]
    split <;> rfl

end Locals

end ImpStack

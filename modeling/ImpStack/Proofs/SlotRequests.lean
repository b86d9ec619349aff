import Mathlib.Data.List.Induction
import Mathlib.Data.List.Nodup
import Mathlib.Data.Set.Function
import Mathlib.Order.Interval.Set.Defs
import ImpStack.Code.SlotTable
import ImpStack.Proofs.Slots

/-!
Requests for slots, put to the table of SPEC_FULL, section 3, which gives a new name the number of
names so far. Nothing in the table itself keeps two slots apart or leaves none out; that follows
from how the requests come in: behind any of them the table is that of a list of different names
(`SlotTable.requestAll_empty`), and such a table numbers them (`SlotTable.bijOn_find?_ofSlots`) in
the order of first requests (`Slots.slotOf_insertAll_lt_iff`).
-/
namespace ImpStack

/-- In a numbered list a name is found with the place where it first stands. -/
theorem lookup_zipIdx (names : List String) (name : String) (start : Nat) :
    (names.zipIdx start).lookup name = (names.findIdx? (· = name)).map (start + ·) := by
  induction names generalizing start with
  | nil => rfl
  | cons first rest ih =>
    rw [List.zipIdx_cons, List.lookup_cons, List.findIdx?_cons, ih]
    by_cases same : name = first
    · simp [same]
    · have differs : (name == first) = false := by simp [same]
      simp [differs, Ne.symm same, Function.comp_def, Nat.add_comm, Nat.add_left_comm]

namespace Slots

variable {slots : Slots} {name first second : String} {names : List String} {slot : Nat}

theorem insert_of_mem (known : name ∈ slots.names) : slots.insert name = slots := if_pos known

theorem insert_of_notMem (new : name ∉ slots.names) :
    slots.insert name = ⟨slots.names ++ [name]⟩ := if_neg new

/-- The slot of a new name is the number of names in front of it. -/
theorem slotOf_append_self (new : name ∉ slots.names) :
    slotOf ⟨slots.names ++ [name]⟩ name = slots.size := by
  rw [slotOf, List.idxOf_append_of_notMem new, List.idxOf_cons_self]
  rfl

theorem nodup_insertAll (distinct : slots.names.Nodup) (names : List String) :
    (slots.insertAll names).names.Nodup := by
  induction names generalizing slots with
  | nil => exact distinct
  | cons name names ih => exact ih (nodup_insert distinct name)

/-- Where names are different, a slot belongs to the name at its place. -/
theorem slot?_eq_some_iff (distinct : slots.names.Nodup) :
    slots.slot? name = some slot ↔ slots.names[slot]? = some name := by
  unfold slot?
  rw [List.findIdx?_eq_some_iff_getElem, List.getElem?_eq_some_iff]
  constructor
  · rintro ⟨inside, here, -⟩
    exact ⟨inside, by simpa using here⟩
  · rintro ⟨inside, here⟩
    refine ⟨inside, by simpa using here, fun earlier lt found => ?_⟩
    have same : slots.names[earlier] = slots.names[slot] := by simpa [here] using found
    exact Nat.ne_of_lt lt (distinct.getElem_inj_iff.mp same)

/-- Names that are inserted one after another are ordered by their first insertions. -/
theorem slotOf_insertAll_lt_iff (firstAmong : first ∈ names) (secondAmong : second ∈ names) :
    (empty.insertAll names).slotOf first < (empty.insertAll names).slotOf second ↔
      names.idxOf first < names.idxOf second := by
  -- By induction from the end of the list, where a name gets a slot only if it is new.
  induction names using List.reverseRecOn with
  | nil => cases firstAmong
  | append_singleton names last ih =>
    have held : ∀ name, name ∈ (empty.insertAll names).names ↔ name ∈ names := by
      simp [mem_insertAll_iff, empty]
    have append_eq : empty.insertAll (names ++ [last]) = (empty.insertAll names).insert last :=
      insertAll_append empty names [last]
    rw [append_eq]
    by_cases known : last ∈ names
    · have among : ∀ {name}, name ∈ names ++ [last] → name ∈ names := by
        intro name member
        rcases List.mem_append.mp member with earlier | isLast
        · exact earlier
        · exact List.mem_singleton.mp isLast ▸ known
      rw [insert_of_mem ((held last).mpr known), List.idxOf_append_of_mem (among firstAmong),
        List.idxOf_append_of_mem (among secondAmong)]
      exact ih (among firstAmong) (among secondAmong)
    · -- The last name comes behind all others, in the slots as in the list.
      have new : last ∉ (empty.insertAll names).names := mt (held last).mp known
      rw [insert_of_notMem new]
      have earlier : ∀ {name}, name ∈ names →
          slotOf ⟨(empty.insertAll names).names ++ [last]⟩ name =
              (empty.insertAll names).slotOf name ∧
            (empty.insertAll names).slotOf name < (empty.insertAll names).size ∧
            (names ++ [last]).idxOf name = names.idxOf name ∧
            names.idxOf name < names.length := by
        intro name member
        have stands := (held name).mpr member
        exact ⟨List.idxOf_append_of_mem stands, List.idxOf_lt_length_of_mem stands,
          List.idxOf_append_of_mem member, List.idxOf_lt_length_of_mem member⟩
      have slotOf_last := slotOf_append_self new
      have idxOf_last : (names ++ [last]).idxOf last = names.length := by
        rw [List.idxOf_append_of_notMem known, List.idxOf_cons_self, Nat.add_zero]
      rcases List.mem_append.mp firstAmong with isEarlier | isLast
      · rcases List.mem_append.mp secondAmong with alsoEarlier | alsoLast
        · rw [(earlier isEarlier).1, (earlier alsoEarlier).1, (earlier isEarlier).2.2.1,
            (earlier alsoEarlier).2.2.1]
          exact ih isEarlier alsoEarlier
        · obtain rfl := List.mem_singleton.mp alsoLast
          have := earlier isEarlier
          omega
      · obtain rfl := List.mem_singleton.mp isLast
        rcases List.mem_append.mp secondAmong with alsoEarlier | alsoLast
        · have := earlier alsoEarlier
          omega
        · obtain rfl := List.mem_singleton.mp alsoLast
          omega

end Slots

namespace SlotTable

variable {table middle last : SlotTable} {slots : Slots} {name : String}

/-- The table that gives each name its place among the slots. -/
def ofSlots (slots : Slots) : SlotTable := ⟨slots.names.zipIdx⟩

theorem find?_ofSlots (slots : Slots) (name : String) :
    (ofSlots slots).find? name = slots.slot? name := by
  simp [find?, ofSlots, lookup_zipIdx, Slots.slot?]

theorem size_ofSlots (slots : Slots) : (ofSlots slots).size = slots.size := by
  simp [size, ofSlots, Slots.size]

/-- A request answers with the place of the name and adds it if it is new. -/
theorem request_ofSlots (slots : Slots) (name : String) :
    (ofSlots slots).request name =
      ((slots.insert name).slotOf name, ofSlots (slots.insert name)) := by
  unfold request
  rw [find?_ofSlots]
  cases found : slots.slot? name with
  | some slot =>
    obtain ⟨known, slotOf_eq⟩ := Slots.slot?_eq_some found
    rw [Slots.insert_of_mem known, slotOf_eq]
  | none =>
    have new := (slots.slot?_eq_none_iff name).mp found
    rw [Slots.insert_of_notMem new, Slots.slotOf_append_self new, size_ofSlots]
    simp [ofSlots, Slots.size, List.zipIdx_append]

theorem requestAll_ofSlots (slots : Slots) (names : List String) :
    (ofSlots slots).requestAll names = ofSlots (slots.insertAll names) := by
  induction names generalizing slots with
  | nil => rfl
  | cons name names ih =>
    show ((ofSlots slots).request name).2.requestAll names = _
    rw [request_ofSlots]
    exact ih (slots.insert name)

/-- From the empty table on, requests lead to the table of the requested names. -/
theorem requestAll_empty (names : List String) :
    empty.requestAll names = ofSlots (Slots.empty.insertAll names) :=
  requestAll_ofSlots .empty names

/-- The slots that have been given stay as they are. -/
def Below (before after : SlotTable) : Prop :=
  ∀ name slot, before.find? name = some slot → after.find? name = some slot

/-- A longer list of names has a table with the same slots for the old ones. -/
theorem below_ofSlots {before after : Slots} (below : before.Below after) :
    (ofSlots before).Below (ofSlots after) := by
  intro name slot found
  obtain ⟨later, names_eq⟩ := below
  rw [find?_ofSlots, Slots.slot?] at found ⊢
  rw [← names_eq, List.findIdx?_append, found]
  rfl

/-- Slots that belong to different names number the names. -/
theorem bijOn_find?_ofSlots (distinct : slots.names.Nodup) :
    Set.BijOn (ofSlots slots).find? {name | name ∈ slots.names}
      (some '' Set.Iio (ofSlots slots).size) := by
  rw [size_ofSlots]
  refine ⟨fun name known => ?_, fun first firstKnown second _ same => ?_, ?_⟩
  · rw [find?_ofSlots]
    cases found : slots.slot? name with
    | none => exact absurd known ((slots.slot?_eq_none_iff name).mp found)
    | some slot =>
      have here := (Slots.slot?_eq_some_iff distinct).mp found
      exact ⟨slot, (List.getElem?_eq_some_iff.mp here).1, rfl⟩
  · rw [find?_ofSlots, find?_ofSlots] at same
    cases found : slots.slot? first with
    | none => exact absurd firstKnown ((slots.slot?_eq_none_iff first).mp found)
    | some slot =>
      have firstHere := (Slots.slot?_eq_some_iff distinct).mp found
      have secondHere := (Slots.slot?_eq_some_iff distinct).mp (same ▸ found)
      exact Option.some.inj (firstHere.symm.trans secondHere)
  · rintro _ ⟨slot, inside, rfl⟩
    have here : slots.names[slot]? = some slots.names[slot] := List.getElem?_eq_getElem inside
    refine ⟨slots.names[slot], List.getElem_mem inside, ?_⟩
    rw [find?_ofSlots]
    exact (Slots.slot?_eq_some_iff distinct).mpr here

end SlotTable

end ImpStack

import Mathlib.Data.List.Forall2
import ImpStack.Proofs.Generation
import ImpStack.Proofs.SlotRequests
import ImpStack.Proofs.Visits

/-!
The slot table of a finished function numbers its local names (SPEC_FULL, section 3). The loads and
stores of the code are what a table answers when the names in the body are put to it one after
another: a name that is read must be known, a target gets a slot once its assignment is complete
(`Lowering.stmt_serves`). `SlotTable.LaysOut` collects what follows of the table and the code, and
`Generator.slots_bijective` says it of every program that the generator accepts.
-/
namespace ImpStack

/-- A local variable is read or written, by its name in a tree and by its slot in code. -/
inductive Access (Place : Type) where
  | load (place : Place)
  | store (place : Place)
  deriving DecidableEq, Repr

namespace Access

variable {Place : Type}

def place : Access Place → Place
  | load place => place
  | store place => place

def stored? : Access Place → Option Place
  | load _ => none
  | store place => some place

end Access

/-- The access of a use. A callee is no local name. -/
def Use.access? : Use → Option (Access String)
  | .read name _ _ => some (.load name)
  | .assigned target => some (.store target)
  | .call .. => none

/-- The access of an instruction, by slot. -/
def Instruction.access? {Target : Type} : Instruction Target → Option (Access Nat)
  | .load slot => some (.load slot)
  | .store slot => some (.store slot)
  | _ => none

namespace Function

variable (function : Function)

/-- The accesses to local names in the body, from left to right and from the inside out. -/
def accesses : List (Access String) := function.visits.filterMap (·.use.access?)

/-- The targets in the order in which their assignments are complete. -/
def storedNames : List String := function.accesses.filterMap Access.stored?

/-- Parameters and targets are the names that a slot is made for. -/
def HasLocal (name : String) : Prop :=
  name ∈ function.paramNames ∨ name ∈ function.storedNames

end Function

/-- The loads and stores of the code, from the first instruction to the last. -/
def Routine.accesses (routine : Routine) : List (Access Nat) :=
  routine.code.toList.filterMap Instruction.access?

/-! ### Serving accesses from a table -/

namespace SlotTable

/-- One access by slot, and the table behind it. An unknown name cannot be read. -/
def access (table : SlotTable) : Access String → Option (Access Nat × SlotTable)
  | .load name => (table.find? name).map fun slot => (.load slot, table)
  | .store name => some (.store (table.request name).1, (table.request name).2)

/-- Accesses one after another. -/
def serve (table : SlotTable) : List (Access String) → Option (List (Access Nat) × SlotTable)
  | [] => some ([], table)
  | access :: rest =>
    (table.access access).bind fun first =>
      (first.2.serve rest).map fun behind => (first.1 :: behind.1, behind.2)

variable {table middle last : SlotTable} {slots : Slots} {access : Access String}
  {accesses first second : List (Access String)} {slot : Access Nat}
  {served front back : List (Access Nat)}

theorem serve_cons (head : table.access access = some (slot, middle))
    (tail : middle.serve accesses = some (served, last)) :
    table.serve (access :: accesses) = some (slot :: served, last) := by
  rw [serve, head, Option.bind_some, tail]
  rfl

theorem serve_cons_ok (ok : table.serve (access :: accesses) = some (served, last)) :
    ∃ slot middle behind, table.access access = some (slot, middle) ∧
      middle.serve accesses = some (behind, last) ∧ served = slot :: behind := by
  rw [serve] at ok
  obtain ⟨⟨slot, middle⟩, head, ok⟩ := Option.bind_eq_some_iff.mp ok
  obtain ⟨⟨behind, after⟩, tail, same⟩ := Option.map_eq_some_iff.mp ok
  obtain ⟨rfl, rfl⟩ := Prod.mk.inj same
  exact ⟨slot, middle, behind, head, tail, rfl⟩

/-- Accesses that follow others find the table that those have left. -/
theorem serve_append (left : table.serve first = some (front, middle))
    (right : middle.serve second = some (back, last)) :
    table.serve (first ++ second) = some (front ++ back, last) := by
  induction first generalizing table front with
  | nil =>
    obtain ⟨rfl, rfl⟩ := Prod.mk.inj (Option.some.inj left)
    exact right
  | cons access first ih =>
    obtain ⟨slot, next, behind, head, tail, rfl⟩ := serve_cons_ok left
    exact serve_cons head (ih tail)

/-- What serves accesses in a row serves the front of them and then the rest. -/
theorem serve_append_ok (ok : table.serve (first ++ second) = some (served, last)) :
    ∃ front middle back, table.serve first = some (front, middle) ∧
      middle.serve second = some (back, last) ∧ served = front ++ back := by
  induction first generalizing table served with
  | nil => exact ⟨[], table, served, rfl, ok, rfl⟩
  | cons access first ih =>
    obtain ⟨slot, next, behind, head, tail, rfl⟩ := serve_cons_ok ok
    obtain ⟨front, middle, back, left, right, rfl⟩ := ih tail
    exact ⟨slot :: front, middle, back, serve_cons head left, right, rfl⟩

/-- A read changes no slot, a store adds its target. -/
theorem access_ofSlots (ok : (ofSlots slots).access access = some (slot, last)) :
    last = ofSlots (slots.insertAll access.stored?.toList) ∧ slot.place < last.size := by
  cases access with
  | load name =>
    obtain ⟨found, known, same⟩ := Option.map_eq_some_iff.mp ok
    obtain ⟨rfl, rfl⟩ := Prod.mk.inj same
    rw [find?_ofSlots] at known
    refine ⟨rfl, ?_⟩
    obtain ⟨member, rfl⟩ := Slots.slot?_eq_some known
    rw [size_ofSlots]
    exact List.idxOf_lt_length_of_mem member
  | store name =>
    rw [SlotTable.access, request_ofSlots] at ok
    obtain ⟨rfl, rfl⟩ := Prod.mk.inj (Option.some.inj ok)
    refine ⟨rfl, ?_⟩
    rw [size_ofSlots]
    exact slots.slotOf_lt name

/-- What a table knows behind accesses are the stored names besides those it knew, and no access has
gone beyond it. -/
theorem serve_ofSlots (ok : (ofSlots slots).serve accesses = some (served, last)) :
    last = ofSlots (slots.insertAll (accesses.filterMap Access.stored?)) ∧
      ∀ slot ∈ served, slot.place < last.size := by
  induction accesses generalizing slots served with
  | nil =>
    obtain ⟨rfl, rfl⟩ := Prod.mk.inj (Option.some.inj ok)
    exact ⟨rfl, by simp⟩
  | cons access accesses ih =>
    obtain ⟨slot, middle, behind, head, tail, rfl⟩ := serve_cons_ok ok
    obtain ⟨rfl, within⟩ := access_ofSlots head
    obtain ⟨rfl, behindWithin⟩ := ih tail
    constructor
    · rw [← Slots.insertAll_append]
      cases access <;> rfl
    · rw [size_ofSlots] at within behindWithin ⊢
      have grown := (Slots.below_insertAll (slots.insertAll access.stored?.toList)
        (accesses.filterMap Access.stored?)).length_le
      intro slot member
      rcases List.mem_cons.mp member with rfl | later
      · exact Nat.lt_of_lt_of_le within grown
      · exact behindWithin slot later

end SlotTable

/-! ### The code of a phrase serves its uses -/

namespace Lowering

/-- The loads and stores of the code are the accesses among the uses, served by the slots so far. -/
def Serves (slots : Slots) (uses : List Use) (code : Code) (after : Slots) : Prop :=
  (SlotTable.ofSlots slots).serve (uses.filterMap Use.access?) =
    some (code.filterMap Instruction.access?, SlotTable.ofSlots after)

namespace Serves

variable {slots middle after : Slots} {uses first second : List Use} {code front back : Code}

theorem nothing (without : code.filterMap Instruction.access? = []) :
    Serves slots [] code slots := by
  unfold Serves
  rw [without]
  rfl

theorem trans (left : Serves slots first front middle) (right : Serves middle second back after) :
    Serves slots (first ++ second) (front ++ back) after := by
  unfold Serves
  rw [List.filterMap_append, List.filterMap_append]
  exact SlotTable.serve_append left right

/-- Instructions behind that access nothing. -/
theorem append (serves : Serves slots uses code after)
    (without : back.filterMap Instruction.access? = []) :
    Serves slots uses (code ++ back) after := by
  rw [← List.append_nil uses]
  exact serves.trans (nothing without)

/-- An instruction in between that accesses nothing. -/
theorem through {instruction : Instruction Nat} (left : Serves slots first front middle)
    (without : instruction.access? = none) (right : Serves middle second back after) :
    Serves slots (first ++ second) (front ++ instruction :: back) after := by
  have alone : [instruction].filterMap Instruction.access? = [] := by simp [without]
  exact left.trans ((nothing alone).trans right)

/-- The name of a callee is no local name. -/
theorem call (callee : String) (count : Nat) (position : Position)
    (serves : Serves slots uses code after) :
    Serves slots (.call callee count position :: uses) (code ++ [.call callee count]) after := by
  show Serves slots uses (code ++ [.call callee count]) after
  exact serves.append rfl

/-- The name that is read has a slot already. -/
theorem load {name : String} {slot : Nat} (known : slots.slot? name = some slot)
    (position : Position) (inside : List String) :
    Serves slots [.read name position inside] [.load slot] slots := by
  have found : (SlotTable.ofSlots slots).access (.load name) =
      some (.load slot, SlotTable.ofSlots slots) := by
    rw [SlotTable.access, SlotTable.find?_ofSlots, known]
    rfl
  exact SlotTable.serve_cons found rfl

/-- The target of an assignment gets its slot with the store, behind the right side. -/
theorem store (slots : Slots) (target : String) :
    Serves slots [.assigned target] [.store ((slots.insert target).slotOf target)]
      (slots.insert target) := by
  have given : (SlotTable.ofSlots slots).access (.store target) =
      some (.store ((slots.insert target).slotOf target),
        SlotTable.ofSlots (slots.insert target)) := by
    rw [SlotTable.access, SlotTable.request_ofSlots]
  exact SlotTable.serve_cons given rfl

end Serves

/-- Operators work on operands alone, also where they jump. -/
theorem operatorCode_access (start : Nat) (op : BinaryOp) :
    (operatorCode start op).filterMap Instruction.access? = [] := by
  cases op <;> rfl

theorem jump_access (jump : Test) (target : Nat) : (jump.jump target).access? = none := by
  cases jump <;> rfl

theorem defaultReturn_access (void : Bool) :
    (defaultReturn void).filterMap Instruction.access? = [] := by
  cases void <;> rfl

variable {arities : Arities} {void : Bool}

mutual

/-- The operands of an expression are accessed in the order in which they stand. -/
theorem expr_serves (e : Expr) (inside : List String) {start : Nat} {slots : Slots}
    {lowered : Lowered} (ok : expr arities start slots e = .ok lowered) :
    Serves slots (e.uses inside) lowered.code lowered.slots := by
  cases e with
  | int position value =>
    rw [expr_int_ok ok]
    exact .nothing rfl
  | float position value =>
    rw [expr_float_ok ok]
    exact .nothing rfl
  | var position name =>
    obtain ⟨slot, known, rfl⟩ := expr_var_ok ok
    exact .load known position inside
  | binary position op left right =>
    obtain ⟨l, r, left_ok, right_ok, rfl⟩ := expr_binary_ok ok
    exact (expr_serves left inside left_ok).trans
      ((expr_serves right inside right_ok).append (operatorCode_access _ op))
  | negate position operand =>
    obtain ⟨o, operand_ok, rfl⟩ := expr_negate_ok ok
    exact (expr_serves operand inside operand_ok).append rfl
  | call position callee args =>
    obtain ⟨_, a, args_ok, rfl⟩ := expr_call_ok ok
    exact .call callee args.length position (exprs_serves args inside args_ok)
  | assign position target value =>
    obtain ⟨v, value_ok, rfl⟩ := expr_assign_ok ok
    exact (expr_serves value (target :: inside) value_ok).through rfl (.store v.slots target)
termination_by structural e

theorem exprs_serves (es : List Expr) (inside : List String) {start : Nat} {slots : Slots}
    {lowered : Lowered} (ok : exprs arities start slots es = .ok lowered) :
    Serves slots (Expr.usesOfAll inside es) lowered.code lowered.slots := by
  cases es with
  | nil =>
    rw [exprs_nil_ok ok]
    exact .nothing rfl
  | cons first rest =>
    obtain ⟨f, r, first_ok, rest_ok, rfl⟩ := exprs_cons_ok ok
    exact (expr_serves first inside first_ok).trans (exprs_serves rest inside rest_ok)
termination_by structural es

end

theorem condition_serves {start : Nat} {slots : Slots} {lowered : Lowered} {test : Expr}
    {jump : Test} (inside : List String)
    (ok : condition arities start slots test = .ok (lowered, jump)) :
    Serves slots (test.uses inside) lowered.code lowered.slots := by
  obtain ⟨position, comparison, left, right, l, r, rfl, left_ok, right_ok, rfl, _⟩ |
    ⟨_, value_ok, _⟩ := condition_ok ok
  · exact (expr_serves left inside left_ok).trans (expr_serves right inside right_ok)
  · exact expr_serves test inside value_ok

theorem map_use_visits (e : Expr) (block : BlockPath) (inside : List String) :
    (e.visits block inside).map Visit.use = e.uses inside := by
  simp [Expr.visits, Function.comp_def]

mutual

/-- The blocks of a statement are served one behind the other as they stand in the code, whether or
not a run comes to them. -/
theorem stmt_serves (statement : Stmt) (block : BlockPath) (index : Nat) {start : Nat}
    {slots : Slots} {lowered : Lowered}
    (ok : stmt arities void start slots statement = .ok lowered) :
    Serves slots ((statement.visits block index).map Visit.use) lowered.code lowered.slots := by
  -- Jumps access no slot, so the requests of a statement are those of its parts one after the
  -- other.
  cases statement with
  | assign position target value =>
    obtain ⟨v, value_ok, rfl⟩ := stmt_assign_ok ok
    rw [Stmt.visits, List.map_append, map_use_visits]
    exact (expr_serves value [target] value_ok).trans (.store v.slots target)
  | discard position value =>
    obtain ⟨v, value_ok, rfl⟩ := stmt_discard_ok ok
    rw [Stmt.visits, map_use_visits]
    exact (expr_serves value [] value_ok).append rfl
  | print position value =>
    obtain ⟨v, value_ok, rfl⟩ := stmt_print_ok ok
    rw [Stmt.visits, map_use_visits]
    exact (expr_serves value [] value_ok).append rfl
  | branch position test body alternative =>
    cases alternative with
    | none =>
      obtain ⟨t, jump, b, test_ok, body_ok, rfl⟩ := stmt_if_ok ok
      rw [Stmt.visits, List.map_append, map_use_visits]
      exact ((condition_serves [] test_ok).through (jump_access jump _)
        (stmts_serves body _ 0 body_ok)).append rfl
    | some alternative =>
      obtain ⟨t, jump, b, a, test_ok, body_ok, alternative_ok, rfl⟩ := stmt_ifElse_ok ok
      rw [Stmt.visits, List.map_append, List.map_append, map_use_visits, ← List.append_assoc]
      exact ((condition_serves [] test_ok).through (jump_access jump _)
        (stmts_serves body _ 0 body_ok)).through rfl (stmts_serves alternative _ 0 alternative_ok)
  | loop position test body =>
    obtain ⟨t, jump, b, test_ok, body_ok, rfl⟩ := stmt_loop_ok ok
    rw [Stmt.visits, List.map_append, map_use_visits]
    exact ((condition_serves [] test_ok).through (jump_access jump _)
      (stmts_serves body _ 0 body_ok)).append rfl
  | return_ position value =>
    cases value with
    | none =>
      rw [stmt_returnNone_ok ok]
      exact .nothing (defaultReturn_access void)
    | some value =>
      obtain ⟨v, value_ok, rfl⟩ := stmt_return_ok ok
      rw [Stmt.visits, map_use_visits]
      exact (expr_serves value [] value_ok).append rfl
  | block position body => exact stmts_serves body _ 0 (stmt_block_ok ok)
termination_by structural statement

theorem stmts_serves (body : List Stmt) (block : BlockPath) (index : Nat) {start : Nat}
    {slots : Slots} {lowered : Lowered}
    (ok : stmts arities void start slots body = .ok lowered) :
    Serves slots ((Stmt.visitsOfAll block index body).map Visit.use) lowered.code
      lowered.slots := by
  cases body with
  | nil =>
    rw [stmts_nil_ok ok]
    exact .nothing rfl
  | cons first rest =>
    obtain ⟨f, r, first_ok, rest_ok, rfl⟩ := stmts_cons_ok ok
    rw [Stmt.visitsOfAll, List.map_append]
    exact (stmt_serves first block index first_ok).trans
      (stmts_serves rest block (index + 1) rest_ok)
termination_by structural body

end

end Lowering

/-! ### The table of a finished function -/

/-- The table numbers the local names of a function, and its code keeps to that. -/
structure SlotTable.LaysOut (table : SlotTable) (function : Function) (routine : Routine) :
    Prop where
  /-- The parameters ask first. From then on the code is what the table answers to the body. -/
  served : (SlotTable.empty.requestAll function.paramNames).serve function.accesses =
    some (routine.accesses, table)
  bijective : Set.BijOn table.find? {name | function.HasLocal name}
    (some '' Set.Iio routine.locals)
  unknown_iff : ∀ name, table.find? name = none ↔ ¬ function.HasLocal name
  param : function.paramNames.Nodup → ∀ i name, function.paramNames[i]? = some name →
    table.find? name = some i
  params_first : ∀ param ∈ function.paramNames, ∀ other ∉ function.paramNames, ∀ slot later,
    table.find? param = some slot → table.find? other = some later → slot < later
  /-- The other names are ordered by the first of their assignments. -/
  first_assigned : ∀ first ∉ function.paramNames, ∀ second ∉ function.paramNames,
    ∀ slot other, table.find? first = some slot → table.find? second = some other →
    (slot < other ↔ function.storedNames.idxOf first < function.storedNames.idxOf second)
  /-- The slots that some of the parameters have been given stay. -/
  kept : ∀ asked waiting, function.paramNames = asked ++ waiting →
    (SlotTable.empty.requestAll asked).Below table
  /-- So do those that have been given at any time in the body. -/
  kept_in_body : ∀ passed waiting, function.accesses = passed ++ waiting →
    ∃ slots middle, (SlotTable.empty.requestAll function.paramNames).serve passed =
      some (slots, middle) ∧ middle.Below table
  within : ∀ slot, .load slot ∈ routine.code ∨ .store slot ∈ routine.code →
    slot < routine.locals

namespace Function

variable {function : Function} {name first second : String} {slot other : Nat}

/-- The slots that the parameters and then the assignments ask for. -/
def localSlots (function : Function) : Slots :=
  .insertAll .empty (function.paramNames ++ function.storedNames)

theorem nodup_localSlots (function : Function) : function.localSlots.names.Nodup :=
  Slots.nodup_insertAll List.nodup_nil _

/-- The slots are those of the parameters and targets. -/
theorem mem_localSlots_iff : name ∈ function.localSlots.names ↔ function.HasLocal name := by
  simp [localSlots, Slots.mem_insertAll_iff, Slots.empty, HasLocal]

/-- The order of slots is that of first requests. -/
theorem slot?_localSlots_lt_iff (firstAt : function.localSlots.slot? first = some slot)
    (secondAt : function.localSlots.slot? second = some other) :
    slot < other ↔ (function.paramNames ++ function.storedNames).idxOf first <
      (function.paramNames ++ function.storedNames).idxOf second := by
  obtain ⟨firstKnown, rfl⟩ := Slots.slot?_eq_some firstAt
  obtain ⟨secondKnown, rfl⟩ := Slots.slot?_eq_some secondAt
  apply Slots.slotOf_insertAll_lt_iff
  · exact List.mem_append.mpr (mem_localSlots_iff.mp firstKnown)
  · exact List.mem_append.mpr (mem_localSlots_iff.mp secondKnown)

/-- The parameters have the first slots, each the one of its place. -/
theorem slot?_param (distinct : function.paramNames.Nodup)
    (param : function.paramNames[slot]? = some name) :
    function.localSlots.slot? name = some slot := by
  have params : Slots.empty.insertAll function.paramNames = ⟨function.paramNames⟩ :=
    Slots.insertAll_of_nodup distinct
  rw [Slots.slot?_eq_some_iff function.nodup_localSlots, localSlots, Slots.insertAll_append, params]
  obtain ⟨later, names_eq⟩ := Slots.below_insertAll ⟨function.paramNames⟩ function.storedNames
  rw [← names_eq]
  exact (List.getElem?_append_left (List.getElem?_eq_some_iff.mp param).1).trans param

theorem slot_lt_of_param (param : first ∈ function.paramNames)
    (noParam : second ∉ function.paramNames)
    (firstAt : function.localSlots.slot? first = some slot)
    (secondAt : function.localSlots.slot? second = some other) : slot < other := by
  rw [slot?_localSlots_lt_iff firstAt secondAt, List.idxOf_append_of_mem param,
    List.idxOf_append_of_notMem noParam]
  exact Nat.lt_of_lt_of_le (List.idxOf_lt_length_of_mem param) (Nat.le_add_right _ _)

/-- Among the other names the first of their assignments decide. -/
theorem slot_lt_iff_of_noParam (firstNoParam : first ∉ function.paramNames)
    (secondNoParam : second ∉ function.paramNames)
    (firstAt : function.localSlots.slot? first = some slot)
    (secondAt : function.localSlots.slot? second = some other) :
    slot < other ↔ function.storedNames.idxOf first < function.storedNames.idxOf second := by
  rw [slot?_localSlots_lt_iff firstAt secondAt, List.idxOf_append_of_notMem firstNoParam,
    List.idxOf_append_of_notMem secondNoParam, Nat.add_lt_add_iff_left]

end Function

namespace SlotTable

variable {table : SlotTable} {function : Function} {routine : Routine}

/-- Each load and store is among the accesses. -/
theorem exists_access {slot : Nat}
    (used : .load slot ∈ routine.code ∨ .store slot ∈ routine.code) :
    ∃ access ∈ routine.accesses, access.place = slot := by
  rcases used with load | store
  · exact ⟨.load slot, List.mem_filterMap.mpr ⟨_, Array.mem_toList_iff.mpr load, rfl⟩, rfl⟩
  · exact ⟨.store slot, List.mem_filterMap.mpr ⟨_, Array.mem_toList_iff.mpr store, rfl⟩, rfl⟩

/-- All of the layout follows from the code being served, and from the number of slots. -/
theorem LaysOut.of_served
    (served : (SlotTable.empty.requestAll function.paramNames).serve function.accesses =
      some (routine.accesses, table))
    (locals_eq : routine.locals = table.size) : table.LaysOut function routine := by
  have answered := served
  rw [requestAll_empty] at answered
  -- The table that is left is known in closed form: the slots of the parameters and of what the
  -- body assigns, in order.
  obtain ⟨table_eq, within⟩ := serve_ofSlots answered
  obtain rfl : table = ofSlots function.localSlots := by
    rw [table_eq, Function.localSlots, Slots.insertAll_append]
    rfl
  constructor
  case served => exact served
  case bijective =>
    rw [locals_eq]
    simpa only [Function.mem_localSlots_iff] using bijOn_find?_ofSlots function.nodup_localSlots
  case unknown_iff =>
    intro name
    rw [find?_ofSlots, Slots.slot?_eq_none_iff, Function.mem_localSlots_iff]
  case param =>
    intro distinct i name param
    rw [find?_ofSlots]
    exact Function.slot?_param distinct param
  case params_first =>
    intro param isParam other noParam slot later paramAt otherAt
    rw [find?_ofSlots] at paramAt otherAt
    exact Function.slot_lt_of_param isParam noParam paramAt otherAt
  case first_assigned =>
    intro first firstNoParam second secondNoParam slot other firstAt secondAt
    rw [find?_ofSlots] at firstAt secondAt
    exact Function.slot_lt_iff_of_noParam firstNoParam secondNoParam firstAt secondAt
  case kept =>
    intro asked waiting split
    rw [requestAll_empty, Function.localSlots, split, List.append_assoc, Slots.insertAll_append]
    exact below_ofSlots (Slots.below_insertAll _ _)
  case kept_in_body =>
    intro passed waiting split
    rw [split] at answered
    obtain ⟨front, middle, back, passes, waits, -⟩ := serve_append_ok answered
    obtain ⟨rfl, -⟩ := serve_ofSlots passes
    refine ⟨front, _, requestAll_empty function.paramNames ▸ passes, ?_⟩
    rw [(serve_ofSlots waits).1]
    exact below_ofSlots (Slots.below_insertAll _ _)
  case within =>
    intro slot used
    obtain ⟨access, among, rfl⟩ := exists_access used
    rw [locals_eq]
    exact within access among

end SlotTable

/-- The code that lowering makes of a function is laid out by the slots behind it. -/
theorem Lowering.routine_laysOut {arities : Arities} {function : Function} {routine : Routine}
    (ok : Lowering.routine arities function = .ok routine) :
    (SlotTable.ofSlots function.slots).LaysOut function routine := by
  obtain ⟨b, body_ok, rfl⟩ := routine_ok ok
  have slots_eq : b.slots = function.slots := routine_slots body_ok
  have serves := (stmts_serves function.body [] 0 body_ok).append
    (defaultReturn_access (isEntry function))
  rw [slots_eq, paramSlots_eq] at serves
  apply SlotTable.LaysOut.of_served
  · rw [SlotTable.requestAll_empty]
    unfold Serves at serves
    rw [List.filterMap_map] at serves
    exact serves
  · rw [SlotTable.size_ofSlots]
    exact congrArg Slots.size slots_eq

namespace Generation

variable {α β : Type} {generation : Generation β} {before after : Generator}

/-- Where the generation succeeds, the slots that names had in front of it are theirs behind it. -/
def KeepsSlots (generation : Generation β) : Prop :=
  ∀ before result after, generation.runOn before = (.ok result, after) →
    ∀ name slot, before.slots.slot? name = some slot → after.slots.slot? name = some slot

/-- A generation that has succeeded did so as its lowering does. -/
theorem Follows.ok_of_run {direct : Except LoweringError α} {post : α → β → Generator → Prop}
    {result : β} (follows : Follows generation before direct post)
    (ran : generation.runOn before = (.ok result, after)) :
    ∃ lowered, direct = .ok lowered ∧ post lowered result after := by
  cases direct with
  | error error =>
    have failed : (generation.runOn before).1 = .error (.lowering error) := follows
    rw [ran] at failed
    cases failed
  | ok lowered =>
    obtain ⟨other, last, alsoRan, holds⟩ := follows
    obtain ⟨same, rfl⟩ := Prod.mk.inj (ran.symm.trans alsoRan)
    obtain rfl := Except.ok.inj same
    exact ⟨lowered, rfl, holds⟩

theorem KeepsSlots.of_below
    (below : ∀ before result after, generation.runOn before = (.ok result, after) →
      before.slots.Below after.slots) : generation.KeepsSlots := by
  intro before result after ran name slot known
  rw [← SlotTable.find?_ofSlots] at known ⊢
  exact SlotTable.below_ofSlots (below before result after ran) name slot known

/-- No expression takes a slot away or moves it. -/
theorem expr_keepsSlots (e : Expr) : (expr e).KeepsSlots := by
  apply KeepsSlots.of_below
  intro before _ after ran
  obtain ⟨lowered, ok, appends⟩ := (expr_follows e ⟨rfl, rfl, rfl, rfl⟩).ok_of_run ran
  exact appends.slots_eq ▸ Lowering.expr_below ok

theorem stmts_keepsSlots (body : List Stmt) : (stmts body).KeepsSlots := by
  apply KeepsSlots.of_below
  intro before _ after ran
  obtain ⟨lowered, ok, appends⟩ := (stmts_follows body ⟨rfl, rfl, rfl, rfl⟩).ok_of_run ran
  exact appends.slots_eq ▸ Lowering.stmts_below ok

/-- The generator that has finished a function is left with its slots. -/
theorem runOn_routine_slots {function : Function} {routine : Routine} {before : Generator}
    (ok : Lowering.routine before.arities function = .ok routine) :
    ∃ after, (Generation.routine function).runOn before = (.ok routine, after) ∧
      after.slots = function.slots := by
  have follows := routine_follows function before
  rw [ok] at follows
  obtain ⟨_, after, ran, rfl, -, slots_eq⟩ := follows
  exact ⟨after, ran, slots_eq⟩

end Generation

/-- The slot tables of a program that the generator accepts, function by function, are bijections
that grow without a change to a slot that has been given. Each is the one that the generator is left
with, whatever it has worked on before. -/
theorem Generator.slots_bijective {generator : Generator} {program : Program}
    {assembly : Assembly} (ok : (generator.generate program).1 = .ok assembly) :
    List.Forall₂ (fun function routine => ∃ table : SlotTable,
        table.LaysOut function routine ∧
        ∀ before : Generator, before.arities = program.arities →
          ∃ after, (Generation.routine function).runOn before = (.ok routine, after) ∧
            ∀ name, after.slots.slot? name = table.find? name)
      program.functions assembly.routines ∧
    (∀ e, (Generation.expr e).KeepsSlots) ∧ ∀ body, (Generation.stmts body).KeepsSlots := by
  refine ⟨?_, Generation.expr_keepsSlots, Generation.stmts_keepsSlots⟩
  rw [generate_eq] at ok
  refine (Assembly.routines_forall₂ (mapError_eq_ok ok)).imp fun function routine lowered => ?_
  refine ⟨_, Lowering.routine_laysOut lowered, fun before arities_eq => ?_⟩
  obtain ⟨after, ran, slots_eq⟩ := Generation.runOn_routine_slots (arities_eq ▸ lowered)
  refine ⟨after, ran, fun name => ?_⟩
  rw [slots_eq, SlotTable.find?_ofSlots]

/-- A function of two parameters. In it `x` is assigned on the right side of `y`, and `z` in a
branch. -/
def Program.nestedAssignments : Program where
  functions := [
    ⟨"pick", [⟨"a", ⟨1, 15⟩⟩, ⟨"b", ⟨1, 18⟩⟩],
      [.assign ⟨2, 3⟩ "y" (.binary ⟨2, 7⟩ (.arithmetic .add)
          (.assign ⟨2, 8⟩ "x" (.var ⟨2, 12⟩ "a")) (.var ⟨2, 17⟩ "b")),
        .branch ⟨3, 3⟩ (.binary ⟨3, 7⟩ (.comparison .lt) (.var ⟨3, 7⟩ "x") (.var ⟨3, 11⟩ "y"))
          [.assign ⟨4, 5⟩ "z" (.var ⟨4, 9⟩ "y")] none,
        .return_ ⟨6, 3⟩ (some (.var ⟨6, 10⟩ "x"))], ⟨1, 1⟩⟩]

theorem Generator.slots_bijective_nestedAssignments :
    ∃ (routine : Routine) (table : SlotTable),
      ((Generator.ofName "Main").generate .nestedAssignments).1 = .ok ⟨"Main", [routine]⟩ ∧
      table.LaysOut Program.nestedAssignments.functions[0] routine ∧ routine.locals = 5 ∧
      ["a", "b", "x", "y", "z"].map table.find? = [some 0, some 1, some 2, some 3, some 4] := by
  obtain ⟨routine, lowered, locals_eq⟩ : ∃ routine : Routine,
      Assembly.ofProgram "Main" .nestedAssignments = .ok ⟨"Main", [routine]⟩ ∧
      routine.locals = 5 := ⟨_, rfl, rfl⟩
  have generated := ((Generator.ofName "Main").generate_eq .nestedAssignments).trans
    (congrArg (Except.mapError _) lowered)
  obtain ⟨routines, -⟩ := slots_bijective generated
  obtain ⟨⟨table, laysOut, -⟩, -⟩ := List.forall₂_cons.mp routines
  refine ⟨routine, table, generated, laysOut, locals_eq, ?_⟩
  obtain ⟨-, rfl⟩ := Prod.mk.inj (Option.some.inj laysOut.served)
  rfl

end ImpStack

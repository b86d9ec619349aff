import Mathlib.Data.List.Basic
import ImpStack.Proofs.Lowering

/-!
The slots behind a phrase are those in front of it followed by new ones for its assignment targets,
so a name that has a slot keeps it until the end of its function. `Below` says that slots have only
grown. The slots behind any phrase are told by its targets alone (`expr_slots`, `stmt_slots`), those
of a whole function by its names (`routine_slots`); nothing depends on the code or on where it is
placed.
-/
namespace ImpStack

namespace Slots

variable {slots final : Slots} {name other : String}

/-- A slot that is found is the place of a name that has one. -/
theorem slot?_eq_some {slot : Nat} (known : slots.slot? name = some slot) :
    name ∈ slots.names ∧ slots.slotOf name = slot := by
  obtain ⟨inside, found, before⟩ := List.findIdx?_eq_some_iff_getElem.mp known
  have here : slots.names[slot] = name := by simpa using found
  refine ⟨here ▸ List.getElem_mem inside, ?_⟩
  unfold slotOf List.idxOf
  rw [List.findIdx_eq inside]
  refine ⟨by simp [here], fun earlier lt => ?_⟩
  simpa using before earlier lt

theorem slotOf_inj (known : name ∈ slots.names)
    (same : slots.slotOf name = slots.slotOf other) : name = other :=
  (List.idxOf_inj known).mp same

/-- The slots of a function contain those that it has handed out so far. -/
def Below (slots final : Slots) : Prop := slots.names <+: final.names

theorem Below.refl (slots : Slots) : slots.Below slots := List.prefix_refl _

theorem Below.trans {middle : Slots} (left : slots.Below middle) (right : middle.Below final) :
    slots.Below final := List.IsPrefix.trans left right

theorem Below.mem (below : slots.Below final) (known : name ∈ slots.names) :
    name ∈ final.names := below.subset known

/-- A name keeps its slot while others are added. -/
theorem Below.slotOf_eq (below : slots.Below final) (known : name ∈ slots.names) :
    final.slotOf name = slots.slotOf name := by
  obtain ⟨later, names_eq⟩ := below
  unfold slotOf
  rw [← names_eq, List.idxOf_append_of_mem known]

/-- A name is added behind the others. -/
theorem below_insert (slots : Slots) (name : String) : slots.Below (slots.insert name) := by
  unfold insert Below
  split
  · exact List.prefix_refl _
  · exact List.prefix_append _ _

/-- Names are added one after another. -/
theorem insertAll_append (slots : Slots) (first second : List String) :
    slots.insertAll (first ++ second) = (slots.insertAll first).insertAll second := by
  simp [insertAll]

theorem below_insertAll (slots : Slots) (names : List String) :
    slots.Below (slots.insertAll names) := by
  induction names generalizing slots with
  | nil => exact .refl slots
  | cons name names ih => exact (below_insert slots name).trans (ih (slots.insert name))

theorem slot?_eq_none_iff (slots : Slots) (name : String) :
    slots.slot? name = none ↔ name ∉ slots.names := by
  unfold slot?
  rw [List.findIdx?_eq_none_iff]
  simp only [decide_eq_false_iff_not]
  exact ⟨fun different member => different name member rfl,
    fun absent other member same => absent (same ▸ member)⟩

theorem mem_insert_iff (slots : Slots) (target name : String) :
    name ∈ (slots.insert target).names ↔ name ∈ slots.names ∨ name = target := by
  unfold insert
  split
  · next known =>
    refine ⟨.inl, fun held => ?_⟩
    rcases held with held | same
    · exact held
    · exact same ▸ known
  · simp

theorem mem_insertAll_iff (slots : Slots) (names : List String) (name : String) :
    name ∈ (slots.insertAll names).names ↔ name ∈ slots.names ∨ name ∈ names := by
  induction names generalizing slots with
  | nil => simp [insertAll]
  | cons first rest ih =>
    rw [List.mem_cons, ← or_assoc, ← mem_insert_iff]
    exact ih (slots.insert first)

/-- New names that differ from each other get the next slots in their order. -/
theorem insertAll_of_nodup {names : List String} {slots : Slots}
    (distinct : (slots.names ++ names).Nodup) :
    slots.insertAll names = ⟨slots.names ++ names⟩ := by
  induction names generalizing slots with
  | nil => simp [insertAll]
  | cons name names ih =>
    have fresh : name ∉ slots.names := by
      intro member
      exact (List.nodup_append.mp distinct).2.2 name member name (List.mem_cons_self ..) rfl
    rw [List.append_cons] at distinct
    have inserted : slots.insert name = ⟨slots.names ++ [name]⟩ := by
      unfold insert
      rw [if_neg fresh]
    have rest : insertAll ⟨slots.names ++ [name]⟩ names = ⟨slots.names ++ [name] ++ names⟩ :=
      ih distinct
    simp only [insertAll, List.foldl_cons, inserted] at rest ⊢
    rw [rest, ← List.append_cons]

end Slots

namespace Lowering

variable {arities : Arities} {void : Bool} {start : Nat} {slots : Slots} {lowered : Lowered}

mutual

/-- Behind an expression the targets of its assignments have slots, in first-seen order. -/
theorem expr_slots (e : Expr) {start : Nat} {slots : Slots} {lowered : Lowered}
    (ok : expr arities start slots e = .ok lowered) :
    lowered.slots = slots.insertAll e.targets := by
  cases e with
  | int position value => rw [expr_int_ok ok]; rfl
  | float position value => rw [expr_float_ok ok]; rfl
  | var position name =>
    obtain ⟨slot, _, rfl⟩ := expr_var_ok ok
    rfl
  | binary position op left right =>
    obtain ⟨l, r, left_ok, right_ok, rfl⟩ := expr_binary_ok ok
    rw [Expr.targets, Slots.insertAll_append, ← expr_slots left left_ok]
    exact (expr_slots right right_ok :)
  | negate position operand =>
    obtain ⟨o, operand_ok, rfl⟩ := expr_negate_ok ok
    exact (expr_slots operand operand_ok :)
  | call position callee args =>
    obtain ⟨_, a, args_ok, rfl⟩ := expr_call_ok ok
    exact (exprs_slots args args_ok :)
  | assign position target value =>
    obtain ⟨v, value_ok, rfl⟩ := expr_assign_ok ok
    rw [Expr.targets, Slots.insertAll_append, ← expr_slots value value_ok]
    rfl
termination_by structural e

theorem exprs_slots (es : List Expr) {start : Nat} {slots : Slots} {lowered : Lowered}
    (ok : exprs arities start slots es = .ok lowered) :
    lowered.slots = slots.insertAll (Expr.targetsOfAll es) := by
  cases es with
  | nil => rw [exprs_nil_ok ok]; rfl
  | cons first rest =>
    obtain ⟨f, r, first_ok, rest_ok, rfl⟩ := exprs_cons_ok ok
    rw [Expr.targetsOfAll, Slots.insertAll_append, ← expr_slots first first_ok]
    exact (exprs_slots rest rest_ok :)
termination_by structural es

end

/-- A condition hands out the slots of its expression, however it ends in a jump. -/
theorem condition_slots {test : Expr} {jump : Test}
    (ok : condition arities start slots test = .ok (lowered, jump)) :
    lowered.slots = slots.insertAll test.targets := by
  obtain ⟨position, comparison, left, right, l, r, rfl, left_ok, right_ok, rfl, _⟩ |
    ⟨_, value_ok, _⟩ := condition_ok ok
  · rw [Expr.targets, Slots.insertAll_append, ← expr_slots left left_ok]
    exact (expr_slots right right_ok :)
  · exact (expr_slots test value_ok :)

mutual

/-- Behind a statement the targets in it have slots. Blocks change nothing: a name of an inner block
has a slot like any other. -/
theorem stmt_slots (statement : Stmt) {start : Nat} {slots : Slots} {lowered : Lowered}
    (ok : stmt arities void start slots statement = .ok lowered) :
    lowered.slots = slots.insertAll statement.targets := by
  cases statement with
  | assign position target value =>
    obtain ⟨v, value_ok, rfl⟩ := stmt_assign_ok ok
    rw [Stmt.targets, Slots.insertAll_append, ← expr_slots value value_ok]
    rfl
  | discard position value =>
    obtain ⟨v, value_ok, rfl⟩ := stmt_discard_ok ok
    exact (expr_slots value value_ok :)
  | print position value =>
    obtain ⟨v, value_ok, rfl⟩ := stmt_print_ok ok
    exact (expr_slots value value_ok :)
  | branch position test body alternative =>
    cases alternative with
    | none =>
      obtain ⟨t, jump, b, test_ok, body_ok, rfl⟩ := stmt_if_ok ok
      rw [Stmt.targets, Slots.insertAll_append, ← condition_slots test_ok]
      exact (stmts_slots body body_ok :)
    | some alternative =>
      obtain ⟨t, jump, b, a, test_ok, body_ok, alternative_ok, rfl⟩ := stmt_ifElse_ok ok
      rw [Stmt.targets, Slots.insertAll_append, Slots.insertAll_append,
        ← condition_slots test_ok, ← stmts_slots body body_ok]
      exact (stmts_slots alternative alternative_ok :)
  | loop position test body =>
    obtain ⟨t, jump, b, test_ok, body_ok, rfl⟩ := stmt_loop_ok ok
    rw [Stmt.targets, Slots.insertAll_append, ← condition_slots test_ok]
    exact (stmts_slots body body_ok :)
  | return_ position value =>
    cases value with
    | none => rw [stmt_returnNone_ok ok]; rfl
    | some value =>
      obtain ⟨v, value_ok, rfl⟩ := stmt_return_ok ok
      exact (expr_slots value value_ok :)
  | block position body => exact stmts_slots body (stmt_block_ok ok)
termination_by structural statement

theorem stmts_slots (body : List Stmt) {start : Nat} {slots : Slots} {lowered : Lowered}
    (ok : stmts arities void start slots body = .ok lowered) :
    lowered.slots = slots.insertAll (Stmt.targetsOfAll body) := by
  cases body with
  | nil => rw [stmts_nil_ok ok]; rfl
  | cons first rest =>
    obtain ⟨f, r, first_ok, rest_ok, rfl⟩ := stmts_cons_ok ok
    rw [Stmt.targetsOfAll, Slots.insertAll_append, ← stmt_slots first first_ok]
    exact (stmts_slots rest rest_ok :)
termination_by structural body

end

theorem expr_below {e : Expr} (ok : expr arities start slots e = .ok lowered) :
    slots.Below lowered.slots := by
  rw [expr_slots e ok]
  exact Slots.below_insertAll slots e.targets

theorem exprs_below {es : List Expr} (ok : exprs arities start slots es = .ok lowered) :
    slots.Below lowered.slots := by
  rw [exprs_slots es ok]
  exact Slots.below_insertAll slots _

theorem stmts_below {body : List Stmt} (ok : stmts arities void start slots body = .ok lowered) :
    slots.Below lowered.slots := by
  rw [stmts_slots body ok]
  exact Slots.below_insertAll slots _

/-- The parameters have the first slots. -/
theorem paramSlots_eq (function : Function) :
    paramSlots function.params = Slots.empty.insertAll function.paramNames := by
  simp [paramSlots, Slots.insertAll, Function.paramNames, List.foldl_map]

/-- The slots behind the body are those of all local names of the function. -/
theorem routine_slots {function : Function}
    (ok : stmts arities void 0 (paramSlots function.params) function.body = .ok lowered) :
    lowered.slots = function.slots := by
  rw [stmts_slots function.body ok, paramSlots_eq, ← Slots.insertAll_append]
  rfl

end Lowering

end ImpStack

import ImpStack.Proofs.Dispatch
import ImpStack.Proofs.Slots
import ImpStack.Proofs.Visits

/-!
Where lowering fails: at the first visit that reads a name without a slot, calls a name that is no
function or calls a function with the wrong number of arguments. Lowering works on trees and slots,
the rule on the list of visits; that both find the same first fault is proved along the tree
(`stmt_accords`), with the invariant that the slots are those of the names assigned so far
(`Allots`). The main result is `Assembly.ofProgram_accords`.
-/
namespace ImpStack

/-- Behind the visits `before`, the name has a slot: it is a parameter or the target of an
assignment, in whatever block. -/
def HasSlot (params : List String) (before : List Visit) (name : String) : Prop :=
  name ∈ params ∨ ∃ earlier ∈ before, earlier.use = .assigned name

instance (params : List String) (before : List Visit) (name : String) :
    Decidable (HasSlot params before name) :=
  inferInstanceAs (Decidable (_ ∨ _))

/-- What lowering refuses at a visit behind the visits `before`. -/
def Visit.fault? (arities : Arities) (params : List String) (before : List Visit)
    (visit : Visit) : Option LoweringError :=
  match visit.use with
  | .read name position _ =>
    if HasSlot params before name then none else some (.unknownVariable name position)
  | .call callee count position =>
    match arities callee with
    | none => some (.unknownFunction callee position)
    | some arity =>
      if arity = count then none else some (.arityMismatch callee arity count position)
  | .assigned _ => none

/-- A read is refused exactly if its name has no slot. -/
theorem Visit.fault?_read (arities : Arities) (params : List String) (before : List Visit)
    (block : BlockPath) (name : String) (position : Position) (inside : List String) :
    Visit.fault? arities params before ⟨block, .read name position inside⟩ =
      if HasSlot params before name then none else some (.unknownVariable name position) := rfl

theorem hasSlot_append {params : List String} {before later : List Visit} {name : String} :
    HasSlot params (before ++ later) name ↔
      HasSlot params before name ∨ ∃ visit ∈ later, visit.use = .assigned name := by
  unfold HasSlot
  simp only [List.mem_append, or_and_right, exists_or, or_assoc]

namespace Lowering

/-- The slots are those of the names that have one behind the visits `before`. -/
def Allots (params : List String) (before : List Visit) (slots : Slots) : Prop :=
  ∀ name, name ∈ slots.names ↔ HasSlot params before name

namespace Allots

variable {params : List String} {before : List Visit} {slots : Slots}

/-- A use that is no assignment adds no slot. -/
theorem behind_use {block : BlockPath} {use : Use} (allots : Allots params before slots)
    (other : ∀ target, use ≠ .assigned target) :
    Allots params (before ++ [⟨block, use⟩]) slots := by
  intro name
  rw [hasSlot_append, allots]
  simp [other]

theorem insert (allots : Allots params before slots) (block : BlockPath) (target : String) :
    Allots params (before ++ [⟨block, .assigned target⟩]) (slots.insert target) := by
  intro name
  rw [Slots.mem_insert_iff, hasSlot_append, allots]
  simp [eq_comm]

end Allots

variable {arities : Arities} {params : List String} {void : Bool}

mutual

/-- An expression fails at its first refused visit, and otherwise allots the targets in it. -/
theorem expr_accords (e : Expr) {start : Nat} {slots : Slots} {before : List Visit}
    {block : BlockPath} {inside : List String} (allots : Allots params before slots) :
    Accords (firstRefusal (Visit.fault? arities params) before (e.visits block inside))
      (fun lowered => Allots params (before ++ e.visits block inside) lowered.slots)
      (expr arities start slots e) := by
  cases e with
  | int position value => exact .ok ((List.append_nil before).symm ▸ allots)
  | float position value => exact .ok ((List.append_nil before).symm ▸ allots)
  | var position name =>
    have behind : Allots params (before ++ [⟨block, .read name position inside⟩]) slots :=
      allots.behind_use (by simp)
    show Accords ((Visit.fault? arities params before ⟨block, .read name position inside⟩).or none)
      _ _
    rw [expr, Option.or_none, Visit.fault?_read]
    cases found : slots.slot? name with
    | some slot =>
      have held := (allots name).mp (Slots.slot?_eq_some found).1
      rw [if_pos held]
      exact .ok behind
    | none =>
      -- The lowering knows a name exactly if it is a parameter or was assigned in an earlier visit.
      have missing := fun held =>
        (slots.slot?_eq_none_iff name).mp found ((allots name).mpr held)
      rw [if_neg missing]
      rfl
  | binary position op left right =>
    rw [Expr.visits_binary, firstRefusal_append, expr, ← List.append_assoc]
    refine (expr_accords left allots).bind fun l _ allots => ?_
    exact (expr_accords right allots).map fun r _ allots => allots
  | negate position operand =>
    rw [expr]
    exact (expr_accords operand allots).map fun o _ allots => allots
  | call position callee args =>
    have behind : Allots params (before ++ [⟨block, .call callee args.length position⟩]) slots :=
      allots.behind_use (by simp)
    rw [Expr.visits_call, firstRefusal, expr,
      List.append_cons before _ (Expr.visitsOfAll block inside args)]
    -- The number of arguments is compared before the arguments are lowered.
    unfold Visit.fault?
    cases known : arities callee with
    | none => simp only [known]; rfl
    | some arity =>
      by_cases fits : arity = args.length
      · simp only [known, if_pos fits, Option.none_or]
        exact (exprs_accords args behind).map fun a _ allots => allots
      · simp only [known, if_neg fits, Option.some_or]
        rfl
  | assign position target value =>
    rw [Expr.visits_assign, firstRefusal_append, expr, ← List.append_assoc]
    refine (expr_accords value allots).bind fun v _ allots => ?_
    exact .ok (allots.insert block target)
termination_by structural e

theorem exprs_accords (es : List Expr) {start : Nat} {slots : Slots} {before : List Visit}
    {block : BlockPath} {inside : List String} (allots : Allots params before slots) :
    Accords (firstRefusal (Visit.fault? arities params) before (Expr.visitsOfAll block inside es))
      (fun lowered => Allots params (before ++ Expr.visitsOfAll block inside es) lowered.slots)
      (exprs arities start slots es) := by
  cases es with
  | nil => exact .ok ((List.append_nil before).symm ▸ allots)
  | cons first rest =>
    rw [Expr.visitsOfAll_cons, firstRefusal_append, exprs, ← List.append_assoc]
    refine (expr_accords first allots).bind fun f _ allots => ?_
    exact (exprs_accords rest allots).map fun r _ allots => allots
termination_by structural es

end

/-- A condition is lowered like its expression. -/
theorem condition_accords (test : Expr) {start : Nat} {slots : Slots} {before : List Visit}
    {block : BlockPath} (allots : Allots params before slots) :
    Accords (firstRefusal (Visit.fault? arities params) before (test.visits block []))
      (fun lowered => Allots params (before ++ test.visits block []) lowered.1.slots)
      (condition arities start slots test) := by
  unfold condition
  split
  · next position comparison left right =>
    rw [Expr.visits_binary, firstRefusal_append, ← List.append_assoc]
    refine (expr_accords left allots).bind fun l _ allots => ?_
    exact (expr_accords right allots).map fun r _ allots => allots
  · exact (expr_accords test allots).map fun v _ allots => allots

mutual

/-- A statement. The blocks of its visits do not matter here: a slot is visible in the whole
function. -/
theorem stmt_accords (statement : Stmt) {start : Nat} {slots : Slots} {before : List Visit}
    {block : BlockPath} {index : Nat} (allots : Allots params before slots) :
    Accords (firstRefusal (Visit.fault? arities params) before (statement.visits block index))
      (fun lowered => Allots params (before ++ statement.visits block index) lowered.slots)
      (stmt arities void start slots statement) := by
  cases statement with
  | assign position target value =>
    rw [Stmt.visits, firstRefusal_append, stmt, ← List.append_assoc]
    refine (expr_accords value allots).bind fun v _ allots => ?_
    exact .ok (allots.insert block target)
  | discard position value =>
    rw [stmt]
    exact (expr_accords value allots).map fun v _ allots => allots
  | print position value =>
    rw [stmt]
    exact (expr_accords value allots).map fun v _ allots => allots
  | branch position test body alternative =>
    cases alternative with
    | none =>
      rw [Stmt.visits, firstRefusal_append, stmt, ← List.append_assoc]
      refine (condition_accords test allots).bind fun t _ allots => ?_
      exact (stmts_accords body allots).map fun b _ allots => allots
    | some alternative =>
      rw [Stmt.visits, firstRefusal_append, firstRefusal_append, stmt, ← List.append_assoc,
        ← List.append_assoc]
      refine (condition_accords test allots).bind fun t _ allots => ?_
      refine (stmts_accords body allots).bind fun b _ allots => ?_
      exact (stmts_accords alternative allots).map fun a _ allots => allots
  | loop position test body =>
    rw [Stmt.visits, firstRefusal_append, stmt, ← List.append_assoc]
    refine (condition_accords test allots).bind fun t _ allots => ?_
    exact (stmts_accords body allots).map fun b _ allots => allots
  | return_ position value =>
    cases value with
    | none => exact .ok ((List.append_nil before).symm ▸ allots)
    | some value =>
      rw [stmt]
      exact (expr_accords value allots).map fun v _ allots => allots
  | block position body =>
    rw [stmt]
    exact stmts_accords body allots
termination_by structural statement

theorem stmts_accords (body : List Stmt) {start : Nat} {slots : Slots} {before : List Visit}
    {block : BlockPath} {index : Nat} (allots : Allots params before slots) :
    Accords (firstRefusal (Visit.fault? arities params) before (Stmt.visitsOfAll block index body))
      (fun lowered => Allots params (before ++ Stmt.visitsOfAll block index body) lowered.slots)
      (stmts arities void start slots body) := by
  cases body with
  | nil => exact .ok ((List.append_nil before).symm ▸ allots)
  | cons first rest =>
    rw [Stmt.visitsOfAll, firstRefusal_append, stmts, ← List.append_assoc]
    refine (stmt_accords first allots).bind fun f _ allots => ?_
    exact (stmts_accords rest allots).map fun r _ allots => allots
termination_by structural body

end

theorem allots_params (function : Function) :
    Allots function.paramNames [] (paramSlots function.params) := by
  intro name
  rw [paramSlots_eq, Slots.mem_insertAll_iff]
  simp [HasSlot, Slots.empty]

/-- The return behind a body cannot fail. -/
theorem routine_accords (arities : Arities) (function : Function) :
    Accords (firstRefusal (Visit.fault? arities function.paramNames) [] function.visits)
      (fun _ => True) (routine arities function) := by
  unfold routine
  exact (stmts_accords function.body (allots_params function)).map fun _ _ _ => trivial

end Lowering

/-- Of several conversions the first that fails is found. -/
theorem mapM_accords {α β ε : Type} {step : α → Except ε β} {refuse : α → Option ε} (xs : List α)
    (accords : ∀ x, Accords (refuse x) (fun _ => True) (step x)) (before : List α) :
    Accords (firstRefusal (fun _ => refuse) before xs) (fun _ => True) (xs.mapM step) := by
  induction xs generalizing before with
  | nil => exact .ok trivial
  | cons x rest ih =>
    rw [firstRefusal, List.mapM_cons]
    refine (accords x).bind fun _ _ _ => ?_
    exact (ih _).map fun _ _ _ => trivial

/-- What lowering finds first in a program. -/
def Program.fault? (program : Program) : Option LoweringError :=
  firstRefusal (fun _ function => firstRefusal
    (Visit.fault? program.arities function.paramNames) [] function.visits) [] program.functions

/-- A program has code exactly if nothing in it is refused, and fails with what is refused first. -/
theorem Assembly.ofProgram_accords (name : String) (program : Program) :
    Accords program.fault? (fun _ => True) (Assembly.ofProgram name program) := by
  unfold Assembly.ofProgram Program.fault?
  exact (mapM_accords program.functions (Lowering.routine_accords program.arities) []).map
    fun _ _ _ => trivial

end ImpStack

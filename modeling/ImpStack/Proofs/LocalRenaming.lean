import Mathlib.Data.Set.Function
import ImpStack.Proofs.LoweringFaults
import ImpStack.Proofs.SeparateCompilation
import ImpStack.Proofs.Slots

/-!
The names of local variables do not matter. A function may give its parameters and the targets of
its assignments other names, also those of functions, as long as different names stay different: the
check accepts it as before and its code is the same (`Generator.locals_may_be_renamed`).

For the check this goes through the rule of scoping, for which only the visits of a body count
(`Function.WellScoped.renameLocals`); for the code it is an induction on the lowering, whose slots
are renamed along (`Lowering.expr_rename`, `Lowering.stmt_rename`).
-/
namespace ImpStack

/-! ### Renamed trees -/

mutual

/-- The expression with other names for its variables and targets. Callees keep their names. -/
def Expr.renameLocals (change : String → String) : Expr → Expr
  | .int position value => .int position value
  | .float position value => .float position value
  | .var position name => .var position (change name)
  | .binary position op left right =>
    .binary position op (left.renameLocals change) (right.renameLocals change)
  | .negate position operand => .negate position (operand.renameLocals change)
  | .call position callee args => .call position callee (Expr.renameAll change args)
  | .assign position target value => .assign position (change target) (value.renameLocals change)
termination_by structural expr => expr

def Expr.renameAll (change : String → String) : List Expr → List Expr
  | [] => []
  | first :: rest => first.renameLocals change :: Expr.renameAll change rest
termination_by structural exprs => exprs

end

mutual

/-- The statement with other names for its variables and targets. -/
def Stmt.renameLocals (change : String → String) : Stmt → Stmt
  | .assign position target value => .assign position (change target) (value.renameLocals change)
  | .discard position value => .discard position (value.renameLocals change)
  | .print position value => .print position (value.renameLocals change)
  | .branch position condition body none =>
    .branch position (condition.renameLocals change) (Stmt.renameAll change body) none
  | .branch position condition body (some alternative) =>
    .branch position (condition.renameLocals change) (Stmt.renameAll change body)
      (some (Stmt.renameAll change alternative))
  | .loop position condition body =>
    .loop position (condition.renameLocals change) (Stmt.renameAll change body)
  | .return_ position value => .return_ position (value.map (Expr.renameLocals change))
  | .block position body => .block position (Stmt.renameAll change body)
termination_by structural statement => statement

def Stmt.renameAll (change : String → String) : List Stmt → List Stmt
  | [] => []
  | first :: rest => first.renameLocals change :: Stmt.renameAll change rest
termination_by structural body => body

end

def Param.rename (change : String → String) (param : Param) : Param :=
  { param with name := change param.name }

namespace Function

/-- The parameters and the targets of assignments. -/
def localNames (function : Function) : List String :=
  function.paramNames ++ Stmt.targetsOfAll function.body

/-- The function with other names for its local variables. Its own name stays. -/
def renameLocals (change : String → String) (function : Function) : Function :=
  { function with
    params := function.params.map (Param.rename change)
    body := Stmt.renameAll change function.body }

end Function

/-! ### The uses of renamed names -/

/-- The use with other names for variables. Callees and positions stay. -/
def Use.rename (change : String → String) : Use → Use
  | .read name position inside => .read (change name) position (inside.map change)
  | .call callee count position => .call callee count position
  | .assigned target => .assigned (change target)

def Visit.rename (change : String → String) (visit : Visit) : Visit :=
  { visit with use := visit.use.rename change }

section

variable (change : String → String)

theorem Expr.length_renameAll (exprs : List Expr) :
    (Expr.renameAll change exprs).length = exprs.length := by
  induction exprs with
  | nil => rfl
  | cons first rest ih => rw [renameAll, List.length_cons, List.length_cons, ih]

mutual

/-- The uses of the renamed expression are the renamed uses. -/
theorem Expr.uses_renameLocals (e : Expr) (inside : List String) :
    (e.renameLocals change).uses (inside.map change) =
      (e.uses inside).map (Use.rename change) := by
  cases e with
  | int position value => rfl
  | float position value => rfl
  | var position name => rfl
  | binary position op left right =>
    rw [renameLocals, uses, uses, List.map_append, uses_renameLocals left,
      uses_renameLocals right]
  | negate position operand => exact uses_renameLocals operand inside
  | call position callee args =>
    rw [renameLocals, uses, uses, List.map_cons, usesOfAll_renameAll args,
      Expr.length_renameAll]
    rfl
  | assign position target value =>
    rw [renameLocals, uses, uses, List.map_append, ← uses_renameLocals value (target :: inside)]
    rfl
termination_by structural e

theorem Expr.usesOfAll_renameAll (es : List Expr) (inside : List String) :
    Expr.usesOfAll (inside.map change) (Expr.renameAll change es) =
      (Expr.usesOfAll inside es).map (Use.rename change) := by
  cases es with
  | nil => rfl
  | cons first rest =>
    rw [renameAll, usesOfAll, usesOfAll, List.map_append, uses_renameLocals first,
      usesOfAll_renameAll rest]
termination_by structural es

end

theorem Expr.visits_renameLocals (e : Expr) (block : BlockPath) (inside : List String) :
    (e.renameLocals change).visits block (inside.map change) =
      (e.visits block inside).map (Visit.rename change) := by
  unfold visits
  rw [uses_renameLocals, List.map_map, List.map_map]
  rfl

theorem Expr.visits_renameLocals_nil (e : Expr) (block : BlockPath) :
    (e.renameLocals change).visits block [] = (e.visits block []).map (Visit.rename change) :=
  e.visits_renameLocals change block []

mutual

/-- Blocks are where they were, so that the visits only differ in their names. -/
theorem Stmt.visits_renameLocals (statement : Stmt) (block : BlockPath) (index : Nat) :
    (statement.renameLocals change).visits block index =
      (statement.visits block index).map (Visit.rename change) := by
  cases statement with
  | assign position target value =>
    rw [renameLocals, visits, visits, List.map_append, ← Expr.visits_renameLocals]
    rfl
  | discard position value => exact value.visits_renameLocals_nil change block
  | print position value => exact value.visits_renameLocals_nil change block
  | branch position condition body alternative =>
    cases alternative with
    | none =>
      rw [renameLocals, visits, visits, List.map_append, visitsOfAll_renameAll body,
        Expr.visits_renameLocals_nil]
    | some alternative =>
      rw [renameLocals, visits, visits, List.map_append, List.map_append,
        visitsOfAll_renameAll body, visitsOfAll_renameAll alternative,
        Expr.visits_renameLocals_nil]
  | loop position condition body =>
    rw [renameLocals, visits, visits, List.map_append, visitsOfAll_renameAll body,
      Expr.visits_renameLocals_nil]
  | return_ position value =>
    cases value with
    | none => rfl
    | some value => exact value.visits_renameLocals_nil change block
  | block position body => exact visitsOfAll_renameAll body _ 0
termination_by structural statement

theorem Stmt.visitsOfAll_renameAll (body : List Stmt) (block : BlockPath) (index : Nat) :
    Stmt.visitsOfAll block index (Stmt.renameAll change body) =
      (Stmt.visitsOfAll block index body).map (Visit.rename change) := by
  cases body with
  | nil => rfl
  | cons first rest =>
    rw [renameAll, visitsOfAll, visitsOfAll, List.map_append, visits_renameLocals first,
      visitsOfAll_renameAll rest]
termination_by structural body

end

theorem Function.visits_renameLocals (function : Function) :
    (function.renameLocals change).visits = function.visits.map (Visit.rename change) :=
  Stmt.visitsOfAll_renameAll change function.body [] 0

theorem Function.paramNames_renameLocals (function : Function) :
    (function.renameLocals change).paramNames = function.paramNames.map change := by
  simp only [paramNames, renameLocals, List.map_map]
  rfl

@[simp]
theorem Function.name_renameLocals (function : Function) :
    (function.renameLocals change).name = function.name := rfl

@[simp]
theorem Function.arity_renameLocals (function : Function) :
    (function.renameLocals change).arity = function.arity :=
  List.length_map ..

end

/-! ### The check -/

section

variable {change : String → String}

/-- The assignment that gave the name a value gives it to the new name. -/
theorem HasValue.renamed {params : List String} {before : List Visit} {block : BlockPath}
    {name : String} (value : HasValue params before block name) :
    HasValue (params.map change) (before.map (Visit.rename change)) block (change name) := by
  rcases value with param | ⟨earlier, member, assigned, within⟩
  · exact .inl (List.mem_map_of_mem param)
  · refine .inr ⟨earlier.rename change, List.mem_map_of_mem member, ?_, within⟩
    show earlier.use.rename change = _
    rw [assigned]
    rfl

/-- A variable that is read has a value under its new name, and callees are the same. Only the
parameters have to stay different. -/
theorem Function.WellScoped.renameLocals {functions : List String} {function : Function}
    (wellScoped : function.WellScoped functions)
    (injective : Set.InjOn change {name | name ∈ function.localNames}) :
    (function.renameLocals change).WellScoped functions where
  params_distinct := by
    rw [paramNames_renameLocals]
    refine List.Nodup.map_on ?_ wellScoped.params_distinct
    intro first isParam second alsoParam same
    exact injective (List.mem_append_left _ isParam) (List.mem_append_left _ alsoParam) same
  calls_known := by
    rw [visits_renameLocals]
    intro visit renamed callee count position called
    obtain ⟨visit, member, rfl⟩ := List.mem_map.mp renamed
    obtain ⟨block, use⟩ := visit
    cases use with
    | call name number place =>
      obtain ⟨rfl, rfl, rfl⟩ := Use.call.inj called
      exact wellScoped.calls_known _ member _ _ _ rfl
    | read name place inside => cases called
    | assigned target => cases called
  reads_have_values := by
    rw [visits_renameLocals, paramNames_renameLocals]
    intro before visit after renamed name position inside read
    obtain ⟨before, rest, split, rfl, last⟩ := List.map_eq_append_iff.mp renamed
    obtain ⟨visit, after, rfl, rfl, rfl⟩ := List.map_eq_cons_iff.mp last
    obtain ⟨block, use⟩ := visit
    cases use with
    | read name place inside =>
      obtain ⟨rfl, rfl, rfl⟩ := Use.read.inj read
      exact (wellScoped.reads_have_values before _ after split _ _ _ rfl).renamed
    | call callee count place => cases read
    | assigned target => cases read

/-! ### Slots -/

/-- Other names in the same slots. -/
def Slots.rename (change : String → String) (slots : Slots) : Slots := ⟨slots.names.map change⟩

def Lowered.rename (change : String → String) (lowered : Lowered) : Lowered :=
  { lowered with slots := lowered.slots.rename change }

namespace Slots

theorem size_rename (slots : Slots) : (slots.rename change).size = slots.size :=
  List.length_map ..

theorem slot?_eq_guard (slots : Slots) (name : String) :
    slots.slot? name = Option.guard (· < slots.size) (slots.slotOf name) := by
  unfold slot?
  rw [List.findIdx?_eq_guard_findIdx_lt]
  rfl

theorem insertAll_within {slots : Slots} {names targets : List String}
    (within : slots.names ⊆ names) (among : targets ⊆ names) :
    (slots.insertAll targets).names ⊆ names := by
  intro name member
  rcases (mem_insertAll_iff slots targets name).mp member with held | target
  · exact within held
  · exact among target

variable {names : List String} (injective : Set.InjOn change {name | name ∈ names})
variable {slots : Slots} (within : slots.names ⊆ names) {name : String} (among : name ∈ names)

include injective within among

/-- Among names that stay different, the new name has a slot if the old one has. -/
theorem mem_rename_iff : change name ∈ (slots.rename change).names ↔ name ∈ slots.names := by
  show change name ∈ slots.names.map change ↔ _
  rw [List.mem_map]
  constructor
  · rintro ⟨other, member, same⟩
    exact injective (within member) among same ▸ member
  · intro member
    exact ⟨name, member, rfl⟩

theorem slotOf_rename : (slots.rename change).slotOf (change name) = slots.slotOf name := by
  obtain ⟨held⟩ := slots
  show (held.map change).idxOf (change name) = held.idxOf name
  induction held with
  | nil => rfl
  | cons first rest ih =>
    obtain ⟨firstAmong, restWithin⟩ := List.cons_subset.mp within
    rw [List.map_cons, List.idxOf_cons, List.idxOf_cons, ih restWithin]
    by_cases here : first = name
    · simp [here]
    · have apart : change first ≠ change name := fun same => here (injective firstAmong among same)
      rw [beq_eq_false_iff_ne.mpr here, beq_eq_false_iff_ne.mpr apart]

theorem slot?_rename : (slots.rename change).slot? (change name) = slots.slot? name := by
  rw [slot?_eq_guard, slot?_eq_guard, slotOf_rename injective within among, size_rename]

theorem insert_rename :
    (slots.rename change).insert (change name) = (slots.insert name).rename change := by
  unfold insert
  simp only [mem_rename_iff injective within among]
  split
  · rfl
  · simp [Slots.rename]

omit among in
/-- Names may be renamed before or after they get their slots. -/
theorem insertAll_rename {targets : List String} (among : targets ⊆ names) :
    (slots.rename change).insertAll (targets.map change) =
      (slots.insertAll targets).rename change := by
  induction targets generalizing slots with
  | nil => rfl
  | cons first rest ih =>
    obtain ⟨firstAmong, restAmong⟩ := List.cons_subset.mp among
    have inserted : (slots.insert first).names ⊆ names :=
      insertAll_within within (List.cons_subset.mpr ⟨firstAmong, List.nil_subset _⟩)
    show ((slots.rename change).insert (change first)).insertAll (rest.map change) = _
    rw [insert_rename injective within firstAmong]
    exact ih inserted restAmong

end Slots

/-! ### The code -/

/-- The code of an assignment, behind the code of its right side. -/
theorem Lowered.store_rename {names : List String}
    (injective : Set.InjOn change {name | name ∈ names}) {value : Lowered}
    (within : value.slots.names ⊆ names) {target : String} (among : [target] ⊆ names)
    (front : Code) :
    (⟨value.code ++ (front ++ [.store (((value.slots.rename change).insert
        (change target)).slotOf (change target))]),
      (value.slots.rename change).insert (change target)⟩ : Lowered) =
    ⟨value.code ++ (front ++ [.store ((value.slots.insert target).slotOf target)]),
      (value.slots.insert target).rename change⟩ := by
  have inserted : (value.slots.insert target).names ⊆ names :=
    Slots.insertAll_within within among
  have held : target ∈ names := among List.mem_cons_self
  rw [Slots.insert_rename injective within held, Slots.slotOf_rename injective inserted held]

namespace Lowering

variable {arities : Arities} {void : Bool} {names : List String}

mutual

/-- The code of a renamed expression is its code, and its slots are renamed. -/
theorem expr_rename (injective : Set.InjOn change {name | name ∈ names}) (e : Expr) {start : Nat}
    {slots : Slots} {lowered : Lowered} (ok : expr arities start slots e = .ok lowered)
    (within : slots.names ⊆ names) (among : e.targets ⊆ names) :
    expr arities start (slots.rename change) (e.renameLocals change) =
      .ok (lowered.rename change) := by
  cases e with
  | int position value => rw [expr_int_ok ok]; rfl
  | float position value => rw [expr_float_ok ok]; rfl
  | var position name =>
    obtain ⟨slot, known, rfl⟩ := expr_var_ok ok
    have held := within (Slots.slot?_eq_some known).1
    rw [Expr.renameLocals, expr, Slots.slot?_rename injective within held, known]
    rfl
  | binary position op left right =>
    obtain ⟨l, r, left_ok, right_ok, rfl⟩ := expr_binary_ok ok
    obtain ⟨leftAmong, rightAmong⟩ := List.append_subset.mp among
    have leftWithin := expr_slots left left_ok ▸ Slots.insertAll_within within leftAmong
    rw [Expr.renameLocals, expr]
    apply bind_ok (expr_rename injective left left_ok within leftAmong)
    exact bind_ok (expr_rename injective right right_ok leftWithin rightAmong) rfl
  | negate position operand =>
    obtain ⟨o, operand_ok, rfl⟩ := expr_negate_ok ok
    rw [Expr.renameLocals, expr]
    exact bind_ok (expr_rename injective operand operand_ok within among) rfl
  | call position callee args =>
    obtain ⟨known, a, args_ok, rfl⟩ := expr_call_ok ok
    rw [Expr.renameLocals, expr, known]
    simp only [Expr.length_renameAll, if_true]
    exact bind_ok (exprs_rename injective args args_ok within among) rfl
  | assign position target value =>
    obtain ⟨v, value_ok, rfl⟩ := expr_assign_ok ok
    obtain ⟨valueAmong, targetAmong⟩ := List.append_subset.mp among
    have valueWithin := expr_slots value value_ok ▸ Slots.insertAll_within within valueAmong
    rw [Expr.renameLocals, expr]
    apply bind_ok (expr_rename injective value value_ok within valueAmong)
    exact congrArg Except.ok (Lowered.store_rename injective valueWithin targetAmong [.dup])
termination_by structural e

theorem exprs_rename (injective : Set.InjOn change {name | name ∈ names}) (es : List Expr)
    {start : Nat} {slots : Slots} {lowered : Lowered}
    (ok : exprs arities start slots es = .ok lowered) (within : slots.names ⊆ names)
    (among : Expr.targetsOfAll es ⊆ names) :
    exprs arities start (slots.rename change) (Expr.renameAll change es) =
      .ok (lowered.rename change) := by
  cases es with
  | nil => rw [exprs_nil_ok ok]; rfl
  | cons first rest =>
    obtain ⟨f, r, first_ok, rest_ok, rfl⟩ := exprs_cons_ok ok
    obtain ⟨firstAmong, restAmong⟩ := List.append_subset.mp among
    have firstWithin := expr_slots first first_ok ▸ Slots.insertAll_within within firstAmong
    rw [Expr.renameAll, exprs]
    apply bind_ok (expr_rename injective first first_ok within firstAmong)
    exact bind_ok (exprs_rename injective rest rest_ok firstWithin restAmong) rfl
termination_by structural es

end

/-- A test is lowered to the same jump. -/
theorem condition_rename (injective : Set.InjOn change {name | name ∈ names}) {test : Expr}
    {start : Nat} {slots : Slots} {lowered : Lowered} {jump : Test}
    (ok : condition arities start slots test = .ok (lowered, jump))
    (within : slots.names ⊆ names) (among : test.targets ⊆ names) :
    condition arities start (slots.rename change) (test.renameLocals change) =
      .ok (lowered.rename change, jump) := by
  rcases condition_ok ok with
    ⟨position, comparison, left, right, l, r, rfl, left_ok, right_ok, rfl, rfl⟩ |
    ⟨plain, value_ok, rfl⟩
  · obtain ⟨leftAmong, rightAmong⟩ := List.append_subset.mp among
    have leftWithin := expr_slots left left_ok ▸ Slots.insertAll_within within leftAmong
    apply bind_ok (expr_rename injective left left_ok within leftAmong)
    exact bind_ok (expr_rename injective right right_ok leftWithin rightAmong) rfl
  · have renamed := expr_rename injective test value_ok within among
    cases test with
    | binary position op left right =>
      cases op with
      | arithmetic op => exact bind_ok renamed rfl
      | comparison comparison => exact absurd rfl (plain position comparison left right)
    | _ => exact bind_ok renamed rfl

mutual

/-- The code of a renamed statement is its code. -/
theorem stmt_rename (injective : Set.InjOn change {name | name ∈ names}) (statement : Stmt)
    {start : Nat} {slots : Slots} {lowered : Lowered}
    (ok : stmt arities void start slots statement = .ok lowered) (within : slots.names ⊆ names)
    (among : statement.targets ⊆ names) :
    stmt arities void start (slots.rename change) (statement.renameLocals change) =
      .ok (lowered.rename change) := by
  -- The names found so far stay among those on which the renaming is injective, so that a lookup
  -- finds the same slot under either name.
  cases statement with
  | assign position target value =>
    obtain ⟨v, value_ok, rfl⟩ := stmt_assign_ok ok
    obtain ⟨valueAmong, targetAmong⟩ := List.append_subset.mp among
    have valueWithin := expr_slots value value_ok ▸ Slots.insertAll_within within valueAmong
    rw [Stmt.renameLocals, stmt]
    apply bind_ok (expr_rename injective value value_ok within valueAmong)
    exact congrArg Except.ok (Lowered.store_rename injective valueWithin targetAmong [])
  | discard position value =>
    obtain ⟨v, value_ok, rfl⟩ := stmt_discard_ok ok
    rw [Stmt.renameLocals, stmt]
    exact bind_ok (expr_rename injective value value_ok within among) rfl
  | print position value =>
    obtain ⟨v, value_ok, rfl⟩ := stmt_print_ok ok
    rw [Stmt.renameLocals, stmt]
    exact bind_ok (expr_rename injective value value_ok within among) rfl
  | branch position test body alternative =>
    cases alternative with
    | none =>
      obtain ⟨t, jump, b, test_ok, body_ok, rfl⟩ := stmt_if_ok ok
      obtain ⟨testAmong, bodyAmong⟩ := List.append_subset.mp among
      have testWithin := condition_slots test_ok ▸ Slots.insertAll_within within testAmong
      rw [Stmt.renameLocals, stmt]
      apply bind_ok (condition_rename injective test_ok within testAmong)
      exact bind_ok (stmts_rename injective body body_ok testWithin bodyAmong) rfl
    | some alternative =>
      obtain ⟨t, jump, b, a, test_ok, body_ok, alternative_ok, rfl⟩ := stmt_ifElse_ok ok
      obtain ⟨testAmong, bodiesAmong⟩ := List.append_subset.mp among
      obtain ⟨bodyAmong, otherAmong⟩ := List.append_subset.mp bodiesAmong
      have testWithin := condition_slots test_ok ▸ Slots.insertAll_within within testAmong
      have bodyWithin := stmts_slots body body_ok ▸ Slots.insertAll_within testWithin bodyAmong
      rw [Stmt.renameLocals, stmt]
      apply bind_ok (condition_rename injective test_ok within testAmong)
      apply bind_ok (stmts_rename injective body body_ok testWithin bodyAmong)
      exact bind_ok (stmts_rename injective alternative alternative_ok bodyWithin otherAmong) rfl
  | loop position test body =>
    obtain ⟨t, jump, b, test_ok, body_ok, rfl⟩ := stmt_loop_ok ok
    obtain ⟨testAmong, bodyAmong⟩ := List.append_subset.mp among
    have testWithin := condition_slots test_ok ▸ Slots.insertAll_within within testAmong
    rw [Stmt.renameLocals, stmt]
    apply bind_ok (condition_rename injective test_ok within testAmong)
    exact bind_ok (stmts_rename injective body body_ok testWithin bodyAmong) rfl
  | return_ position value =>
    cases value with
    | none => rw [stmt_returnNone_ok ok]; rfl
    | some value =>
      obtain ⟨v, value_ok, rfl⟩ := stmt_return_ok ok
      exact bind_ok (expr_rename injective value value_ok within among) rfl
  | block position body => exact stmts_rename injective body (stmt_block_ok ok) within among
termination_by structural statement

theorem stmts_rename (injective : Set.InjOn change {name | name ∈ names}) (body : List Stmt)
    {start : Nat} {slots : Slots} {lowered : Lowered}
    (ok : stmts arities void start slots body = .ok lowered) (within : slots.names ⊆ names)
    (among : Stmt.targetsOfAll body ⊆ names) :
    stmts arities void start (slots.rename change) (Stmt.renameAll change body) =
      .ok (lowered.rename change) := by
  cases body with
  | nil => rw [stmts_nil_ok ok]; rfl
  | cons first rest =>
    obtain ⟨f, r, first_ok, rest_ok, rfl⟩ := stmts_cons_ok ok
    obtain ⟨firstAmong, restAmong⟩ := List.append_subset.mp among
    have firstWithin := stmt_slots first first_ok ▸ Slots.insertAll_within within firstAmong
    rw [Stmt.renameAll, stmts]
    apply bind_ok (stmt_rename injective first first_ok within firstAmong)
    exact bind_ok (stmts_rename injective rest rest_ok firstWithin restAmong) rfl
termination_by structural body

end

/-- Whether a function is the entry does not depend on its local names. -/
theorem isEntry_renameLocals (change : String → String) (function : Function) :
    isEntry (function.renameLocals change) = isEntry function := by
  unfold isEntry Function.renameLocals
  rw [List.isEmpty_map]

/-- A renamed function has the same routine, with as many slots. -/
theorem routine_rename {function : Function} {routine : Routine}
    (injective : Set.InjOn change {name | name ∈ function.localNames})
    (ok : Lowering.routine arities function = .ok routine) :
    Lowering.routine arities (function.renameLocals change) = .ok routine := by
  obtain ⟨b, body_ok, rfl⟩ := routine_ok ok
  have paramsAmong : function.paramNames ⊆ function.localNames := List.subset_append_left ..
  have params_eq : paramSlots (function.renameLocals change).params =
      (paramSlots function.params).rename change := by
    rw [paramSlots_eq, paramSlots_eq, Function.paramNames_renameLocals]
    exact Slots.insertAll_rename injective (List.nil_subset _) paramsAmong
  have within : (paramSlots function.params).names ⊆ function.localNames := by
    rw [paramSlots_eq]
    exact Slots.insertAll_within (List.nil_subset _) paramsAmong
  have renamed := stmts_rename injective function.body body_ok within (List.subset_append_right ..)
  unfold Lowering.routine
  rw [params_eq, isEntry_renameLocals]
  apply bind_ok renamed
  have size_eq : (b.rename change).slots.size = b.slots.size := b.slots.size_rename
  rw [Function.arity_renameLocals, size_eq]
  rfl

end Lowering

theorem Function.routineAmong_renameLocals {arities : Arities} {function : Function}
    (injective : Set.InjOn change {name | name ∈ function.localNames}) {routine : Routine}
    (ok : function.routineAmong arities = .ok routine) :
    (function.renameLocals change).routineAmong arities = .ok routine := by
  rw [routineAmong_eq] at ok ⊢
  cases lowered : Lowering.routine arities function with
  | error error =>
    rw [lowered] at ok
    cases ok
  | ok result =>
    rw [Lowering.routine_rename injective lowered, ← lowered]
    exact ok

end

/-- A function of an accepted program may have other names for its parameters and the targets of its
assignments, as long as different ones stay different: the program is still accepted, and its
assembly is the same. -/
theorem Generator.locals_may_be_renamed {generator : Generator} {program : Program}
    {assembly : Assembly} (accepted : program.check = .ok ())
    (generated : (generator.generate program).1 = .ok assembly) {before after : List Function}
    {function : Function} (split : program.functions = before ++ function :: after)
    {change : String → String}
    (injective : Set.InjOn change {name | name ∈ function.localNames}) :
    Program.check ⟨before ++ function.renameLocals change :: after⟩ = .ok () ∧
      (generator.generate ⟨before ++ function.renameLocals change :: after⟩).1 = .ok assembly := by
  obtain ⟨functions⟩ := program
  obtain rfl : functions = before ++ function :: after := split
  obtain ⟨distinct, checks⟩ := (Program.check_eq_ok_iff _).mp accepted
  have member : function ∈ before ++ function :: after := by simp
  -- The renamed function keeps its name and its number of parameters. Every other function sees no
  -- more of it, so it is checked and compiled as before.
  have heads_eq : Program.heads ⟨before ++ function.renameLocals change :: after⟩ =
      Program.heads ⟨before ++ function :: after⟩ := by
    simp [Program.heads]
  have perm := List.Perm.of_eq heads_eq
  constructor
  · rw [Program.check_eq_ok_iff]
    refine ⟨(Program.functionNames_perm perm).nodup_iff.mpr distinct, fun other among => ?_⟩
    rw [Program.check_among_perm perm]
    rcases List.mem_append.mp among with earlier | later
    · exact checks other (List.mem_append_left _ earlier)
    · rcases List.mem_cons.mp later with rfl | later
      · rw [Function.check_ofNames_iff]
        exact ((Function.check_ofNames_iff _ function).mp (checks function member)).renameLocals
          injective
      · exact checks other (List.mem_append_right _ (List.mem_cons_of_mem _ later))
  · obtain ⟨routine, code⟩ := (generator.generates_iff _).mp ⟨assembly, generated⟩ function member
    have same : (before ++ function.renameLocals change :: after).mapM
        (Function.routineAmong (Program.arities ⟨before ++ function :: after⟩)) =
        (before ++ function :: after).mapM
          (Function.routineAmong (Program.arities ⟨before ++ function :: after⟩)) := by
      simp only [List.mapM_append, List.mapM_cons, code,
        Function.routineAmong_renameLocals injective code]
    rw [generate_eq_routines, Program.arities_eq_of_perm distinct perm, same,
      ← generate_eq_routines]
    exact generated

/-- The entry function of a program with `Function.down`. -/
def Function.downFromThree : Function where
  name := "main"
  params := []
  body := [.print ⟨1, 19⟩ (.call ⟨1, 25⟩ "down" [.int ⟨1, 30⟩ 3])]
  position := ⟨1, 1⟩

/-- A function that calls itself. -/
def Function.down : Function where
  name := "down"
  params := [⟨"a", ⟨2, 15⟩⟩]
  body := [
    .branch ⟨2, 20⟩ (.var ⟨2, 24⟩ "a")
      [.assign ⟨2, 29⟩ "x" (.binary ⟨2, 33⟩ (.arithmetic .sub) (.var ⟨2, 33⟩ "a")
        (.int ⟨2, 37⟩ 1)),
        .return_ ⟨2, 40⟩ (some (.call ⟨2, 47⟩ "down" [.var ⟨2, 52⟩ "x"]))] none,
    .return_ ⟨2, 58⟩ (some (.var ⟨2, 65⟩ "a"))]
  position := ⟨2, 1⟩

/-- The local names of `Function.down` become its own name and that of the entry function. -/
def Function.downNames (name : String) : String := if name = "a" then "down" else "main"

theorem Generator.locals_may_be_renamed_toFunctions :
    ∃ assembly,
      ((Generator.ofName "Main").generate ⟨[.downFromThree, .down]⟩).1 = .ok assembly ∧
      Program.check ⟨[.downFromThree, Function.down.renameLocals Function.downNames]⟩ = .ok () ∧
      ((Generator.ofName "Main").generate
        ⟨[.downFromThree, Function.down.renameLocals Function.downNames]⟩).1 = .ok assembly := by
  have generated : ∃ assembly,
      ((Generator.ofName "Main").generate ⟨[.downFromThree, .down]⟩).1 = .ok assembly := ⟨_, rfl⟩
  obtain ⟨assembly, generated⟩ := generated
  have distinct : ∀ first ∈ Function.down.localNames, ∀ second ∈ Function.down.localNames,
      Function.downNames first = Function.downNames second → first = second := by decide
  have split : [Function.downFromThree, .down] = [.downFromThree] ++ .down :: [] := rfl
  refine ⟨assembly, generated, ?_⟩
  apply Generator.locals_may_be_renamed (by decide) generated split
  intro first isLocal second alsoLocal
  exact distinct first isLocal second alsoLocal

end ImpStack

import ImpStack.Proofs.BareStages
import ImpStack.Proofs.Generation
import ImpStack.Proofs.ScopeDecision

/-!
Functions are compiled one by one. Of all that a generator has worked on only its name counts
(SPEC_FULL, section 4.4), and what becomes of a function depends on the function and on the names
and parameter counts of the functions beside it, neither on their order nor on their bodies
(`Generator.functions_compile_separately`).

That generations only keep a name is shown phrase by phrase (`Generation.KeepsName`); what they
yield is read off the lowering, in which no state is left (`Function.routineAmong_eq`).
-/
namespace ImpStack

/-! ### What a generator keeps -/

/-- The generator behind a history of programs, whether or not their code could be generated. -/
def Generator.after (generator : Generator) (history : List Program) : Generator :=
  history.foldl (fun generator program => (generator.generate program).2) generator

namespace Generation

/-- Whether it fails or not, the generation leaves a generator of the same name. -/
def KeepsName {α : Type} (generation : Generation α) : Prop :=
  ∀ generator : Generator, (generation.runOn generator).2.name = generator.name

namespace KeepsName

variable {α β : Type} {generation : Generation α} {next : α → Generation β}

/-- Two generations, also if the first one fails. -/
theorem bind (first : generation.KeepsName) (rest : ∀ result, (next result).KeepsName) :
    (generation >>= next).KeepsName := by
  intro generator
  have kept := first generator
  rw [runOn_bind]
  cases ran : generation.runOn generator with
  | mk result after =>
    rw [ran] at kept
    cases result with
    | error error => exact kept
    | ok result => exact (rest result after).trans kept

/-- A generation that goes on with the generator that it finds. -/
theorem get_bind {next : Generator → Generation β}
    (rest : ∀ generator, ((next generator).runOn generator).2.name = generator.name) :
    ((get : Generation Generator) >>= next).KeepsName := rest

/-- A generation that first replaces the generator by one of the same name. -/
theorem set_bind {next : PUnit → Generation β} {generator changed : Generator}
    (same : changed.name = generator.name) (rest : (next ⟨⟩).KeepsName) :
    (((set changed : Generation PUnit) >>= next).runOn generator).2.name = generator.name :=
  (rest changed).trans same

theorem mapM {step : β → Generation α} (each : ∀ item, (step item).KeepsName) (items : List β) :
    (items.mapM step).KeepsName := by
  induction items with
  | nil => exact fun _ => rfl
  | cons item items ih =>
    rw [List.mapM_cons]
    exact (each item).bind fun _ => ih.bind fun _ _ => rfl

end KeepsName

theorem emit_keepsName (instruction : Instruction Label) : (emit instruction).KeepsName :=
  fun _ => rfl

theorem freshLabel_keepsName : freshLabel.KeepsName := fun _ => rfl

theorem bind_keepsName (label : Label) : (bind label).KeepsName := fun _ => rfl

theorem slotFor_keepsName (name : String) : (slotFor name).KeepsName := fun _ => rfl

theorem existingSlot_keepsName (name : String) (position : Position) :
    (existingSlot name position).KeepsName := by
  intro generator
  rw [runOn_existingSlot]
  split <;> rfl

theorem operator_keepsName (op : BinaryOp) : (operator op).KeepsName := by
  cases op with
  | arithmetic op => exact emit_keepsName _
  | comparison comparison =>
    intro generator
    exact congrArg (fun ran => ran.2.name) (runOn_comparisonValue comparison generator)

mutual

/-- Every case is made of generations that keep the name. -/
theorem expr_keepsName (e : Expr) : (expr e).KeepsName := by
  cases e with
  | int position value => exact emit_keepsName _
  | float position value => exact emit_keepsName _
  | var position name =>
    exact (existingSlot_keepsName name position).bind fun slot => emit_keepsName _
  | binary position op left right =>
    apply (expr_keepsName left).bind
    intro _
    apply (expr_keepsName right).bind
    intro _
    exact operator_keepsName op
  | negate position operand => exact (expr_keepsName operand).bind fun _ => emit_keepsName _
  | call position callee args =>
    apply KeepsName.get_bind
    intro generator
    cases generator.arities callee with
    | none => rfl
    | some arity =>
      by_cases fits : arity = args.length
      · simp only [if_pos fits]
        exact (exprs_keepsName args).bind (fun _ => emit_keepsName _) generator
      · simp only [if_neg fits]
        rfl
  | assign position target value =>
    apply (expr_keepsName value).bind
    intro _
    apply (emit_keepsName _).bind
    intro _
    exact (slotFor_keepsName target).bind fun _ => emit_keepsName _
termination_by structural e

theorem exprs_keepsName (es : List Expr) : (exprs es).KeepsName := by
  cases es with
  | nil => exact fun _ => rfl
  | cons first rest => exact (expr_keepsName first).bind fun _ => exprs_keepsName rest
termination_by structural es

end

theorem condition_keepsName (otherwise : Label) (test : Expr) :
    (condition otherwise test).KeepsName := by
  unfold condition
  split
  · next left right =>
    apply (expr_keepsName left).bind
    intro _
    exact (expr_keepsName right).bind fun _ => emit_keepsName _
  · exact (expr_keepsName test).bind fun _ => emit_keepsName _

theorem defaultReturn_keepsName : defaultReturn.KeepsName := by
  apply KeepsName.get_bind
  intro generator
  cases generator.void <;> rfl

mutual

theorem stmt_keepsName (statement : Stmt) : (stmt statement).KeepsName := by
  cases statement with
  | assign position target value =>
    apply (expr_keepsName value).bind
    intro _
    exact (slotFor_keepsName target).bind fun _ => emit_keepsName _
  | discard position value => exact (expr_keepsName value).bind fun _ => emit_keepsName _
  | print position value => exact (expr_keepsName value).bind fun _ => emit_keepsName _
  | branch position test body alternative =>
    cases alternative with
    | none =>
      apply freshLabel_keepsName.bind
      intro other
      apply freshLabel_keepsName.bind
      intro finish
      apply (condition_keepsName other test).bind
      intro _
      apply (stmts_keepsName body).bind
      intro _
      apply (emit_keepsName _).bind
      intro _
      exact (bind_keepsName other).bind fun _ => bind_keepsName finish
    | some alternative =>
      apply freshLabel_keepsName.bind
      intro other
      apply freshLabel_keepsName.bind
      intro finish
      apply (condition_keepsName other test).bind
      intro _
      apply (stmts_keepsName body).bind
      intro _
      apply (emit_keepsName _).bind
      intro _
      apply (bind_keepsName other).bind
      intro _
      exact (stmts_keepsName alternative).bind fun _ => bind_keepsName finish
  | loop position test body =>
    apply freshLabel_keepsName.bind
    intro start
    apply freshLabel_keepsName.bind
    intro finish
    apply (bind_keepsName start).bind
    intro _
    apply (condition_keepsName finish test).bind
    intro _
    apply (stmts_keepsName body).bind
    intro _
    exact (emit_keepsName _).bind fun _ => bind_keepsName finish
  | return_ position value =>
    cases value with
    | none => exact defaultReturn_keepsName
    | some value => exact (expr_keepsName value).bind fun _ => emit_keepsName _
  | block position body => exact stmts_keepsName body
termination_by structural statement

theorem stmts_keepsName (body : List Stmt) : (stmts body).KeepsName := by
  cases body with
  | nil => exact fun _ => rfl
  | cons first rest => exact (stmt_keepsName first).bind fun _ => stmts_keepsName rest
termination_by structural body

end

theorem fixUp_keepsName : fixUp.KeepsName := by
  apply KeepsName.get_bind
  intro generator
  cases generator.code.mapM generator.labels.resolve <;> rfl

theorem params_keepsName (parameters : List Param) : (params parameters).KeepsName := by
  intro generator
  rw [runOn_params]

/-- A function resets code, labels and slots, and not the name. -/
theorem routine_keepsName (function : Function) : (routine function).KeepsName := by
  apply KeepsName.get_bind
  intro generator
  apply KeepsName.set_bind rfl
  apply (params_keepsName _).bind
  intro _
  apply (stmts_keepsName _).bind
  intro _
  apply defaultReturn_keepsName.bind
  intro _
  exact fixUp_keepsName.bind fun _ _ => rfl

theorem program_keepsName (program : Program) : (Generation.program program).KeepsName := by
  apply KeepsName.get_bind
  intro generator
  apply KeepsName.set_bind rfl
  exact (KeepsName.mapM routine_keepsName _).bind fun _ _ => rfl

end Generation

/-- A history of programs leaves the name. -/
theorem Generator.name_after (generator : Generator) (history : List Program) :
    (generator.after history).name = generator.name := by
  induction history generalizing generator with
  | nil => rfl
  | cons program history ih =>
    exact (ih (generator.generate program).2).trans (Generation.program_keepsName program generator)

/-! ### What the routine of a function depends on -/

/-- The routine of a function among functions with the given arities, or what refuses it. -/
def Function.routineAmong (arities : Arities) (function : Function) :
    Except GenerationError Routine :=
  ((Generation.routine function).runOn { Generator.ofName "" with arities }).1

/-- In every state of the generator a function becomes what lowering makes of it. -/
theorem Generation.runOn_routine (function : Function) (generator : Generator) :
    ((routine function).runOn generator).1 =
      (Lowering.routine generator.arities function).mapError .lowering := by
  apply Follows.result_eq
  exact (routine_follows function generator).weaken fun _ _ _ related => related.1

theorem Function.routineAmong_eq (arities : Arities) (function : Function) :
    function.routineAmong arities = (Lowering.routine arities function).mapError .lowering :=
  Generation.runOn_routine function _

/-- A routine is named for its function. -/
theorem Function.routineAmong_name {arities : Arities} {function : Function} {routine : Routine}
    (ok : function.routineAmong arities = .ok routine) : routine.name = function.name := by
  rw [routineAmong_eq] at ok
  cases lowered : Lowering.routine arities function with
  | error error =>
    rw [lowered] at ok
    cases ok
  | ok result =>
    rw [lowered] at ok
    obtain rfl : result = routine := Except.ok.inj ok
    exact Lowering.routine_name lowered

/-- The code of a program consists of the routines of its functions. -/
theorem Generator.generate_eq_routines (generator : Generator) (program : Program) :
    (generator.generate program).1 =
      (program.functions.mapM (Function.routineAmong program.arities)).map
        (Assembly.mk generator.name) := by
  have each : (program.functions.map id).mapM (Function.routineAmong program.arities) =
      (program.functions.mapM (Lowering.routine program.arities)).mapError .lowering :=
    mapM_map_mapError (Function.routineAmong_eq program.arities) program.functions
  rw [List.map_id] at each
  rw [generate_eq, each, Assembly.ofProgram]
  cases program.functions.mapM (Lowering.routine program.arities) <;> rfl

/-! ### What the check of a function depends on -/

theorem Scope.contains_iff_mem_names (scope : Scope) (name : String) :
    scope.contains name = true ↔ name ∈ scope.names := by
  obtain ⟨entries⟩ := scope
  simp only [contains, get?, names]
  induction entries with
  | nil => simp
  | cons entry rest ih =>
    rw [List.lookup_cons, List.map_cons, List.mem_cons, ← ih]
    by_cases here : name = entry.1
    · simp [here]
    · rw [beq_eq_false_iff_ne.mpr here]
      exact (or_iff_right here).symm

theorem Scope.names_ofNames (names : List String) : (ofNames names).names = names := by
  simp [ofNames, Scope.names, Function.comp_def]

/-- A computation that accords with a search succeeds if the search finds nothing. -/
theorem Accords.eq_done_iff {ε : Type} {refusal : Option ε} {result : Except ε Unit}
    (accords : Accords refusal (fun _ => True) result) : result = .ok () ↔ refusal = none := by
  rw [← accords.eq_ok_iff]
  constructor
  · intro ok
    exact ⟨(), ok⟩
  · rintro ⟨_, ok⟩
    exact ok

/-- Two computations without a result that accord with one search are the same. -/
theorem Accords.unique {ε : Type} {refusal : Option ε} {first second : Except ε Unit}
    (accords : Accords refusal (fun _ => True) first)
    (others : Accords refusal (fun _ => True) second) : first = second := by
  cases refusal with
  | none =>
    obtain ⟨_, rfl, _⟩ := accords
    obtain ⟨_, rfl, _⟩ := others
    rfl
  | some error => exact Eq.trans accords (Eq.symm others)

/-- The check of a function looks at no more of the global frame than at its names. -/
theorem Function.check_congr {global other : Scope}
    (same : ∀ name, global.contains name = other.contains name) (function : Function) :
    function.check global = function.check other := by
  have holds : Scopes.HoldsFunctions other.names other := other.contains_iff_mem_names
  have alike : Scopes.HoldsFunctions other.names global := by
    intro name
    rw [same name]
    exact holds name
  exact (Function.check_accords alike function).unique (Function.check_accords holds function)

/-- Among functions of these names, a function is accepted if it keeps to the rule of scoping. -/
theorem Function.check_ofNames_iff (names : List String) (function : Function) :
    function.check (.ofNames names) = .ok () ↔ function.WellScoped names := by
  have holds : Scopes.HoldsFunctions names (.ofNames names) := by
    intro name
    rw [Scope.contains_iff_mem_names, Scope.names_ofNames]
  rw [← Function.violation?_eq_none_iff, (Function.check_accords holds function).eq_done_iff]

/-- The check accepts a program when its functions have different names and it accepts each of them
among these names. -/
theorem Program.check_eq_ok_iff (program : Program) :
    program.check = .ok () ↔ program.functionNames.Nodup ∧
      ∀ function ∈ program.functions, function.check (.ofNames program.functionNames) = .ok () := by
  rw [program.check_accords.eq_done_iff, Program.violation?_eq_none_iff]
  simp only [Function.check_ofNames_iff]
  constructor
  · intro wellScoped
    exact ⟨wellScoped.functions_distinct, wellScoped.functions_scoped⟩
  · intro parts
    exact ⟨parts.1, parts.2⟩

/-! ### Other orders and other bodies -/

namespace Program

/-- The names of the functions with the numbers of their parameters. -/
def heads (program : Program) : List (String × Nat) :=
  program.functions.map fun function => (function.name, function.arity)

variable {program other : Program}

theorem functionNames_eq_heads (program : Program) :
    program.functionNames = program.heads.map Prod.fst := by
  simp [functionNames, heads]

/-- Programs with the same heads have the same names. -/
theorem functionNames_perm (perm : other.heads.Perm program.heads) :
    other.functionNames.Perm program.functionNames := by
  rw [functionNames_eq_heads, functionNames_eq_heads]
  exact perm.map _

/-- Where names are different, the arity of a name is that of its only function. -/
theorem arities_eq_some_iff (distinct : program.functionNames.Nodup) (name : String)
    (arity : Nat) : program.arities name = some arity ↔ (name, arity) ∈ program.heads := by
  rw [arities_eq, Option.map_eq_some_iff]
  constructor
  · rintro ⟨function, found, rfl⟩
    have member := List.mem_reverse.mp (List.mem_of_find?_eq_some found)
    have named : function.name = name := by simpa using List.find?_some found
    exact List.mem_map.mpr ⟨function, member, named ▸ rfl⟩
  · intro listed
    obtain ⟨function, member, same⟩ := List.mem_map.mp listed
    obtain ⟨rfl, rfl⟩ := Prod.mk.inj same
    exact ⟨function, function?_of_mem distinct member, rfl⟩

/-- Programs with the same heads in different orders have the same arities. -/
theorem arities_eq_of_perm (distinct : program.functionNames.Nodup)
    (perm : other.heads.Perm program.heads) : other.arities = program.arities := by
  have otherDistinct := (functionNames_perm perm).nodup_iff.mpr distinct
  funext name
  apply Option.ext
  intro arity
  rw [arities_eq_some_iff otherDistinct, arities_eq_some_iff distinct]
  exact perm.mem_iff

/-- A function is checked alike among the same names in different orders. -/
theorem check_among_perm (perm : other.heads.Perm program.heads) (function : Function) :
    function.check (.ofNames other.functionNames) =
      function.check (.ofNames program.functionNames) := by
  apply function.check_congr
  intro name
  rw [Bool.eq_iff_iff, Scope.contains_iff_mem_names, Scope.contains_iff_mem_names,
    Scope.names_ofNames, Scope.names_ofNames]
  exact (functionNames_perm perm).mem_iff

end Program

/-- A computation for each of several items succeeds if each of them does. -/
theorem mapM_isOk_iff {ε α β : Type} (step : α → Except ε β) (xs : List α) :
    (∃ ys, xs.mapM step = .ok ys) ↔ ∀ x ∈ xs, ∃ y, step x = .ok y := by
  constructor
  · rintro ⟨ys, ok⟩ x member
    have related : List.Forall₂ (fun y x => step x = .ok y) ys xs := (mapM_forall₂ ok).flip
    obtain ⟨y, _, stepped⟩ := exists_of_forall₂ related member
    exact ⟨y, stepped⟩
  · intro each
    induction xs with
    | nil => exact ⟨[], rfl⟩
    | cons x xs ih =>
      obtain ⟨y, head⟩ := each x List.mem_cons_self
      obtain ⟨ys, tail⟩ := ih fun x member => each x (List.mem_cons_of_mem _ member)
      exact ⟨y :: ys, mapM_cons_ok head tail⟩

namespace Generator

variable {generator : Generator} {program : Program} {assembly : Assembly}

/-- A program has code when each of its functions has code among their arities. -/
theorem generates_iff (generator : Generator) (program : Program) :
    (∃ assembly, (generator.generate program).1 = .ok assembly) ↔
      ∀ function ∈ program.functions, ∃ routine,
        function.routineAmong program.arities = .ok routine := by
  rw [generate_eq_routines, ← mapM_isOk_iff]
  cases program.functions.mapM (Function.routineAmong program.arities) with
  | error error => exact iff_of_false nofun nofun
  | ok routines => exact iff_of_true ⟨_, rfl⟩ ⟨_, rfl⟩

/-- An assembly holds the routine of each function under the name of the function. -/
theorem routine?_of_mem (generated : (generator.generate program).1 = .ok assembly)
    (distinct : program.functionNames.Nodup) {function : Function}
    (member : function ∈ program.functions) :
    ∃ routine, function.routineAmong program.arities = .ok routine ∧
      assembly.routine? function.name = some routine := by
  rw [generate_eq_routines] at generated
  cases ran : program.functions.mapM (Function.routineAmong program.arities) with
  | error error =>
    rw [ran] at generated
    cases generated
  | ok routines =>
    rw [ran] at generated
    obtain rfl : ⟨generator.name, routines⟩ = assembly := Except.ok.inj generated
    -- Functions and routines correspond in order and bear the same names, so both searches stop at
    -- the same place.
    have found := find?_forall₂ (p := fun other => other.name = function.name)
      (q := fun routine => routine.name = function.name) (mapM_forall₂ ran) (by
        intro other routine ok
        rw [Function.routineAmong_name ok])
    rw [Function.find?_of_mem distinct member] at found
    cases reached : routines.find? (·.name = function.name) with
    | none =>
      rw [reached] at found
      cases found
    | some routine =>
      rw [reached] at found
      cases found with
      | some ok => exact ⟨routine, ok, reached⟩

section

variable {changed : Program} {changedAssembly : Assembly} (accepted : program.check = .ok ())
  (generated : (generator.generate program).1 = .ok assembly)
  (perm : changed.heads.Perm program.heads)

include accepted generated perm

/-- A program made of an accepted one's functions in another order, some with other bodies, is
accepted when the functions with new bodies are. -/
theorem accepts_changed_iff :
    (∀ function ∈ changed.functions, function ∉ program.functions →
        function.check (.ofNames program.functionNames) = .ok () ∧
          ∃ routine, function.routineAmong program.arities = .ok routine) ↔
      changed.check = .ok () ∧ ∃ assembly, (generator.generate changed).1 = .ok assembly := by
  obtain ⟨distinct, checks⟩ := program.check_eq_ok_iff.mp accepted
  have codes := (generator.generates_iff program).mp ⟨assembly, generated⟩
  have changedDistinct := (Program.functionNames_perm perm).nodup_iff.mpr distinct
  rw [changed.check_eq_ok_iff, generates_iff, Program.arities_eq_of_perm distinct perm]
  simp only [Program.check_among_perm perm]
  constructor
  · intro fits
    refine ⟨⟨changedDistinct, fun function member => ?_⟩, fun function member => ?_⟩
    · by_cases kept : function ∈ program.functions
      · exact checks function kept
      · exact (fits function member kept).1
    · by_cases kept : function ∈ program.functions
      · exact codes function kept
      · exact (fits function member kept).2
  · rintro ⟨⟨_, changedChecks⟩, changedCodes⟩ function member _
    exact ⟨changedChecks function member, changedCodes function member⟩

/-- A function that both programs have is compiled to the same routine. -/
theorem routine?_unchanged (changedGenerated : (generator.generate changed).1 = .ok changedAssembly)
    {function : Function} (member : function ∈ program.functions)
    (changedMember : function ∈ changed.functions) :
    ∃ routine, assembly.routine? function.name = some routine ∧
      changedAssembly.routine? function.name = some routine := by
  obtain ⟨distinct, _⟩ := program.check_eq_ok_iff.mp accepted
  have changedDistinct := (Program.functionNames_perm perm).nodup_iff.mpr distinct
  obtain ⟨routine, code, found⟩ := routine?_of_mem generated distinct member
  obtain ⟨other, otherCode, otherFound⟩ :=
    routine?_of_mem changedGenerated changedDistinct changedMember
  rw [Program.arities_eq_of_perm distinct perm, code] at otherCode
  obtain rfl := Except.ok.inj otherCode
  exact ⟨routine, found, otherFound⟩

end

/-- What a function is compiled to is settled by the function and by the names and the parameter
counts of the functions beside it.

A generator yields for a program what a new one yields, whatever it has worked on before. In every
state of the generator the routine of a function depends on the function and the arities alone, and
the code of a program consists of these routines. The check of a function depends on the function
and the names in the global frame alone, and the check of a program consists of these checks. So in
an accepted program the functions may stand in another order and have other bodies: the new program
is accepted if each function with a new body is accepted in the old one's company, and no other
function has other code. -/
theorem functions_compile_separately (generator : Generator) :
    (∀ history program,
      ((generator.after history).generate program).1 =
        ((ofName generator.name).generate program).1) ∧
    (∀ function,
      ((Generation.routine function).runOn generator).1 =
        function.routineAmong generator.arities) ∧
    (∀ program,
      (generator.generate program).1 =
        (program.functions.mapM (Function.routineAmong program.arities)).map
          (Assembly.mk generator.name)) ∧
    (∀ function global other, (∀ name, Scope.contains global name = Scope.contains other name) →
      Function.check global function = function.check other) ∧
    (∀ program : Program, program.check = .ok () ↔ program.functionNames.Nodup ∧
      ∀ function ∈ program.functions, function.check (.ofNames program.functionNames) = .ok ()) ∧
    ∀ program assembly, program.check = .ok () → (generator.generate program).1 = .ok assembly →
      ∀ changed : Program, changed.heads.Perm program.heads →
        ((∀ function ∈ changed.functions, function ∉ program.functions →
            function.check (.ofNames program.functionNames) = .ok () ∧
              ∃ routine, function.routineAmong program.arities = .ok routine) ↔
          changed.check = .ok () ∧
            ∃ assembly, (generator.generate changed).1 = .ok assembly) ∧
        ∀ changedAssembly, (generator.generate changed).1 = .ok changedAssembly →
          ∀ function ∈ program.functions, function ∈ changed.functions →
            ∃ routine, assembly.routine? function.name = some routine ∧
              changedAssembly.routine? function.name = some routine := by
  refine ⟨fun history program => ?_, fun function => ?_, generator.generate_eq_routines,
    fun function global other same => function.check_congr same, Program.check_eq_ok_iff, ?_⟩
  · rw [generate_eq, generate_eq, name_after]
    rfl
  · rw [Generation.runOn_routine, Function.routineAmong_eq]
  · intro program assembly accepted generated changed perm
    refine ⟨accepts_changed_iff accepted generated perm, ?_⟩
    intro changedAssembly changedGenerated function member changedMember
    exact routine?_unchanged accepted generated perm changedGenerated member changedMember

end Generator

/-- The entry function calls `twice`, which stands behind it. -/
def Program.doubling : Program where
  functions := [
    ⟨"main", [], [.print ⟨1, 19⟩ (.call ⟨1, 25⟩ "twice" [.int ⟨1, 31⟩ 2])], ⟨1, 1⟩⟩,
    ⟨"twice", [⟨"a", ⟨2, 16⟩⟩],
      [.return_ ⟨2, 21⟩ (some (.binary ⟨2, 28⟩ (.arithmetic .mul) (.var ⟨2, 28⟩ "a")
        (.int ⟨2, 32⟩ 2)))], ⟨2, 1⟩⟩]

/-- The same entry function behind a `twice` of another body. -/
def Program.doublingBySum : Program where
  functions := [
    ⟨"twice", [⟨"b", ⟨1, 16⟩⟩],
      [.assign ⟨1, 21⟩ "main" (.var ⟨1, 28⟩ "b"),
        .return_ ⟨1, 31⟩ (some (.binary ⟨1, 38⟩ (.arithmetic .add) (.var ⟨1, 38⟩ "b")
          (.var ⟨1, 42⟩ "main")))], ⟨1, 1⟩⟩,
    ⟨"main", [], [.print ⟨1, 19⟩ (.call ⟨1, 25⟩ "twice" [.int ⟨1, 31⟩ 2])], ⟨1, 1⟩⟩]

theorem Generator.functions_compile_separately_doubling :
    Program.doublingBySum.check = .ok () ∧
      ∃ routine assembly changedAssembly,
        ((Generator.ofName "Main").generate .doubling).1 = .ok assembly ∧
        ((Generator.ofName "Main").generate .doublingBySum).1 = .ok changedAssembly ∧
        assembly.routine? "main" = some routine ∧
        changedAssembly.routine? "main" = some routine := by
  have generated : ∃ assembly, ((Generator.ofName "Main").generate .doubling).1 = .ok assembly :=
    ⟨_, rfl⟩
  obtain ⟨assembly, generated⟩ := generated
  have separate := (Generator.functions_compile_separately (.ofName "Main")).2.2.2.2.2
    .doubling assembly (by decide) generated .doublingBySum (List.Perm.swap ..)
  obtain ⟨accepted, same⟩ := separate
  have changed := accepted.mp (by
    intro function member _
    rcases List.mem_cons.mp member with rfl | later
    · exact ⟨by decide, _, rfl⟩
    · obtain rfl := List.mem_singleton.mp later
      exact ⟨by decide, _, rfl⟩)
  obtain ⟨checked, changedAssembly, changedGenerated⟩ := changed
  obtain ⟨routine, found, changedFound⟩ := same changedAssembly changedGenerated
    Program.doubling.functions[0] List.mem_cons_self (List.mem_cons_of_mem _ List.mem_cons_self)
  exact ⟨checked, routine, assembly, changedAssembly, generated, changedGenerated, found,
    changedFound⟩

end ImpStack

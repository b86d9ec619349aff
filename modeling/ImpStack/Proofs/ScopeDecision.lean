import ImpStack.Proofs.ScopeCheck
import ImpStack.Proofs.ScopingRule

/-!
The check of scopes decides the rule of scoping: it accepts the programs without a violation and
fails with the first violation of all others (`Program.check_decides_scoping`).

The link between frames and rule is `Knows`: at each point of the traversal the initialized local
names are those that have a value there, and the pending ones are the targets of the assignments
around the point. A phrase keeps it and is refused at its first violation (`checkExpr_accords`,
`checkStmt_accords`). That the names of one block are not taken for those of another one is due to
the traversal, which comes to each block once (`Ahead`).
-/
namespace ImpStack

/-! ### What the frames say of a local name -/

/-- The same place, where the name is initialized by now. -/
def Resolution.marked (resolution : Resolution) : Resolution :=
  { resolution with initialized := true }

/-- Marking one entry is seen at its own name only. -/
theorem lookup_marked (entries : List (String × Bool)) (target name : String) :
    (entries.map fun entry => if entry.1 = target then (target, true) else entry).lookup name =
      if name = target then (entries.lookup target).map fun _ => true else entries.lookup name := by
  induction entries with
  | nil => simp
  | cons entry rest ih =>
    obtain ⟨other, flag⟩ := entry
    by_cases here : other = target
    · subst here
      by_cases same : name = other
      · simp [same]
      · simp [same, List.lookup_cons, beq_eq_false_iff_ne.mpr same, ih]
    · by_cases same : name = other
      · simp [here, same]
      · have apart : target ≠ other := fun equal => here equal.symm
        simp [here, List.lookup_cons, beq_eq_false_iff_ne.mpr same,
          beq_eq_false_iff_ne.mpr apart, ih]

namespace Scope

/-- A newly declared name is found behind all that were there. -/
theorem get?_append_new (scope : Scope) (target name : String) :
    Scope.get? ⟨scope.entries ++ [(target, false)]⟩ name =
      (scope.get? name).or (if name = target then some false else none) := by
  unfold get?
  rw [List.lookup_append]
  by_cases same : name = target
  · simp [same]
  · simp [List.lookup_cons, beq_eq_false_iff_ne.mpr same, same]

theorem define?_eq_none_iff (scope : Scope) (target : String) :
    scope.define? target = none ↔ scope.get? target = none := by
  unfold define? contains
  cases scope.get? target <;> simp

theorem exists_get?_of_define? {scope defined : Scope} {target : String}
    (ok : scope.define? target = some defined) : ∃ flag, scope.get? target = some flag := by
  unfold define? at ok
  split at ok
  · next held => exact Option.isSome_iff_exists.mp held
  · cases ok

/-- Marking a name changes what the frame says of that name alone. -/
theorem get?_of_define? {scope defined : Scope} {target : String}
    (ok : scope.define? target = some defined) (name : String) :
    defined.get? name = if name = target then some true else scope.get? name := by
  unfold define? at ok
  split at ok
  · next held =>
    obtain rfl := Option.some.inj ok
    obtain ⟨flag, found⟩ := Option.isSome_iff_exists.mp held
    unfold get? at found ⊢
    rw [lookup_marked, found, Option.map_some]
  · cases ok

/-- The frame holds the given names and no others, all of them initialized. -/
def HoldsExactly (scope : Scope) (names : List String) : Prop :=
  ∀ name, scope.get? name = if name ∈ names then some true else none

theorem holdsExactly_empty : empty.HoldsExactly [] := fun _ => rfl

theorem HoldsExactly.contains_iff {scope : Scope} {names : List String}
    (holds : scope.HoldsExactly names) (name : String) :
    scope.contains name = true ↔ name ∈ names := by
  unfold contains
  rw [holds]
  by_cases member : name ∈ names <;> simp [member]

/-- Declaring a new name and giving it a value adds it to the names that the frame holds. -/
theorem HoldsExactly.extend {scope : Scope} {names : List String}
    (holds : scope.HoldsExactly names) {name : String} (fresh : name ∉ names) :
    ∃ declared defined, scope.declare? name = some declared ∧
      declared.define? name = some defined ∧ defined.HoldsExactly (names ++ [name]) := by
  have absent : ¬ scope.contains name = true :=
    fun held => fresh ((holds.contains_iff name).mp held)
  have declares : scope.declare? name = some ⟨scope.entries ++ [(name, false)]⟩ := if_neg absent
  cases defines : define? ⟨scope.entries ++ [(name, false)]⟩ name with
  | none =>
    have missing := (define?_eq_none_iff _ name).mp defines
    rw [get?_append_new, holds] at missing
    simp [fresh] at missing
  | some defined =>
    refine ⟨_, defined, declares, defines, fun other => ?_⟩
    rw [get?_of_define? defines, get?_append_new, holds]
    by_cases same : other = name <;> simp [same]

/-- A name that the frame holds cannot be declared in it. -/
theorem HoldsExactly.declare?_eq_none {scope : Scope} {names : List String}
    (holds : scope.HoldsExactly names) {name : String} (known : name ∈ names) :
    scope.declare? name = none :=
  if_pos ((holds.contains_iff name).mpr known)

end Scope

namespace Scopes

/-- Whether a local name is initialized, if it is declared. -/
def localFlag? (scopes : Scopes) (name : String) : Option Bool :=
  (resolveInner? name scopes.inner).map Resolution.initialized

variable {scope : Scope} {outer : List Scope} {global : Scope}

/-- The innermost frame decides, if it has the name. -/
theorem localFlag?_cons (scope : Scope) (outer : List Scope) (global : Scope) (name : String) :
    localFlag? ⟨scope :: outer, global⟩ name =
      (scope.get? name).or (localFlag? ⟨outer, global⟩ name) := by
  unfold localFlag?
  rw [resolveInner?]
  cases scope.get? name <;> rfl

/-- The three refusals of a read, by what the frames hold of the name. -/
theorem checkVariable_eq (scopes : Scopes) (name : String) (position : Position) :
    scopes.checkVariable name position =
      match scopes.localFlag? name with
      | some true => .ok ()
      | some false => .error (.uninitializedVariable name position)
      | none =>
        if scopes.global.contains name then .error (.functionAsValue name position)
        else .error (.undeclaredVariable name position) := by
  unfold checkVariable resolve? localFlag?
  cases found : resolveInner? name scopes.inner with
  | some resolution =>
    obtain ⟨isLocal, _⟩ := resolveInner?_eq_some found
    cases initialized : resolution.initialized <;> simp [isLocal, initialized]
  | none =>
    unfold Scope.contains
    cases scopes.global.get? name <;> simp [Resolution.isGlobal]

/-- The target of an assignment is a local name while its right side is checked; a name that was
none before has no value yet. -/
theorem localFlag?_declareTarget (scope : Scope) (outer : List Scope) (global : Scope)
    (target name : String) :
    (declareTarget ⟨scope :: outer, global⟩ target).localFlag? name =
      (localFlag? ⟨scope :: outer, global⟩ name).or
        (if name = target then some false else none) := by
  -- A target that no frame holds gets a flag that is not set. Otherwise the flag is the one it has.
  rw [declareTarget_eq_ite]
  split
  · next absent =>
    have flagless : localFlag? ⟨scope :: outer, global⟩ target = none := by
      unfold localFlag?
      simp [absent]
    rw [localFlag?_cons, Scope.get?_append_new, localFlag?_cons]
    by_cases same : name = target
    · rw [localFlag?_cons] at flagless
      obtain ⟨inner, rest⟩ := Option.or_eq_none_iff.mp flagless
      simp [same, inner, rest]
    · simp [same]
  · next present =>
    by_cases same : name = target
    · obtain ⟨resolution, found⟩ := Option.ne_none_iff_exists'.mp present
      have flagged : localFlag? ⟨scope :: outer, global⟩ target = some resolution.initialized := by
        unfold localFlag?
        simp [found]
      rw [same, flagged, Option.some_or]
    · simp [same]

theorem length_of_defineInner? {name : String} {frames defined : List Scope}
    (ok : defineInner? name frames = some defined) : defined.length = frames.length := by
  induction frames generalizing defined with
  | nil => cases ok
  | cons scope outer ih =>
    unfold defineInner? at ok
    cases here : scope.define? name with
    | some scope =>
      rw [here] at ok
      obtain rfl := Option.some.inj ok
      rfl
    | none =>
      rw [here] at ok
      obtain ⟨rest, outside, rfl⟩ := Option.map_eq_some_iff.mp ok
      rw [List.length_cons, ih outside, List.length_cons]

theorem define_length (name : String) (scopes : Scopes) :
    (scopes.define name).inner.length = scopes.inner.length := by
  unfold define
  cases inside : defineInner? name scopes.inner with
  | some defined => exact length_of_defineInner? inside
  | none => cases scopes.global.define? name <;> rfl

theorem resolveInner?_cons (name : String) (scope : Scope) (outer : List Scope) :
    resolveInner? name (scope :: outer) =
      ((scope.get? name).map (Resolution.mk (outer.length + 1))).or (resolveInner? name outer) := by
  rw [resolveInner?]
  cases scope.get? name <;> rfl

/-- Marking a name changes what is found of that name alone, and not where it is found. -/
theorem resolveInner?_defineInner? (target : String) (frames : List Scope) (name : String) :
    resolveInner? name ((defineInner? target frames).getD frames) =
      if name = target then (resolveInner? target frames).map Resolution.marked
      else resolveInner? name frames := by
  -- By induction on the frames: the name is marked in the innermost one that holds it, where it is
  -- also resolved.
  induction frames with
  | nil => simp [defineInner?, resolveInner?]
  | cons scope outer ih =>
    rw [defineInner?]
    cases defines : scope.define? target with
    | some defined =>
      obtain ⟨flag, found⟩ := Scope.exists_get?_of_define? defines
      rw [Option.getD_some, resolveInner?_cons, resolveInner?_cons, resolveInner?_cons,
        Scope.get?_of_define? defines]
      by_cases same : name = target <;> simp [same, found, Resolution.marked]
    | none =>
      have absent := (Scope.define?_eq_none_iff scope target).mp defines
      have shape : ((defineInner? target outer).map (scope :: ·)).getD (scope :: outer) =
          scope :: (defineInner? target outer).getD outer := by
        cases defineInner? target outer <;> rfl
      have sameLength : ((defineInner? target outer).getD outer).length = outer.length := by
        cases ok : defineInner? target outer with
        | none => rfl
        | some defined => exact length_of_defineInner? ok
      show resolveInner? name
        (((defineInner? target outer).map (scope :: ·)).getD (scope :: outer)) = _
      rw [shape, resolveInner?_cons, resolveInner?_cons, resolveInner?_cons, sameLength, ih, absent,
        Option.map_none, Option.none_or]
      by_cases same : name = target
      · simp [same, absent]
      · simp [same]

theorem defineInner?_flags (target : String) (frames : List Scope) (name : String) :
    (resolveInner? name ((defineInner? target frames).getD frames)).map Resolution.initialized =
      if name = target then
        ((resolveInner? target frames).map Resolution.initialized).map fun _ => true
      else (resolveInner? name frames).map Resolution.initialized := by
  rw [resolveInner?_defineInner?]
  split
  · cases resolveInner? target frames <;> rfl
  · rfl

/-- A completed assignment marks its target and no other name. -/
theorem localFlag?_define (scopes : Scopes) (target name : String) :
    (scopes.define target).localFlag? name =
      if name = target then (scopes.localFlag? target).map fun _ => true
      else scopes.localFlag? name := by
  have inner : (scopes.define target).inner =
      (defineInner? target scopes.inner).getD scopes.inner := by
    unfold define
    cases defineInner? target scopes.inner with
    | some inner => rfl
    | none => cases scopes.global.define? target <;> rfl
  unfold localFlag?
  rw [inner, defineInner?_flags]

/-! ### What the frames know of the visits so far -/

/-- Behind the visits `before`, at a point of `block` on the right sides of assignments to
`inside`, the initialized local names are those that have a value, and the others that are declared
are those of `inside`. -/
def Knows (params : List String) (before : List Visit) (block : BlockPath) (inside : List String)
    (scopes : Scopes) : Prop :=
  ∀ name, scopes.localFlag? name =
    if HasValue params before block name then some true
    else if name ∈ inside then some false else none

end Scopes

/-- Later visits may give a name a value and take none away. -/
theorem hasValue_append {params : List String} {before later : List Visit} {block : BlockPath}
    {name : String} :
    HasValue params (before ++ later) block name ↔ HasValue params before block name ∨
      ∃ visit ∈ later, visit.use = .assigned name ∧ visit.block <:+ block := by
  unfold HasValue
  simp only [List.mem_append, or_and_right, exists_or, or_assoc]

namespace Scopes.Knows

variable {params inside : List String} {before : List Visit} {block : BlockPath} {scope : Scope}
  {outer : List Scope} {global : Scope} {scopes : Scopes}

/-- Other frames that say the same, at a point where the same names have a value. -/
theorem of_iff {later : List Visit} {inner : BlockPath} {changed : Scopes}
    (knows : Knows params before block inside scopes)
    (same : ∀ name, HasValue params later inner name ↔ HasValue params before block name)
    (flags : ∀ name, changed.localFlag? name = scopes.localFlag? name) :
    Knows params later inner inside changed := by
  intro name
  rw [flags, knows]
  simp only [same]

/-- A visit that completes no assignment changes nothing. -/
theorem behind_use {use : Use} (knows : Knows params before block inside scopes)
    (other : ∀ target, use ≠ .assigned target) :
    Knows params (before ++ [⟨block, use⟩]) block inside scopes := by
  refine knows.of_iff (fun name => ?_) fun _ => rfl
  rw [hasValue_append]
  simp [other]

/-- On the right side of an assignment its target is pending, unless it had a value before. -/
theorem declareTarget (knows : Knows params before block inside ⟨scope :: outer, global⟩)
    (target : String) :
    Knows params before block (target :: inside)
      (Scopes.declareTarget ⟨scope :: outer, global⟩ target) := by
  intro name
  rw [localFlag?_declareTarget, knows]
  by_cases held : HasValue params before block name
  · simp [held]
  · by_cases pending : name ∈ inside
    · simp [held, pending]
    · by_cases same : name = target
      · subst same
        simp [held, pending]
      · simp [held, pending, same]

/-- Behind the right side the target has a value, in its own block and the blocks inside. -/
theorem define {target : String} (knows : Knows params before block (target :: inside) scopes) :
    Knows params (before ++ [⟨block, .assigned target⟩]) block inside (scopes.define target) := by
  intro name
  have extended : HasValue params (before ++ [⟨block, .assigned target⟩]) block name ↔
      HasValue params before block name ∨ target = name := by
    rw [hasValue_append]
    simp
  rw [localFlag?_define, knows, knows]
  by_cases same : name = target
  · subst same
    by_cases held : HasValue params before block name <;> simp [extended, held]
  · have apart : target ≠ name := fun equal => same equal.symm
    simp [extended, same, apart]

/-- In a fresh frame the same names have a value as around it. -/
theorem enter {step : Nat × Bool} (knows : Knows params before block [] scopes)
    (avoids : ∀ visit ∈ before, ¬ step :: block <:+ visit.block) :
    Knows params before (step :: block) [] scopes.enter := by
  refine knows.of_iff (fun name => ?_) fun _ => rfl
  unfold HasValue
  refine or_congr_right (exists_congr fun visit => and_congr_right fun member => ?_)
  refine and_congr_right fun _ => ?_
  rw [List.suffix_cons_iff]
  exact or_iff_right fun here => avoids visit member (here ▸ List.suffix_refl _)

/-- Behind a nested block nothing of it is left. -/
theorem behind_block {step : Nat × Bool} {visits : List Visit}
    (knows : Knows params before block [] scopes)
    (nested : ∀ visit ∈ visits, step :: block <:+ visit.block) :
    Knows params (before ++ visits) block [] scopes := by
  refine knows.of_iff (fun name => ?_) fun _ => rfl
  rw [hasValue_append]
  refine or_iff_left ?_
  rintro ⟨visit, member, _, within⟩
  exact not_step_suffix step block ((nested visit member).trans within)

end Scopes.Knows

/-! ### The check of expressions -/

namespace Scopes

section

variable {functions params : List String} {global : Scope}

/-- The global frame holds the names of the functions. -/
def HoldsFunctions (functions : List String) (global : Scope) : Prop :=
  ∀ name, global.contains name = true ↔ name ∈ functions

/-- A read is refused with the violation of the rule at it, if there is one. -/
theorem checkVariable_accords {inside : List String} {before : List Visit} {block : BlockPath}
    {scopes : Scopes} (names : HoldsFunctions functions scopes.global)
    (knows : Knows params before block inside scopes) (name : String) (position : Position) :
    Accords (Visit.violation? functions params before ⟨block, .read name position inside⟩)
      (fun _ => True) (scopes.checkVariable name position) := by
  rw [checkVariable_eq, knows]
  unfold Visit.violation?
  by_cases held : HasValue params before block name
  · simp only [held, if_true]
    exact .ok trivial
  · by_cases pending : name ∈ inside
    · simp [held, pending, Accords]
    · by_cases function : name ∈ functions
      · simp [held, pending, (names name).mpr function, function, Accords]
      · have absent : ¬ scopes.global.contains name = true := fun held =>
          function ((names name).mp held)
        simp [held, pending, absent, function, Accords]

mutual

/-- The check of an expression comes to its visits in order and stops at the first that violates the
rule. -/
theorem checkExpr_accords (e : Expr) {scope : Scope} {outer : List Scope} {inside : List String}
    {before : List Visit} {block : BlockPath} (outerSettled : ∀ scope ∈ outer, scope.Settled)
    (names : HoldsFunctions functions global)
    (knows : Knows params before block inside ⟨scope :: outer, global⟩) :
    Accords (firstRefusal (Visit.violation? functions params) before (e.visits block inside))
      (Knows params (before ++ e.visits block inside) block inside)
      (checkExpr ⟨scope :: outer, global⟩ e) := by
  cases e with
  | int position value => exact .ok ((List.append_nil before).symm ▸ knows)
  | float position value => exact .ok ((List.append_nil before).symm ▸ knows)
  | var position name =>
    refine (checkVariable_accords names knows name position).bind fun _ _ _ => ?_
    exact .ok (knows.behind_use (by simp))
  | binary position op left right =>
    rw [Expr.visits_binary, firstRefusal_append, checkExpr, ← List.append_assoc]
    refine (checkExpr_accords left outerSettled names knows).bind fun middle ok knows => ?_
    obtain ⟨between, rfl, _⟩ := checkExpr_eq left outerSettled ok
    exact checkExpr_accords right outerSettled names knows
  | negate position operand =>
    exact checkExpr_accords operand outerSettled names knows
  | call position callee args =>
    rw [Expr.visits_call, firstRefusal, checkExpr, Visit.violation?_call,
      List.append_cons before _ (Expr.visitsOfAll block inside args)]
    by_cases known : callee ∈ functions
    · have found : isFunction ⟨scope :: outer, global⟩ callee = true := (names callee).mpr known
      rw [if_pos found, if_pos known, Option.none_or]
      exact checkArgs_accords args outerSettled names (knows.behind_use (by simp))
    · have missing : ¬ isFunction ⟨scope :: outer, global⟩ callee = true :=
        fun found => known ((names callee).mp found)
      rw [if_neg missing, if_neg known, Option.some_or]
      rfl
  | assign position target value =>
    rw [Expr.visits_assign, firstRefusal_append, checkExpr, ← List.append_assoc]
    obtain ⟨declared, declared_eq, _⟩ := declareTarget_eq scope outer global target
    have declares := knows.declareTarget target
    rw [declared_eq] at declares ⊢
    refine (checkExpr_accords value outerSettled names declares).bind fun valued _ knows => ?_
    exact .ok knows.define
termination_by structural e

theorem checkArgs_accords (args : List Expr) {scope : Scope} {outer : List Scope}
    {inside : List String} {before : List Visit} {block : BlockPath}
    (outerSettled : ∀ scope ∈ outer, scope.Settled) (names : HoldsFunctions functions global)
    (knows : Knows params before block inside ⟨scope :: outer, global⟩) :
    Accords (firstRefusal (Visit.violation? functions params) before
        (Expr.visitsOfAll block inside args))
      (Knows params (before ++ Expr.visitsOfAll block inside args) block inside)
      (checkArgs ⟨scope :: outer, global⟩ args) := by
  cases args with
  | nil => exact .ok ((List.append_nil before).symm ▸ knows)
  | cons first rest =>
    rw [Expr.visitsOfAll_cons, firstRefusal_append, checkArgs, ← List.append_assoc]
    refine (checkExpr_accords first outerSettled names knows).bind fun middle ok knows => ?_
    obtain ⟨between, rfl, _⟩ := checkExpr_eq first outerSettled ok
    exact checkArgs_accords rest outerSettled names knows
termination_by structural args

end

/-! ### The check of statements -/

/-- No visit so far lies in the statement number `index` of `block` or behind it. -/
def Ahead (block : BlockPath) (index : Nat) (before : List Visit) : Prop :=
  ∀ visit ∈ before, ∀ number other, (number, other) :: block <:+ visit.block → number < index

namespace Ahead

variable {block : BlockPath} {index : Nat} {before visits : List Visit}

theorem avoids (ahead : Ahead block index before) (other : Bool) :
    ∀ visit ∈ before, ¬ (index, other) :: block <:+ visit.block :=
  fun visit member within => Nat.lt_irrefl _ (ahead visit member index other within)

/-- Nothing lies in a block that is just being entered. -/
theorem enter {step : Nat × Bool} (avoids : ∀ visit ∈ before, ¬ step :: block <:+ visit.block) :
    Ahead (step :: block) 0 before :=
  fun visit member _ _ within => absurd (suffix_of_step within) (avoids visit member)

/-- A test lies in the block of its statement, not in one of the nested blocks. -/
theorem behind_expr (ahead : Ahead block index before) (e : Expr) :
    Ahead block index (before ++ e.visits block []) := by
  intro visit member number other within
  rcases List.mem_append.mp member with earlier | here
  · exact ahead visit earlier number other within
  · exact absurd (Expr.block_of_mem_visits here ▸ within) (not_step_suffix _ block)

/-- The visits of a statement lie in its own block or in nested blocks of its number. -/
theorem behind (ahead : Ahead block index before) (statement : Stmt) :
    Ahead block (index + 1) (before ++ statement.visits block index) := by
  intro visit member number other within
  rcases List.mem_append.mp member with earlier | here
  · exact Nat.lt_succ_of_lt (ahead visit earlier number other within)
  · rcases statement.place_of_mem_visits here with direct | ⟨flag, inner⟩
    · exact absurd (direct ▸ within) (not_step_suffix _ block)
    · cases step_eq_of_suffix within inner
      exact Nat.lt_succ_self index

end Ahead

/-- What the check of a block's statements finds. -/
def BodyAccords (functions params : List String) (body : List Stmt) : Prop :=
  ∀ {scope outer global before block index}, (∀ inner ∈ scope :: outer, inner.Settled) →
    HoldsFunctions functions global → Knows params before block [] ⟨scope :: outer, global⟩ →
    Ahead block index before →
    Accords (firstRefusal (Visit.violation? functions params) before
        (Stmt.visitsOfAll block index body))
      (Knows params (before ++ Stmt.visitsOfAll block index body) block [])
      (checkBody ⟨scope :: outer, global⟩ body)

/-- A nested block is checked by itself and leaves the frames as they were. -/
theorem BodyAccords.nested {body : List Stmt} {scope : Scope} {outer : List Scope}
    {before : List Visit} {block : BlockPath} {step : Nat × Bool}
    (accords : BodyAccords functions params body)
    (settled : ∀ inner ∈ scope :: outer, inner.Settled)
    (names : HoldsFunctions functions global)
    (knows : Knows params before block [] ⟨scope :: outer, global⟩)
    (avoids : ∀ visit ∈ before, ¬ step :: block <:+ visit.block) :
    Accords (firstRefusal (Visit.violation? functions params) before
        (Stmt.visitsOfAll (step :: block) 0 body))
      (fun inside => inside.exit = ⟨scope :: outer, global⟩ ∧
        Knows params (before ++ Stmt.visitsOfAll (step :: block) 0 body) block [] inside.exit)
      (checkBody (enter ⟨scope :: outer, global⟩) body) := by
  have entered : Knows params before (step :: block) [] ⟨.empty :: scope :: outer, global⟩ :=
    knows.enter avoids
  refine (accords (settled_cons settled Scope.settled_empty) names entered
    (Ahead.enter avoids)).weaken fun inside ok _ => ?_
  have exited : inside.exit = ⟨scope :: outer, global⟩ := exit_eq (checkBody_eq body) settled ok
  have within : ∀ visit ∈ Stmt.visitsOfAll (step :: block) 0 body, step :: block <:+ visit.block :=
    fun visit => Stmt.suffix_of_mem_visitsOfAll body
  exact ⟨exited, exited ▸ knows.behind_block within⟩

mutual

/-- A statement goes on with the frames and visits behind it. The blocks of a branch share its
number and are told apart by the flag. -/
theorem checkStmt_accords (statement : Stmt) {scope : Scope} {outer : List Scope} {global : Scope}
    {before : List Visit} {block : BlockPath} {index : Nat}
    (settled : ∀ inner ∈ scope :: outer, inner.Settled)
    (names : HoldsFunctions functions global)
    (knows : Knows params before block [] ⟨scope :: outer, global⟩)
    (ahead : Ahead block index before) :
    Accords (firstRefusal (Visit.violation? functions params) before
        (statement.visits block index))
      (Knows params (before ++ statement.visits block index) block [])
      (checkStmt ⟨scope :: outer, global⟩ statement) := by
  have outerSettled := settled_outer settled
  cases statement with
  | assign position target value =>
    have same : (Stmt.assign position target value).visits block index =
        (Expr.assign position target value).visits block [] := (Expr.visits_assign ..).symm
    rw [same]
    exact checkExpr_accords (.assign position target value) outerSettled names knows
  | discard position value => exact checkExpr_accords value outerSettled names knows
  | print position value => exact checkExpr_accords value outerSettled names knows
  | branch position test body alternative =>
    cases alternative with
    | none =>
      rw [Stmt.visits, firstRefusal_append, checkStmt, ← List.append_assoc]
      refine (checkExpr_accords test outerSettled names knows).bind fun tested ok knows => ?_
      obtain ⟨behind, rfl, grows⟩ := checkExpr_eq test outerSettled ok
      exact (BodyAccords.nested (checkBody_accords body) (settled_behind settled grows) names knows
        ((ahead.behind_expr test).avoids false)).map fun _ _ exited => exited.2
    | some alternative =>
      rw [Stmt.visits, firstRefusal_append, firstRefusal_append, checkStmt, ← List.append_assoc,
        ← List.append_assoc]
      refine (checkExpr_accords test outerSettled names knows).bind fun tested ok knows => ?_
      obtain ⟨behind, rfl, grows⟩ := checkExpr_eq test outerSettled ok
      have behindSettled := settled_behind settled grows
      have avoids := (ahead.behind_expr test).avoids
      refine (BodyAccords.nested (checkBody_accords body) behindSettled names knows
        (avoids false)).bind fun inside _ ⟨left, knows⟩ => ?_
      rw [left] at knows
      simp only [left]
      -- The visits of the body are inside the other block of the statement, so none of them is
      -- inside that of the alternative.
      have avoidsBoth : ∀ visit ∈ before ++ test.visits block [] ++
          Stmt.visitsOfAll ((index, false) :: block) 0 body,
          ¬ (index, true) :: block <:+ visit.block := by
        intro visit member within
        rcases List.mem_append.mp member with earlier | here
        · exact avoids true visit earlier within
        · cases step_eq_of_suffix within (Stmt.suffix_of_mem_visitsOfAll body here)
      exact (BodyAccords.nested (checkBody_accords alternative) behindSettled names knows
        avoidsBoth).map fun _ _ exited => exited.2
  | loop position test body =>
    rw [Stmt.visits, firstRefusal_append, checkStmt, ← List.append_assoc]
    refine (checkExpr_accords test outerSettled names knows).bind fun tested ok knows => ?_
    obtain ⟨behind, rfl, grows⟩ := checkExpr_eq test outerSettled ok
    exact (BodyAccords.nested (checkBody_accords body) (settled_behind settled grows) names knows
      ((ahead.behind_expr test).avoids false)).map fun _ _ exited => exited.2
  | return_ position value =>
    cases value with
    | none => exact .ok ((List.append_nil before).symm ▸ knows)
    | some value => exact checkExpr_accords value outerSettled names knows
  | block position body =>
    exact (BodyAccords.nested (checkBody_accords body) settled names knows
      (ahead.avoids false)).map fun _ _ exited => exited.2
termination_by structural statement

theorem checkBody_accords (body : List Stmt) : BodyAccords functions params body := by
  intro scope outer global before block index settled names knows ahead
  cases body with
  | nil => exact .ok ((List.append_nil before).symm ▸ knows)
  | cons first rest =>
    rw [Stmt.visitsOfAll, firstRefusal_append, checkBody, ← List.append_assoc]
    refine (checkStmt_accords first settled names knows ahead).bind fun middle ok knows => ?_
    obtain ⟨between, rfl, grows⟩ := checkStmt_eq first settled ok
    exact checkBody_accords rest (settled_behind settled grows) names knows (ahead.behind first)
termination_by structural body

end

/-! ### The check of parameters and functions -/

/-- The frame of the parameters holds those that have been checked, which is how a repeated one is
noticed. -/
theorem checkParams_accords (before xs : List Param) {scope : Scope}
    (holds : scope.HoldsExactly (before.map Param.name)) :
    Accords (firstRefusal (repeated? Param.name Param.position) before xs)
      (fun after => ∃ behind, after = ⟨[behind], global⟩ ∧
        behind.HoldsExactly ((before ++ xs).map Param.name))
      (checkParams ⟨[scope], global⟩ xs) := by
  induction xs generalizing before scope with
  | nil => exact .ok ⟨scope, rfl, by simpa using holds⟩
  | cons param rest ih =>
    rw [firstRefusal, checkParams]
    by_cases again : param.name ∈ before.map Param.name
    · have refuses : declare? ⟨[scope], global⟩ param.name = none := by
        simp [declare?, holds.declare?_eq_none again]
      simp only [refuses, repeated?, if_pos again, Option.some_or]
      rfl
    · obtain ⟨declared, defined, declares, defines, extended⟩ := holds.extend again
      have declaresAll : declare? ⟨[scope], global⟩ param.name = some ⟨[declared], global⟩ := by
        simp [declare?, declares]
      have definesAll : define ⟨[declared], global⟩ param.name = ⟨[defined], global⟩ := by
        simp [define, defineInner?, defines]
      have names_eq :
          (before ++ [param]).map Param.name = before.map Param.name ++ [param.name] := by
        simp
      simp only [declaresAll, definesAll, repeated?, if_neg again, Option.none_or]
      rw [List.append_cons before param rest]
      exact ih _ (names_eq ▸ extended)

end

end Scopes

/-- A function is refused with its first violation, parameters first. -/
theorem Function.check_accords {functions : List String} {global : Scope}
    (names : Scopes.HoldsFunctions functions global) (function : Function) :
    Accords (function.violation? functions) (fun _ => True) (function.check global) := by
  unfold Function.check Function.violation?
  refine (Scopes.checkParams_accords [] function.params Scope.holdsExactly_empty).bind ?_
  rintro _ params_ok ⟨params, rfl, holds⟩
  obtain ⟨_, same, settled, _⟩ := Scopes.checkParams_ok Scope.settled_empty params_ok
  cases same
  have allSettled : ∀ inner ∈ [.empty, params], Scope.Settled inner := by
    simp [settled, Scope.settled_empty]
  have holds : params.HoldsExactly function.paramNames := holds
  have knows : Scopes.Knows function.paramNames [] [] [] ⟨[.empty, params], global⟩ := by
    intro name
    have valued : HasValue function.paramNames [] [] name ↔ name ∈ function.paramNames := by
      simp [HasValue]
    rw [Scopes.localFlag?_cons, Scopes.localFlag?_cons, holds]
    by_cases param : name ∈ function.paramNames <;>
      simp [valued, param, Scope.empty, Scope.get?, Scopes.localFlag?, Scopes.resolveInner?]
  have ahead : Scopes.Ahead [] 0 [] := by
    intro visit member
    cases member
  exact (Scopes.checkBody_accords function.body allSettled names knows ahead).map
    fun _ _ _ => trivial

/-- Declaring functions fails at the first that repeats an earlier name. -/
theorem declareFunctions_eq (before xs : List Function) {global : Scope}
    (holds : global.HoldsExactly (before.map Function.name)) :
    match firstRefusal (repeated? Function.name Function.position) before xs with
    | none => ∃ declared, declareFunctions global xs = (.ok (), declared) ∧
        declared.HoldsExactly ((before ++ xs).map Function.name)
    | some error => ∃ declared, declareFunctions global xs = (.error error, declared) := by
  induction xs generalizing before global with
  | nil => exact ⟨global, rfl, by simpa using holds⟩
  | cons function rest ih =>
    rw [firstRefusal, declareFunctions]
    by_cases again : function.name ∈ before.map Function.name
    · simp only [holds.declare?_eq_none again, repeated?, if_pos again, Option.some_or]
      exact ⟨global, rfl⟩
    · obtain ⟨declared, defined, declares, defines, extended⟩ := holds.extend again
      have names_eq : (before ++ [function]).map Function.name =
          before.map Function.name ++ [function.name] := by
        simp
      simp only [declares, defines, Option.getD_some, repeated?, if_neg again, Option.none_or]
      rw [List.append_cons before function rest]
      exact ih _ (names_eq ▸ extended)

/-- A search through items that are refused by themselves. -/
theorem forM_accords {α ε : Type} {step : α → Except ε Unit} {refuse : α → Option ε} (xs : List α)
    (accords : ∀ x, Accords (refuse x) (fun _ => True) (step x)) (before : List α) :
    Accords (firstRefusal (fun _ => refuse) before xs) (fun _ => True) (xs.forM step) := by
  induction xs generalizing before with
  | nil => exact .ok trivial
  | cons x rest ih =>
    exact (accords x).bind fun _ _ _ => ih (before ++ [x])

/-- The check of a program fails with the first violation of the rule and accepts a program that has
none. -/
theorem Program.check_accords (program : Program) :
    Accords program.violation? (fun _ => True) program.check := by
  unfold Program.check Program.checkWithin Program.violation?
  have declares := declareFunctions_eq [] program.functions Scope.holdsExactly_empty
  cases refused : firstRefusal (repeated? Function.name Function.position) [] program.functions with
  | some error =>
    rw [refused] at declares
    obtain ⟨declared, declares⟩ := declares
    rw [declares, Option.some_or]
    rfl
  | none =>
    rw [refused] at declares
    obtain ⟨declared, declares, holds⟩ := declares
    rw [declares, Option.none_or]
    exact forM_accords program.functions (Function.check_accords holds.contains_iff) []

/-- The check of scopes decides the rule of scoping, and the error of a program that it refuses is
the program's first violation. -/
theorem Program.check_decides_scoping (program : Program) :
    (program.check = .ok () ↔ program.WellScoped) ∧
      ∀ error, program.check = .error error ↔ program.FirstViolation error := by
  have accords := program.check_accords
  constructor
  · rw [← Program.violation?_eq_none_iff, ← accords.eq_ok_iff]
    exact ⟨fun ok => ⟨(), ok⟩, fun ⟨_, ok⟩ => ok⟩
  · intro error
    rw [← Program.violation?_eq_some_iff]
    exact accords.eq_error_iff error

end ImpStack

import ImpStack.Proofs.Lowering
import ImpStack.Scope.Check

/-!
What the check of scopes does to the frames. Expressions and statements only touch the innermost
frame, where names become initialized and none is left pending (`Grows`); the frame of a nested
block is gone behind it. So the frames outside, which are settled when a function begins, stay
settled (`checkExpr_eq`, `checkStmt_eq`).

An assignment is the one place where a name is pending: its target is declared in front of the right
side and initialized behind it (`assign_eq`). `Function.check_ok` says what all this comes to for a
function.
-/
namespace ImpStack

namespace Scope

/-- Every declared name is initialized. -/
def Settled (scope : Scope) : Prop := ∀ name, (name, false) ∉ scope.entries

/-- Initialized names stay so, and no name is declared without becoming initialized. -/
structure Grows (before after : Scope) : Prop where
  initialized : ∀ name, (name, true) ∈ before.entries → (name, true) ∈ after.entries
  pending : ∀ name, (name, false) ∈ after.entries → (name, false) ∈ before.entries
  declared : ∀ name, before.contains name = true → after.contains name = true

theorem Grows.refl (scope : Scope) : scope.Grows scope := ⟨fun _ => id, fun _ => id, fun _ => id⟩

theorem Grows.trans {first second third : Scope} (left : first.Grows second)
    (right : second.Grows third) : first.Grows third where
  initialized name known := right.initialized name (left.initialized name known)
  pending name open_ := left.pending name (right.pending name open_)
  declared name known := right.declared name (left.declared name known)

/-- No name is pending behind a phrase if none was in front of it. -/
theorem Grows.settled {before after : Scope} (grows : before.Grows after)
    (settled : before.Settled) : after.Settled :=
  fun name open_ => settled name (grows.pending name open_)

theorem settled_empty : Scope.empty.Settled := by
  intro name open_
  cases open_

theorem mem_of_get? {scope : Scope} {name : String} {initialized : Bool}
    (found : scope.get? name = some initialized) : (name, initialized) ∈ scope.entries := by
  obtain ⟨before, after, entries_eq, _⟩ := List.lookup_eq_some_iff.mp found
  rw [entries_eq]
  simp

theorem contains_of_mem {scope : Scope} {name : String} {initialized : Bool}
    (member : (name, initialized) ∈ scope.entries) : scope.contains name = true := by
  unfold contains get?
  rw [Option.isSome_iff_ne_none]
  intro missing
  have different := List.lookup_eq_none_iff.mp missing (name, initialized) member
  simp at different

/-- The frame with one more name, which has no value yet. -/
theorem entries_of_declare? {scope declared : Scope} {name : String}
    (ok : scope.declare? name = some declared) :
    declared.entries = scope.entries ++ [(name, false)] := by
  unfold declare? at ok
  split at ok
  · cases ok
  · obtain rfl := Option.some.inj ok
    rfl

theorem contains_of_declare? {scope declared : Scope} {target name : String}
    (ok : scope.declare? target = some declared)
    (held : name = target ∨ scope.contains name = true) :
    declared.contains name = true := by
  have entries_eq := entries_of_declare? ok
  obtain rfl | before := held
  · exact contains_of_mem (by simp [entries_eq] : (name, false) ∈ declared.entries)
  · obtain ⟨initialized, found⟩ := Option.isSome_iff_exists.mp before
    exact contains_of_mem (by simp [entries_eq, mem_of_get? found] : (name, initialized) ∈ _)

theorem not_contains_of_declare? {scope declared : Scope} {target : String}
    (ok : scope.declare? target = some declared) : scope.contains target = false := by
  unfold declare? at ok
  split at ok
  · cases ok
  · next absent => simpa using absent

/-- Of the defined name the frame says that it is initialized, of the others what it said. -/
theorem mem_of_define? {scope defined : Scope} {target name : String} {initialized : Bool}
    (ok : scope.define? target = some defined) :
    (name, initialized) ∈ defined.entries ↔
      (name ≠ target ∧ (name, initialized) ∈ scope.entries) ∨
        (name = target ∧ initialized = true) := by
  unfold define? at ok
  split at ok
  · next held =>
    obtain rfl := Option.some.inj ok
    simp only [List.mem_map]
    constructor
    · rintro ⟨⟨other, flag⟩, member, same⟩
      split at same
      · next here =>
        obtain ⟨rfl, rfl⟩ := Prod.mk.inj same
        exact .inr ⟨rfl, rfl⟩
      · next elsewhere =>
        obtain ⟨rfl, rfl⟩ := Prod.mk.inj same
        exact .inl ⟨elsewhere, member⟩
    · rintro (⟨different, member⟩ | ⟨rfl, rfl⟩)
      · exact ⟨_, member, if_neg different⟩
      · obtain ⟨flag, found⟩ := Option.isSome_iff_exists.mp held
        exact ⟨_, mem_of_get? found, if_pos rfl⟩
  · cases ok

/-- In a settled frame there is nothing left to initialize. -/
theorem Settled.define? {scope defined : Scope} (settled : scope.Settled) {target : String}
    (ok : scope.define? target = some defined) : defined = scope := by
  unfold Scope.define? at ok
  split at ok
  · obtain rfl := Option.some.inj ok
    have same : ∀ entry ∈ scope.entries,
        (if entry.1 = target then (target, true) else entry) = entry := by
      intro entry member
      split
      · next here =>
        obtain ⟨name, initialized⟩ := entry
        obtain rfl : name = target := here
        cases initialized with
        | true => rfl
        | false => exact absurd member (settled name)
      · rfl
    rw [List.map_congr_left same, List.map_id']
  · cases ok

theorem contains_of_define? {scope defined : Scope} {target name : String}
    (ok : scope.define? target = some defined) (held : scope.contains name = true) :
    defined.contains name = true := by
  obtain ⟨initialized, found⟩ := Option.isSome_iff_exists.mp held
  by_cases same : name = target
  · exact contains_of_mem ((mem_of_define? ok).mpr (.inr ⟨same, rfl⟩))
  · exact contains_of_mem ((mem_of_define? ok).mpr (.inl ⟨same, mem_of_get? found⟩))

end Scope

namespace Scopes

variable {scope : Scope} {outer : List Scope} {global : Scope} {target name : String}

/-- A name that is found inside the global frame is held by one of the frames there. -/
theorem resolveInner?_eq_some {scopes : List Scope} {resolution : Resolution}
    (found : resolveInner? name scopes = some resolution) :
    resolution.isGlobal = false ∧
      ∃ scope ∈ scopes, scope.get? name = some resolution.initialized := by
  induction scopes with
  | nil => cases found
  | cons scope outer ih =>
    unfold resolveInner? at found
    split at found
    · next initialized here =>
      obtain rfl := Option.some.inj found
      exact ⟨by simp [Resolution.isGlobal], scope, List.mem_cons_self .., here⟩
    · obtain ⟨inner, holder, member, here⟩ := ih found
      exact ⟨inner, holder, List.mem_cons_of_mem _ member, here⟩

theorem get?_of_resolveInner?_eq_none {scopes : List Scope}
    (missing : resolveInner? name scopes = none) :
    ∀ scope ∈ scopes, scope.contains name = false := by
  induction scopes with
  | nil => simp
  | cons scope outer ih =>
    unfold resolveInner? at missing
    split at missing
    · cases missing
    · next absent =>
      intro other member
      obtain rfl | member := List.mem_cons.mp member
      · simp [Scope.contains, absent]
      · exact ih missing other member

/-- An assignment declares its target in the innermost frame unless it is a local name already. -/
theorem declareTarget_eq_ite (scope : Scope) (outer : List Scope) (global : Scope)
    (target : String) :
    declareTarget ⟨scope :: outer, global⟩ target =
      if resolveInner? target (scope :: outer) = none then
        ⟨⟨scope.entries ++ [(target, false)]⟩ :: outer, global⟩
      else ⟨scope :: outer, global⟩ := by
  unfold declareTarget resolve?
  cases found : resolveInner? target (scope :: outer) with
  | some resolution =>
    obtain ⟨inner, _⟩ := resolveInner?_eq_some found
    simp [inner]
  | none =>
    have absent := get?_of_resolveInner?_eq_none found scope (List.mem_cons_self ..)
    have declared : scope.declare? target = some ⟨scope.entries ++ [(target, false)]⟩ := by
      unfold Scope.declare?
      simp [absent]
    cases global.get? target with
    | none => simp [declare?, declared]
    | some initialized => simp [declare?, declared, Resolution.isGlobal]

/-- An assignment may declare its target in the innermost frame; afterwards the target is a local
name. -/
theorem declareTarget_eq (scope : Scope) (outer : List Scope) (global : Scope) (target : String) :
    ∃ declared, declareTarget ⟨scope :: outer, global⟩ target = ⟨declared :: outer, global⟩ ∧
      (declared = scope ∨ declared.entries = scope.entries ++ [(target, false)]) ∧
      ∃ holder ∈ declared :: outer, holder.contains target = true := by
  rw [declareTarget_eq_ite]
  cases found : resolveInner? target (scope :: outer) with
  | some resolution =>
    obtain ⟨_, holder, member, here⟩ := resolveInner?_eq_some found
    refine ⟨scope, ?_, .inl rfl, holder, member, ?_⟩
    · simp
    · simp [Scope.contains, here]
  | none =>
    refine ⟨⟨scope.entries ++ [(target, false)]⟩, ?_, .inr rfl, _, List.mem_cons_self .., ?_⟩
    · simp
    · exact Scope.contains_of_mem (by simp : (target, false) ∈ _)

/-- Where all names are initialized a definition has nothing to change. -/
theorem defineInner?_of_settled {scopes : List Scope} (settled : ∀ scope ∈ scopes, scope.Settled)
    (held : ∃ scope ∈ scopes, scope.contains target = true) :
    defineInner? target scopes = some scopes := by
  induction scopes with
  | nil => simp at held
  | cons scope outer ih =>
    unfold defineInner?
    cases ok : scope.define? target with
    | some defined => rw [(settled scope (List.mem_cons_self ..)).define? ok]
    | none =>
      have absent : scope.contains target = false := by
        unfold Scope.define? at ok
        split at ok
        · cases ok
        · next absent => simpa using absent
      obtain ⟨holder, member, here⟩ := held
      have inner : ∃ scope ∈ outer, scope.contains target = true := by
        obtain rfl | member := List.mem_cons.mp member
        · rw [absent] at here
          cases here
        · exact ⟨holder, member, here⟩
      rw [ih (fun scope member => settled scope (List.mem_cons_of_mem _ member)) inner]
      rfl

/-- A local name becomes initialized; if it is one of an outer frame it was so before. -/
theorem define_eq (global : Scope) (outerSettled : ∀ scope ∈ outer, scope.Settled)
    (held : ∃ holder ∈ scope :: outer, holder.contains target = true) :
    ∃ defined, define ⟨scope :: outer, global⟩ target = ⟨defined :: outer, global⟩ ∧
      scope.Grows defined ∧ (target, false) ∉ defined.entries ∧
      ∀ name, (name, true) ∈ defined.entries → name = target ∨ (name, true) ∈ scope.entries := by
  unfold define defineInner?
  cases ok : scope.define? target with
  | some defined =>
    refine ⟨defined, rfl, ⟨?_, ?_, fun name => Scope.contains_of_define? ok⟩, ?_, ?_⟩
    · intro name known
      by_cases same : name = target
      · exact (Scope.mem_of_define? ok).mpr (.inr ⟨same, rfl⟩)
      · exact (Scope.mem_of_define? ok).mpr (.inl ⟨same, known⟩)
    · intro name open_
      obtain ⟨_, before⟩ | ⟨_, impossible⟩ := (Scope.mem_of_define? ok).mp open_
      · exact before
      · cases impossible
    · intro open_
      obtain ⟨different, _⟩ | ⟨_, impossible⟩ := (Scope.mem_of_define? ok).mp open_
      · exact different rfl
      · cases impossible
    · intro name known
      obtain ⟨_, before⟩ | ⟨same, _⟩ := (Scope.mem_of_define? ok).mp known
      · exact .inr before
      · exact .inl same
  | none =>
    -- An outer frame holds the name. It is settled, so the name is initialized there already and
    -- nothing changes.
    have absent : ¬ scope.contains target = true := by
      unfold Scope.define? at ok
      split at ok
      · cases ok
      · assumption
    have inner : ∃ holder ∈ outer, holder.contains target = true := by
      obtain ⟨holder, member, here⟩ := held
      obtain rfl | member := List.mem_cons.mp member
      · exact absurd here absent
      · exact ⟨holder, member, here⟩
    rw [defineInner?_of_settled outerSettled inner]
    exact ⟨scope, rfl, .refl scope, fun open_ => absent (Scope.contains_of_mem open_),
      fun name => .inr⟩

/-- The frames behind an assignment whose right side has been checked. -/
theorem assign_eq (target : String) (outerSettled : ∀ scope ∈ outer, scope.Settled) {after : Scopes}
    (value : ∀ declared,
      declareTarget ⟨scope :: outer, global⟩ target = ⟨declared :: outer, global⟩ →
      ∃ valued, after = ⟨valued :: outer, global⟩ ∧ declared.Grows valued) :
    ∃ declared valued defined,
      declareTarget ⟨scope :: outer, global⟩ target = ⟨declared :: outer, global⟩ ∧
      after = ⟨valued :: outer, global⟩ ∧
      define ⟨valued :: outer, global⟩ target = ⟨defined :: outer, global⟩ ∧
      (∀ name, (name, true) ∈ declared.entries → (name, true) ∈ scope.entries) ∧
      (∀ name, (name, true) ∈ defined.entries → name = target ∨ (name, true) ∈ valued.entries) ∧
      scope.Grows defined := by
  -- The target is declared in front of its value, unless a frame holds it, and is initialized
  -- behind it.
  obtain ⟨declared, declared_eq, shape, holder, member, held⟩ :=
    declareTarget_eq scope outer global target
  obtain ⟨valued, rfl, grows⟩ := value declared declared_eq
  have stillHeld : ∃ holder ∈ valued :: outer, holder.contains target = true := by
    obtain rfl | member := List.mem_cons.mp member
    · exact ⟨valued, List.mem_cons_self .., grows.declared target held⟩
    · exact ⟨holder, List.mem_cons_of_mem _ member, held⟩
  obtain ⟨defined, defined_eq, defines, closed, initialized⟩ :=
    define_eq global outerSettled stillHeld
  have known : ∀ name, (name, true) ∈ declared.entries → (name, true) ∈ scope.entries := by
    intro name member
    obtain rfl | entries_eq := shape
    · exact member
    · simpa [entries_eq] using member
  have kept : ∀ entry ∈ scope.entries, entry ∈ declared.entries := by
    intro entry member
    obtain rfl | entries_eq := shape
    · exact member
    · simp [entries_eq, member]
  refine ⟨declared, valued, defined, declared_eq, rfl, defined_eq, known, initialized, ?_, ?_, ?_⟩
  · intro name member
    exact defines.initialized name (grows.initialized name (kept _ member))
  · intro name open_
    -- What is open behind the value was open in front of it, or is the target itself.
    have before := grows.pending name (defines.pending name open_)
    obtain rfl | entries_eq := shape
    · exact before
    · rw [entries_eq, List.mem_append, List.mem_singleton] at before
      obtain before | new := before
      · exact before
      · obtain ⟨rfl, _⟩ := Prod.mk.inj new
        exact absurd open_ closed
  · intro name member
    obtain ⟨initialized, found⟩ := Option.isSome_iff_exists.mp member
    have declaredToo := Scope.contains_of_mem (kept _ (Scope.mem_of_get? found))
    exact defines.declared name (grows.declared name declaredToo)

/-! ### What a successful check consists of -/

/-- A read that the check lets pass finds a local name that is initialized. -/
theorem checkVariable_ok {scopes : Scopes} {position : Position}
    (ok : scopes.checkVariable name position = .ok ()) :
    ∃ resolution, resolveInner? name scopes.inner = some resolution ∧
      resolution.initialized = true := by
  unfold checkVariable resolve? at ok
  cases found : resolveInner? name scopes.inner with
  | none =>
    rw [found] at ok
    cases functions : scopes.global.get? name with
    | none => simp [functions] at ok
    | some initialized => simp [functions, Resolution.isGlobal] at ok
  | some resolution =>
    rw [found] at ok
    refine ⟨resolution, rfl, ?_⟩
    obtain ⟨inner, _⟩ := resolveInner?_eq_some found
    cases initialized : resolution.initialized with
    | true => rfl
    | false => simp [inner, initialized] at ok

variable {after : Scopes}

mutual

/-- Behind an expression only the innermost frame is another one, and it has grown. -/
theorem checkExpr_eq (e : Expr) {scope : Scope} {after : Scopes}
    (outerSettled : ∀ scope ∈ outer, scope.Settled)
    (ok : checkExpr ⟨scope :: outer, global⟩ e = .ok after) :
    ∃ behind, after = ⟨behind :: outer, global⟩ ∧ scope.Grows behind := by
  cases e with
  | int position value =>
    obtain rfl := Except.ok.inj ok
    exact ⟨scope, rfl, .refl scope⟩
  | float position value =>
    obtain rfl := Except.ok.inj ok
    exact ⟨scope, rfl, .refl scope⟩
  | var position name =>
    obtain ⟨_, _, ok⟩ := bind_eq_ok ok
    obtain rfl := Except.ok.inj ok
    exact ⟨scope, rfl, .refl scope⟩
  | binary position op left right =>
    obtain ⟨middle, left_ok, right_ok⟩ := bind_eq_ok ok
    obtain ⟨between, rfl, left_grows⟩ := checkExpr_eq left outerSettled left_ok
    obtain ⟨behind, rfl, right_grows⟩ := checkExpr_eq right outerSettled right_ok
    exact ⟨behind, rfl, left_grows.trans right_grows⟩
  | negate position operand => exact checkExpr_eq operand outerSettled ok
  | call position callee args =>
    rw [checkExpr] at ok
    split at ok
    · exact checkArgs_eq args outerSettled ok
    · cases ok
  | assign position target value =>
    obtain ⟨valued, value_ok, ok⟩ := bind_eq_ok ok
    obtain rfl := Except.ok.inj ok
    obtain ⟨_, _, defined, _, rfl, defined_eq, _, _, grows⟩ :=
      assign_eq target outerSettled fun declared declared_eq =>
        checkExpr_eq value outerSettled (declared_eq ▸ value_ok)
    exact ⟨defined, defined_eq, grows⟩
termination_by structural e

theorem checkArgs_eq (args : List Expr) {scope : Scope} {after : Scopes}
    (outerSettled : ∀ scope ∈ outer, scope.Settled)
    (ok : checkArgs ⟨scope :: outer, global⟩ args = .ok after) :
    ∃ behind, after = ⟨behind :: outer, global⟩ ∧ scope.Grows behind := by
  cases args with
  | nil =>
    obtain rfl := Except.ok.inj ok
    exact ⟨scope, rfl, .refl scope⟩
  | cons first rest =>
    obtain ⟨middle, first_ok, rest_ok⟩ := bind_eq_ok ok
    obtain ⟨between, rfl, first_grows⟩ := checkExpr_eq first outerSettled first_ok
    obtain ⟨behind, rfl, rest_grows⟩ := checkArgs_eq rest outerSettled rest_ok
    exact ⟨behind, rfl, first_grows.trans rest_grows⟩
termination_by structural args

end

theorem settled_cons (outerSettled : ∀ scope ∈ outer, scope.Settled) (settled : scope.Settled) :
    ∀ inner ∈ scope :: outer, inner.Settled := by
  intro inner member
  obtain rfl | member := List.mem_cons.mp member
  · exact settled
  · exact outerSettled inner member

theorem settled_outer (settled : ∀ inner ∈ scope :: outer, inner.Settled) :
    ∀ inner ∈ outer, inner.Settled :=
  fun inner member => settled inner (List.mem_cons_of_mem _ member)

theorem settled_behind {behind : Scope} (settled : ∀ inner ∈ scope :: outer, inner.Settled)
    (grows : scope.Grows behind) : ∀ inner ∈ behind :: outer, inner.Settled :=
  settled_cons (settled_outer settled) (grows.settled (settled scope (List.mem_cons_self ..)))

/-- The frames behind a nested block are those in front of it. -/
def KeepsOuter (body : List Stmt) : Prop :=
  ∀ {scope outer global after}, (∀ inner ∈ scope :: outer, inner.Settled) →
    checkBody ⟨scope :: outer, global⟩ body = .ok after →
    ∃ behind, after = ⟨behind :: outer, global⟩ ∧ scope.Grows behind

/-- Behind a block that is left, all frames are those in front of it. -/
theorem exit_eq {body : List Stmt} (keeps : KeepsOuter body)
    (settled : ∀ inner ∈ scope :: outer, inner.Settled) {inside : Scopes}
    (ok : checkBody (enter ⟨scope :: outer, global⟩) body = .ok inside) :
    inside.exit = ⟨scope :: outer, global⟩ := by
  obtain ⟨behind, rfl, _⟩ := keeps (settled_cons settled Scope.settled_empty) ok
  rfl

mutual

/-- Of the names that a statement declares, those of nested blocks are gone behind it. -/
theorem checkStmt_eq (statement : Stmt) {scope : Scope} {outer : List Scope} {global : Scope}
    {after : Scopes} (settled : ∀ inner ∈ scope :: outer, inner.Settled)
    (ok : checkStmt ⟨scope :: outer, global⟩ statement = .ok after) :
    ∃ behind, after = ⟨behind :: outer, global⟩ ∧ scope.Grows behind := by
  have outerSettled := settled_outer settled
  cases statement with
  | assign position target value =>
    obtain ⟨valued, value_ok, ok⟩ := bind_eq_ok ok
    obtain rfl := Except.ok.inj ok
    obtain ⟨_, _, defined, _, rfl, defined_eq, _, _, grows⟩ :=
      assign_eq target outerSettled fun declared declared_eq =>
        checkExpr_eq value outerSettled (declared_eq ▸ value_ok)
    exact ⟨defined, defined_eq, grows⟩
  | discard position value => exact checkExpr_eq value outerSettled ok
  | print position value => exact checkExpr_eq value outerSettled ok
  | branch position test body alternative =>
    cases alternative with
    | none =>
      obtain ⟨tested, test_ok, ok⟩ := bind_eq_ok ok
      obtain ⟨inside, body_ok, ok⟩ := bind_eq_ok ok
      obtain rfl := Except.ok.inj ok
      obtain ⟨behind, rfl, grows⟩ := checkExpr_eq test outerSettled test_ok
      have behindSettled := settled_behind settled grows
      exact ⟨behind, exit_eq (checkBody_eq body) behindSettled body_ok, grows⟩
    | some alternative =>
      obtain ⟨tested, test_ok, ok⟩ := bind_eq_ok ok
      obtain ⟨inside, body_ok, ok⟩ := bind_eq_ok ok
      obtain ⟨other, other_ok, ok⟩ := bind_eq_ok ok
      obtain rfl := Except.ok.inj ok
      obtain ⟨behind, rfl, grows⟩ := checkExpr_eq test outerSettled test_ok
      have behindSettled := settled_behind settled grows
      rw [exit_eq (checkBody_eq body) behindSettled body_ok] at other_ok
      exact ⟨behind, exit_eq (checkBody_eq alternative) behindSettled other_ok, grows⟩
  | loop position test body =>
    obtain ⟨tested, test_ok, ok⟩ := bind_eq_ok ok
    obtain ⟨inside, body_ok, ok⟩ := bind_eq_ok ok
    obtain rfl := Except.ok.inj ok
    obtain ⟨behind, rfl, grows⟩ := checkExpr_eq test outerSettled test_ok
    have behindSettled := settled_behind settled grows
    exact ⟨behind, exit_eq (checkBody_eq body) behindSettled body_ok, grows⟩
  | return_ position value =>
    cases value with
    | none =>
      obtain rfl := Except.ok.inj ok
      exact ⟨scope, rfl, .refl scope⟩
    | some value => exact checkExpr_eq value outerSettled ok
  | block position body =>
    obtain ⟨inside, body_ok, ok⟩ := bind_eq_ok ok
    obtain rfl := Except.ok.inj ok
    exact ⟨scope, exit_eq (checkBody_eq body) settled body_ok, .refl scope⟩
termination_by structural statement

theorem checkBody_eq (body : List Stmt) : KeepsOuter body := by
  intro scope outer global after settled ok
  cases body with
  | nil =>
    obtain rfl := Except.ok.inj ok
    exact ⟨scope, rfl, .refl scope⟩
  | cons first rest =>
    obtain ⟨middle, first_ok, rest_ok⟩ := bind_eq_ok ok
    obtain ⟨between, rfl, first_grows⟩ := checkStmt_eq first settled first_ok
    have betweenSettled := settled_behind settled first_grows
    obtain ⟨behind, rfl, rest_grows⟩ := checkBody_eq rest betweenSettled rest_ok
    exact ⟨behind, rfl, first_grows.trans rest_grows⟩
termination_by structural body

end

/-! ### Functions -/

/-- The parameters have different names, and in the frame around the body nothing else is
declared. -/
theorem checkParams_ok {params : List Param} {scope : Scope} {after : Scopes}
    (settled : scope.Settled) (ok : checkParams ⟨[scope], global⟩ params = .ok after) :
    ∃ behind, after = ⟨[behind], global⟩ ∧ behind.Settled ∧
      (∀ name, (name, true) ∈ behind.entries →
        (name, true) ∈ scope.entries ∨ name ∈ params.map Param.name) ∧
      (params.map Param.name).Nodup ∧
      ∀ name ∈ params.map Param.name, scope.contains name = false := by
  induction params generalizing scope with
  | nil =>
    obtain rfl := Except.ok.inj ok
    exact ⟨scope, rfl, settled, fun name => .inl, List.nodup_nil, by simp⟩
  | cons param params ih =>
    rw [checkParams, declare?] at ok
    cases declares : scope.declare? param.name with
    | none => simp [declares] at ok
    | some declared =>
      simp only [declares, Option.map_some] at ok
      have entries_eq := Scope.entries_of_declare? declares
      have held : declared.contains param.name = true :=
        Scope.contains_of_declare? declares (.inl rfl)
      have noOuter : ∀ scope ∈ ([] : List Scope), scope.Settled :=
        fun scope member => (List.not_mem_nil member).elim
      obtain ⟨defined, defined_eq, grows, closed, initialized⟩ :=
        define_eq global noOuter ⟨declared, List.mem_cons_self .., held⟩
      rw [defined_eq] at ok
      -- The new name is initialized at once, so that no declaration stays open.
      have definedSettled : defined.Settled := by
        intro name open_
        have before := grows.pending name open_
        rw [entries_eq, List.mem_append, List.mem_singleton] at before
        obtain before | new := before
        · exact settled name before
        · obtain ⟨rfl, _⟩ := Prod.mk.inj new
          exact closed open_
      obtain ⟨behind, rfl, behindSettled, known, distinct, fresh⟩ := ih definedSettled ok
      refine ⟨behind, rfl, behindSettled, ?_, ?_, ?_⟩
      · intro name member
        rw [List.map_cons, List.mem_cons]
        obtain before | later := known name member
        · obtain rfl | before := initialized name before
          · exact .inr (.inl rfl)
          · rw [entries_eq] at before
            exact .inl (by simpa using before)
        · exact .inr (.inr later)
      · rw [List.map_cons, List.nodup_cons]
        refine ⟨fun again => ?_, distinct⟩
        have absent := fresh _ again
        rw [grows.declared _ held] at absent
        cases absent
      · intro name member
        obtain rfl | later := List.mem_cons.mp member
        · exact Scope.not_contains_of_declare? declares
        · have absent := fresh name later
          cases present : scope.contains name with
          | false => rfl
          | true =>
            have kept := grows.declared name (Scope.contains_of_declare? declares (.inr present))
            rw [kept] at absent
            cases absent

end Scopes

/-- What the check of a function is made of: the frame of the parameters and the body inside it. -/
theorem Function.check_ok {global : Scope} {function : Function}
    (ok : function.check global = .ok ()) :
    ∃ params after, params.Settled ∧ function.paramNames.Nodup ∧
      (∀ name, (name, true) ∈ params.entries → name ∈ function.paramNames) ∧
      Scopes.checkBody ⟨[.empty, params], global⟩ function.body = .ok after := by
  unfold Function.check at ok
  obtain ⟨scopes, params_ok, ok⟩ := bind_eq_ok ok
  obtain ⟨after, body_ok, _⟩ := bind_eq_ok ok
  obtain ⟨params, rfl, settled, known, distinct, _⟩ :=
    Scopes.checkParams_ok Scope.settled_empty params_ok
  refine ⟨params, after, settled, distinct, fun name member => ?_, body_ok⟩
  obtain impossible | param := known name member
  · cases impossible
  · exact param

theorem Program.check_ok {program : Program} (ok : program.check = .ok ()) :
    ∃ global, ∀ function ∈ program.functions, function.check global = .ok () := by
  unfold Program.check Program.checkWithin at ok
  split at ok
  · cases ok
  · next global _ =>
    refine ⟨global, ?_⟩
    simp only at ok
    generalize program.functions = functions at ok
    induction functions with
    | nil => simp
    | cons first rest ih =>
      unfold List.forM at ok
      obtain ⟨_, first_ok, rest_ok⟩ := bind_eq_ok ok
      intro function member
      obtain rfl | member := List.mem_cons.mp member
      · exact first_ok
      · exact ih rest_ok function member

/-- The parameters of a checked function have different names. -/
theorem Program.paramNames_nodup {program : Program} {global : Scope}
    (checked : ∀ function ∈ program.functions, function.check global = .ok ()) :
    ∀ function ∈ program.functions, function.paramNames.Nodup := by
  intro function member
  obtain ⟨_, _, _, distinct, _⟩ := Function.check_ok (checked function member)
  exact distinct

end ImpStack

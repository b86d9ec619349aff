import ImpStack.Proofs.SeparateCompilation
import ImpStack.Scope.Checker

/-!
A checker that is used for one program after the other (SPEC_FULL, section 4.3) only keeps names of
functions. Whatever fails and wherever, all frames inside the global one are left again and no
parameter or local name gets into it, so that the next program is checked as if those functions had
been declared on their own (`Checker.remembers_only_functions`).

There are two lines of lemmas, each with one lemma for each phrase: that a run leaves the frames as
many as it found them (`KeepsFrames`), also if it fails, and that its result is that of the check of
scopes (`Follows`).
-/
namespace ImpStack

/-! ### Frames -/

namespace Scope

/-- The names of functions are initialized from the start. -/
theorem settled_ofNames (names : List String) : (ofNames names).Settled := by
  intro name pending
  simp [ofNames] at pending

/-- A known name is not declared again. -/
theorem declare?_ofNames_of_mem {names : List String} {name : String} (known : name ∈ names) :
    (ofNames names).declare? name = none := by
  unfold declare?
  rw [if_pos]
  rwa [contains_iff_mem_names, names_ofNames]

/-- A new name that is declared and gets its value stands behind those that are there. -/
theorem declare?_ofNames_of_not_mem {names : List String} {name : String} (isNew : name ∉ names) :
    ∃ declared, (ofNames names).declare? name = some declared ∧
      declared.define? name = some (ofNames (names ++ [name])) := by
  have absent : ¬ (ofNames names).contains name = true := by
    rwa [contains_iff_mem_names, names_ofNames]
  refine ⟨_, if_neg absent, ?_⟩
  have held : contains ⟨(ofNames names).entries ++ [(name, false)]⟩ name = true :=
    contains_of_mem (by simp : (name, false) ∈ _)
  unfold define?
  rw [if_pos held]
  simp +contextual [ofNames, eq_comm]

end Scope

namespace Scopes

/-- A name is declared in the innermost frame. -/
theorem declare?_keeps {scopes declared : Scopes} {name : String} (inside : scopes.inner ≠ [])
    (ok : scopes.declare? name = some declared) :
    declared.inner.length = scopes.inner.length ∧ declared.global = scopes.global := by
  unfold declare? at ok
  split at ok
  · next outside => exact absurd outside inside
  · next scope outer inner_eq =>
    obtain ⟨scope, _, rfl⟩ := Option.map_eq_some_iff.mp ok
    rw [inner_eq]
    exact ⟨rfl, rfl⟩

/-- Nothing is left to initialize in a settled global frame, so that a value only reaches the frames
inside it. -/
theorem define_global (name : String) {scopes : Scopes} (settled : scopes.global.Settled) :
    (scopes.define name).global = scopes.global := by
  unfold define
  cases defineInner? name scopes.inner with
  | some defined => rfl
  | none =>
    cases ok : scopes.global.define? name with
    | some global => exact settled.define? ok
    | none => rfl

theorem declare?_ofGlobal (global : Scope) (name : String) :
    (ofGlobal global).declare? name = (global.declare? name).map ofGlobal := rfl

/-- With the global frame alone, a definition is one in that frame. -/
theorem define_ofGlobal (global : Scope) (name : String) :
    (ofGlobal global).define name = ofGlobal ((global.define? name).getD global) := by
  unfold define ofGlobal defineInner?
  dsimp only
  cases global.define? name <;> rfl

end Scopes

namespace Checker

variable {α β : Type}

/-! ### Runs of a checker -/

/-- Where the first part fails, the frames are those that it leaves. -/
theorem runOn_bind (first : Checker α) (next : α → Checker β) (scopes : Scopes) :
    (first >>= next).runOn scopes =
      match first.runOn scopes with
      | (.ok value, after) => (next value).runOn after
      | (.error error, after) => (.error error, after) := by
  show (ExceptT.bindCont next (first.runOn scopes).1).run (first.runOn scopes).2 = _
  split <;> next same => rw [same]; rfl

@[simp]
theorem runOn_modify (change : Scopes → Scopes) (scopes : Scopes) :
    runOn (modify change) scopes = (.ok (), change scopes) := rfl

/-- The frame is left with the result of what ran inside it, whatever that is. -/
@[simp]
theorem runOn_framed (checker : Checker α) (scopes : Scopes) :
    (framed checker).runOn scopes =
      ((checker.runOn scopes.enter).1, (checker.runOn scopes.enter).2.exit) := rfl

theorem runOn_get_bind (next : Scopes → Checker β) (scopes : Scopes) :
    ((get : Checker Scopes) >>= next).runOn scopes = (next scopes).runOn scopes := rfl

theorem runOn_declare_new {name : String} {scopes declared : Scopes}
    (ok : scopes.declare? name = some declared) :
    (declare name).runOn scopes = (.ok true, declared) := by
  rw [declare, runOn_get_bind, ok]
  rfl

theorem runOn_declare_known {name : String} {scopes : Scopes}
    (known : scopes.declare? name = none) :
    (declare name).runOn scopes = (.ok false, scopes) := by
  rw [declare, runOn_get_bind, known]
  rfl

/-! ### Every entered frame is left -/

/-- Inside some frame the checker leaves as many frames as it finds, and the global one as it was,
whether it succeeds or fails. -/
def KeepsFrames (checker : Checker α) : Prop :=
  ∀ scopes : Scopes, scopes.inner ≠ [] → scopes.global.Settled →
    (checker.runOn scopes).2.inner.length = scopes.inner.length ∧
      (checker.runOn scopes).2.global = scopes.global

namespace KeepsFrames

variable {checker : Checker α} {next : α → Checker β}

theorem pure (value : α) : KeepsFrames (pure value) := fun _ _ _ => ⟨rfl, rfl⟩

theorem throw (error : ScopeError) : KeepsFrames (throw error : Checker α) :=
  fun _ _ _ => ⟨rfl, rfl⟩

theorem get : KeepsFrames get := fun _ _ _ => ⟨rfl, rfl⟩

theorem bind (first : KeepsFrames checker) (rest : ∀ value, KeepsFrames (next value)) :
    KeepsFrames (checker >>= next) := by
  intro scopes inside settled
  obtain ⟨sameLength, sameGlobal⟩ := first scopes inside settled
  rw [runOn_bind]
  cases ran : checker.runOn scopes with
  | mk result after =>
    rw [ran] at sameLength sameGlobal
    cases result with
    | error error => exact ⟨sameLength, sameGlobal⟩
    | ok value =>
      have stillInside : after.inner ≠ [] := by
        rw [← List.length_pos_iff, sameLength]
        exact List.length_pos_iff.mpr inside
      have stillSettled : after.global.Settled := sameGlobal ▸ settled
      obtain ⟨restLength, restGlobal⟩ := rest value after stillInside stillSettled
      exact ⟨restLength.trans sameLength, restGlobal.trans sameGlobal⟩

theorem ite {condition : Prop} [Decidable condition] {yes no : Checker α}
    (yesKeeps : KeepsFrames yes) (noKeeps : KeepsFrames no) :
    KeepsFrames (if condition then yes else no) := by
  split
  · exact yesKeeps
  · exact noKeeps

/-- A new frame is left again also when what is checked in it fails. -/
theorem framed (keeps : KeepsFrames checker) : KeepsFrames (framed checker) := by
  intro scopes inside settled
  obtain ⟨sameLength, sameGlobal⟩ := keeps scopes.enter (List.cons_ne_nil _ _) settled
  refine ⟨?_, sameGlobal⟩
  rw [runOn_framed]
  simp only [Scopes.exit, List.length_tail, sameLength]
  rfl

/-- A frame right inside the global one is left for the global one alone. -/
theorem framed_ofGlobal (keeps : KeepsFrames checker) {global : Scope}
    (settled : global.Settled) :
    ((Checker.framed checker).runOn (.ofGlobal global)).2 = .ofGlobal global := by
  obtain ⟨sameLength, sameGlobal⟩ :=
    keeps (Scopes.ofGlobal global).enter (List.cons_ne_nil _ _) settled
  rw [runOn_framed]
  -- The frame that was entered is the only inner one, also after a failure in the middle.
  have noneLeft : (checker.runOn (Scopes.ofGlobal global).enter).2.inner.tail = [] := by
    apply List.eq_nil_of_length_eq_zero
    rw [List.length_tail, sameLength]
    rfl
  simp only [Scopes.exit, noneLeft, sameGlobal]
  rfl

end KeepsFrames

/-- Inside a frame a declaration does not reach the global one. -/
theorem declare_keepsFrames (name : String) : KeepsFrames (declare name) := by
  intro scopes inside _
  cases declares : scopes.declare? name with
  | none =>
    rw [runOn_declare_known declares]
    exact ⟨rfl, rfl⟩
  | some declared =>
    rw [runOn_declare_new declares]
    exact Scopes.declare?_keeps inside declares

theorem define_keepsFrames (name : String) : KeepsFrames (define name) := by
  intro scopes _ settled
  exact ⟨scopes.define_length name, scopes.define_global name settled⟩

/-- The target of an assignment is declared among the local names or not at all. -/
theorem declareTarget_keepsFrames (target : String) :
    KeepsFrames (modify (Scopes.declareTarget · target)) := by
  intro scopes inside settled
  obtain ⟨scope, outer, inner_eq⟩ := List.exists_cons_of_ne_nil inside
  obtain ⟨inner, global⟩ := scopes
  obtain rfl : inner = scope :: outer := inner_eq
  obtain ⟨declared, declared_eq, _⟩ := Scopes.declareTarget_eq scope outer global target
  rw [runOn_modify, declared_eq]
  exact ⟨rfl, rfl⟩

/-- The target is declared and defined in frames inside the global one. -/
theorem assignment_keepsFrames (target : String) {value : Checker Unit}
    (keeps : KeepsFrames value) : KeepsFrames (assignment target value) :=
  (declareTarget_keepsFrames target).bind fun _ =>
    keeps.bind fun _ => define_keepsFrames target

mutual

/-- An expression keeps the frames, at whatever place it fails. -/
theorem expr_keepsFrames (e : Expr) : KeepsFrames (expr e) := by
  cases e with
  | int position value => exact .pure ()
  | float position value => exact .pure ()
  | var position name =>
    apply KeepsFrames.get.bind
    intro scopes
    cases scopes.checkVariable name position with
    | ok value => exact .pure ()
    | error error => exact .throw error
  | binary position op left right =>
    exact (expr_keepsFrames left).bind fun _ => expr_keepsFrames right
  | negate position operand => exact expr_keepsFrames operand
  | call position callee args =>
    apply KeepsFrames.get.bind
    intro scopes
    exact .ite (exprs_keepsFrames args) (.throw _)
  | assign position target value => exact assignment_keepsFrames target (expr_keepsFrames value)
termination_by structural e

theorem exprs_keepsFrames (es : List Expr) : KeepsFrames (exprs es) := by
  cases es with
  | nil => exact .pure ()
  | cons first rest => exact (expr_keepsFrames first).bind fun _ => exprs_keepsFrames rest
termination_by structural es

end

mutual

/-- The frame of a nested block is left also when the block fails. -/
theorem stmt_keepsFrames (statement : Stmt) : KeepsFrames (stmt statement) := by
  cases statement with
  | assign position target value =>
    exact assignment_keepsFrames target (expr_keepsFrames value)
  | discard position value => exact expr_keepsFrames value
  | print position value => exact expr_keepsFrames value
  | branch position condition body alternative =>
    have tests := expr_keepsFrames condition
    have branches := (stmts_keepsFrames body).framed
    cases alternative with
    | none => exact tests.bind fun _ => branches
    | some alternative =>
      exact tests.bind fun _ => branches.bind fun _ => (stmts_keepsFrames alternative).framed
  | loop position condition body =>
    exact (expr_keepsFrames condition).bind fun _ => (stmts_keepsFrames body).framed
  | return_ position value =>
    cases value with
    | none => exact .pure ()
    | some value => exact expr_keepsFrames value
  | block position body => exact (stmts_keepsFrames body).framed
termination_by structural statement

theorem stmts_keepsFrames (body : List Stmt) : KeepsFrames (stmts body) := by
  cases body with
  | nil => exact .pure ()
  | cons first rest => exact (stmt_keepsFrames first).bind fun _ => stmts_keepsFrames rest
termination_by structural body

end

theorem params_keepsFrames (xs : List Param) : KeepsFrames (params xs) := by
  induction xs with
  | nil => exact .pure ()
  | cons param rest ih =>
    apply (declare_keepsFrames param.name).bind
    intro isNew
    exact .ite ((define_keepsFrames param.name).bind fun _ => ih) (.throw _)

/-! ### The checker against the check -/

/-- A run with the error of the check, whatever frames it leaves, or with the frames behind it. -/
inductive Agrees : Except ScopeError Unit × Scopes → Except ScopeError Scopes → Prop
  | ok (after : Scopes) : Agrees (.ok (), after) (.ok after)
  | error (error : ScopeError) (left : Scopes) : Agrees (.error error, left) (.error error)

/-- Agreement includes the error. -/
theorem Agrees.result_eq {ran : Except ScopeError Unit × Scopes}
    {checked : Except ScopeError Scopes} (agrees : Agrees ran checked) :
    ran.1 = checked.map fun _ => () := by
  cases agrees with
  | ok after => rfl
  | error error left => rfl

/-- On all frames the run of the checker agrees with the check. -/
def Follows (checker : Checker Unit) (check : Scopes → Except ScopeError Scopes) : Prop :=
  ∀ scopes, Agrees (checker.runOn scopes) (check scopes)

namespace Follows

variable {checker second : Checker Unit} {check behind : Scopes → Except ScopeError Scopes}

theorem pure : Follows (pure ()) .ok := .ok

theorem modify (change : Scopes → Scopes) :
    Follows (modify change) fun scopes => .ok (change scopes) := fun scopes => .ok (change scopes)

theorem bind (first : Follows checker check) (rest : Follows second behind) :
    Follows (checker >>= fun _ => second) fun scopes => check scopes >>= behind := by
  intro scopes
  have before := first scopes
  rw [runOn_bind]
  dsimp only
  generalize checker.runOn scopes = ran, check scopes = checked at before
  cases before with
  | ok after => exact rest after
  | error error left => exact .error error left

theorem framed (follows : Follows checker check) :
    Follows (framed checker) fun scopes => do return (← check scopes.enter).exit := by
  intro scopes
  have inside := follows scopes.enter
  rw [runOn_framed]
  dsimp only
  generalize checker.runOn scopes.enter = ran, check scopes.enter = checked at inside
  cases inside with
  | ok after => exact .ok after.exit
  | error error left => exact .error error left.exit

theorem framed_bind (first : Follows checker check) (rest : Follows second behind) :
    Follows (Checker.framed checker >>= fun _ => second) fun scopes =>
      check scopes.enter >>= fun inside => behind inside.exit := by
  intro scopes
  have agrees := first.framed.bind rest scopes
  dsimp only at agrees ⊢
  rwa [bind_assoc] at agrees

end Follows

theorem assignment_follows (target : String) {value : Checker Unit}
    {check : Scopes → Except ScopeError Scopes} (follows : Follows value check) :
    Follows (assignment target value) fun scopes => do
      return (← check (scopes.declareTarget target)).define target :=
  (Follows.modify (Scopes.declareTarget · target)).bind
    (follows.bind (.modify (Scopes.define · target)))

mutual

/-- The checker does for an expression what the check of scopes says. -/
theorem expr_follows (e : Expr) : Follows (expr e) (Scopes.checkExpr · e) := by
  cases e with
  | int position value => exact .pure
  | float position value => exact .pure
  | var position name =>
    intro scopes
    show Agrees _ (do scopes.checkVariable name position; return scopes)
    rw [expr, runOn_get_bind]
    cases scopes.checkVariable name position with
    | ok value => exact .ok scopes
    | error error => exact .error error scopes
  | binary position op left right => exact (expr_follows left).bind (expr_follows right)
  | negate position operand => exact expr_follows operand
  | call position callee args =>
    intro scopes
    show Agrees _ (if scopes.isFunction callee then scopes.checkArgs args
      else .error (.undeclaredFunction callee position))
    rw [expr, runOn_get_bind]
    cases scopes.isFunction callee with
    | true => exact exprs_follows args scopes
    | false => exact .error _ scopes
  | assign position target value => exact assignment_follows target (expr_follows value)
termination_by structural e

theorem exprs_follows (es : List Expr) : Follows (exprs es) (Scopes.checkArgs · es) := by
  cases es with
  | nil => exact .pure
  | cons first rest => exact (expr_follows first).bind (exprs_follows rest)
termination_by structural es

end

mutual

/-- The checker does for a statement what the check of scopes says. -/
theorem stmt_follows (statement : Stmt) :
    Follows (stmt statement) (Scopes.checkStmt · statement) := by
  cases statement with
  | assign position target value => exact assignment_follows target (expr_follows value)
  | discard position value => exact expr_follows value
  | print position value => exact expr_follows value
  | branch position condition body alternative =>
    have tests := expr_follows condition
    have branches := stmts_follows body
    cases alternative with
    | none => exact tests.bind branches.framed
    | some alternative =>
      exact tests.bind (branches.framed_bind (stmts_follows alternative).framed)
  | loop position condition body =>
    exact (expr_follows condition).bind (stmts_follows body).framed
  | return_ position value =>
    cases value with
    | none => exact .pure
    | some value => exact expr_follows value
  | block position body => exact (stmts_follows body).framed
termination_by structural statement

theorem stmts_follows (body : List Stmt) : Follows (stmts body) (Scopes.checkBody · body) := by
  cases body with
  | nil => exact .pure
  | cons first rest => exact (stmt_follows first).bind (stmts_follows rest)
termination_by structural body

end

theorem params_follows (xs : List Param) : Follows (params xs) (Scopes.checkParams · xs) := by
  induction xs with
  | nil => exact .pure
  | cons param rest ih =>
    intro scopes
    show Agrees _ (scopes.checkParams (param :: rest))
    rw [params, runOn_bind, Scopes.checkParams]
    cases declares : scopes.declare? param.name with
    | none =>
      rw [runOn_declare_known declares]
      exact .error _ scopes
    | some declared =>
      rw [runOn_declare_new declares]
      exact ih (declared.define param.name)

/-! ### What a program leaves -/

/-- The functions of a settled global frame are checked in frames of their own. -/
theorem function_eq (f : Function) {global : Scope} (settled : global.Settled) :
    (function f).runOn (.ofGlobal global) = (f.check global, .ofGlobal global) := by
  have body := (stmts_keepsFrames f.body).framed
  have keeps := (params_keepsFrames f.params).bind fun _ => body
  have follows := (params_follows f.params).bind (stmts_follows f.body).framed
  have result := (follows.framed (.ofGlobal global)).result_eq
  have left := keeps.framed_ofGlobal settled
  -- The answer is that of the pure check, the state is the one from before the frames were entered.
  apply Prod.ext
  · apply result.trans
    unfold Function.check
    dsimp only
    cases (Scopes.ofGlobal global).enter.checkParams f.params with
    | error error => rfl
    | ok scopes =>
      show Except.map (fun _ => ()) (do
          let inside ← (do return (← scopes.enter.checkBody f.body).exit)
          return Scopes.exit inside) = do
        let _ ← scopes.enter.checkBody f.body
        return ()
      cases scopes.enter.checkBody f.body <;> rfl
  · exact left

theorem functions_eq (fs : List Function) {global : Scope} (settled : global.Settled) :
    runOn (fs.forM function) (.ofGlobal global) = (fs.forM (·.check global), .ofGlobal global) := by
  induction fs with
  | nil => rfl
  | cons first rest ih =>
    rw [List.forM, List.forM, runOn_bind, function_eq first settled]
    cases first.check global with
    | error error => rfl
    | ok value => exact ih

/-- All functions are declared in front of the first body, up to a repeated name. -/
theorem declarations_eq (fs : List Function) (global : Scope) :
    (declarations fs).runOn (.ofGlobal global) =
      ((declareFunctions global fs).1, .ofGlobal (declareFunctions global fs).2) := by
  induction fs generalizing global with
  | nil => rfl
  | cons first rest ih =>
    rw [declarations, declareFunctions, runOn_bind]
    have declare_eq := Scopes.declare?_ofGlobal global first.name
    cases declares : global.declare? first.name with
    | none =>
      rw [declares] at declare_eq
      rw [runOn_declare_known declare_eq]
      rfl
    | some declared =>
      rw [declares] at declare_eq
      rw [runOn_declare_new declare_eq]
      show (declarations rest).runOn ((Scopes.ofGlobal declared).define first.name) = _
      rw [Scopes.define_ofGlobal, ih]

/-! ### The names that are known -/

/-- The names that are known once `names` have been declared in order, up to the first one that is
known already. -/
def joined (known : List String) : List String → List String
  | [] => known
  | name :: names => if name ∈ known then known else joined (known ++ [name]) names

/-- Only declared names become known. -/
theorem mem_joined {known names : List String} {name : String}
    (member : name ∈ joined known names) : name ∈ known ∨ name ∈ names := by
  induction names generalizing known with
  | nil => exact .inl member
  | cons first rest ih =>
    unfold joined at member
    split at member
    · exact .inl member
    · obtain before | later := ih member
      · rw [List.mem_append, List.mem_singleton] at before
        obtain before | rfl := before
        · exact .inl before
        · exact .inr (List.mem_cons_self ..)
      · exact .inr (List.mem_cons_of_mem _ later)

/-- No name becomes known twice. -/
theorem nodup_joined {known : List String} (distinct : known.Nodup) (names : List String) :
    (joined known names).Nodup := by
  induction names generalizing known with
  | nil => exact distinct
  | cons first rest ih =>
    unfold joined
    split
    · exact distinct
    · next isNew =>
      apply ih
      rw [List.nodup_append_comm, List.singleton_append]
      exact List.nodup_cons.mpr ⟨isNew, distinct⟩

theorem declareFunctions_ofNames (fs : List Function) (known : List String) :
    (declareFunctions (.ofNames known) fs).2 = .ofNames (joined known (fs.map Function.name)) := by
  induction fs generalizing known with
  | nil => rfl
  | cons first rest ih =>
    rw [declareFunctions, List.map_cons, joined]
    by_cases present : first.name ∈ known
    · rw [Scope.declare?_ofNames_of_mem present, if_pos present]
    · obtain ⟨declared, declares, defines⟩ := Scope.declare?_ofNames_of_not_mem present
      rw [declares, if_neg present]
      show (declareFunctions ((declared.define? first.name).getD declared) rest).2 = _
      rw [defines]
      exact ih _

/-- The checker does what the check of programs says, and is left with the names that have joined
the known ones. -/
theorem program_eq (p : Program) (known : List String) :
    (program p).runOn (.ofGlobal (.ofNames known)) =
      ((p.checkWithin (.ofNames known)).1,
        .ofGlobal (.ofNames (joined known p.functionNames))) := by
  have left := declareFunctions_ofNames p.functions known
  rw [program, runOn_bind, declarations_eq, Program.checkWithin, left]
  cases declares : declareFunctions (.ofNames known) p.functions with
  | mk result global =>
    rw [declares] at left
    obtain rfl : global = .ofNames _ := left
    cases result with
    | error error => rfl
    | ok value => exact functions_eq p.functions (Scope.settled_ofNames _)

/-- Declares functions of which only the names are given. -/
def declareNames : List String → Checker Unit
  | [] => return ()
  | name :: names => do
    let _ ← declare name
    define name
    declareNames names

/-- New names can all be declared. -/
theorem declareNames_eq {known names : List String} (distinct : (known ++ names).Nodup) :
    (declareNames names).runOn (.ofGlobal (.ofNames known)) =
      (.ok (), .ofGlobal (.ofNames (known ++ names))) := by
  induction names generalizing known with
  | nil => rw [List.append_nil]; rfl
  | cons name names ih =>
    have regroup : known ++ name :: names = (known ++ [name]) ++ names := by simp
    have isNew : name ∉ known := by
      intro before
      exact (List.disjoint_of_nodup_append distinct) before (List.mem_cons_self ..)
    obtain ⟨declared, declares, defines⟩ := Scope.declare?_ofNames_of_not_mem isNew
    have declare_eq := Scopes.declare?_ofGlobal (.ofNames known) name
    rw [declares] at declare_eq
    have defined := Scopes.define_ofGlobal declared name
    rw [defines] at defined
    rw [regroup] at distinct ⊢
    rw [declareNames, runOn_bind, runOn_declare_new declare_eq]
    show (declareNames names).runOn ((Scopes.ofGlobal declared).define name) = _
    rw [defined]
    exact ih distinct

/-! ### Histories -/

/-- The functions known behind a history of programs. -/
def namesAfter (history : List Program) : List String :=
  history.foldl (fun known p => joined known p.functionNames) []

/-- The frames of one checker behind a history of programs, whatever their results. -/
def framesAfter (history : List Program) : Scopes :=
  history.foldl (fun scopes p => ((program p).runOn scopes).2) fresh

/-- Behind any programs there is one frame, that of the functions known by then. -/
theorem framesAfter_eq (history : List Program) :
    framesAfter history = .ofGlobal (.ofNames (namesAfter history)) := by
  unfold framesAfter namesAfter
  rw [show fresh = .ofGlobal (.ofNames []) from rfl]
  generalize ([] : List String) = known
  induction history generalizing known with
  | nil => rfl
  | cons p history ih =>
    rw [List.foldl_cons, List.foldl_cons, program_eq]
    exact ih _

theorem nodup_namesAfter (history : List Program) : (namesAfter history).Nodup := by
  induction history using List.reverseRecOn with
  | nil => exact List.nodup_nil
  | append_singleton history p ih =>
    rw [namesAfter, List.foldl_append]
    exact nodup_joined ih p.functionNames

theorem mem_namesAfter {history : List Program} {name : String}
    (member : name ∈ namesAfter history) : ∃ p ∈ history, name ∈ p.functionNames := by
  induction history using List.reverseRecOn with
  | nil => exact absurd member List.not_mem_nil
  | append_singleton history p ih =>
    rw [namesAfter, List.foldl_append] at member
    obtain before | own := mem_joined member
    · obtain ⟨earlier, among, holds⟩ := ih before
      exact ⟨earlier, List.mem_append_left _ among, holds⟩
    · exact ⟨p, by simp, own⟩

/-- One checker for a whole history of programs, each of which may fail anywhere, is left with the
global frame alone. The frame holds functions of these programs and nothing else, all of them
initialized, so that the next program is checked as by a new checker that was told their names. -/
theorem remembers_only_functions (history : List Program) :
    framesAfter history = .ofGlobal (.ofNames (namesAfter history)) ∧
      (∀ name ∈ namesAfter history, ∃ p ∈ history, name ∈ p.functionNames) ∧
      ∀ next,
        (program next).runOn (framesAfter history) =
            runOn (do declareNames (namesAfter history); program next) fresh ∧
          ((program next).runOn (framesAfter history)).1 =
            (next.checkWithin (.ofNames (namesAfter history))).1 := by
  refine ⟨framesAfter_eq history, fun name => mem_namesAfter, fun next => ?_⟩
  rw [framesAfter_eq]
  constructor
  · have told : (declareNames (namesAfter history)).runOn fresh =
        (.ok (), .ofGlobal (.ofNames (namesAfter history))) := by
      have distinct : ([] ++ namesAfter history).Nodup := nodup_namesAfter history
      exact declareNames_eq distinct
    rw [runOn_bind, told]
  · rw [program_eq]

end Checker

end ImpStack

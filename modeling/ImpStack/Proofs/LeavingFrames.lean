import Mathlib.Data.List.Induction
import Mathlib.Data.List.Infix
import ImpStack.Proofs.FrameRows

/-!
Leaving a frame undoes what was done since it was entered, whatever that was, except that names of
the frames outside may have become initialized: those that were initialized at a moment when no
frame inside held the name (`Scopes.leaving_undoes_entering`). The global frame is never left, and
functions are the names that were declared while it stood alone (`Scopes.isFunction_behind`).

What is invariant while a frame is not left: the frames are some inner ones on top of those outside,
in which names have been initialized and nothing else has changed (`Scopes.performAll_enter`). One
operation keeps that (`Scopes.perform_nest`).
-/
namespace ImpStack

/-! ### Names that frames hold -/

namespace Scope

/-- A frame holds a name that has been declared, whether then or before. -/
theorem contains_declared (scope : Scope) (target name : String) :
    ((scope.declare? target).getD scope).contains name = true ↔
      scope.contains name = true ∨ target = name := by
  by_cases held : scope.contains target = true
  · have known : scope.declare? target = none := if_pos held
    rw [known, Option.getD_none, iff_self_or]
    rintro rfl
    exact held
  · have declares : scope.declare? target = some ⟨scope.entries ++ [(target, false)]⟩ :=
      if_neg held
    rw [declares, Option.getD_some, contains, get?_append_new, contains]
    by_cases same : name = target
    · simp [same]
    · simp [same, Ne.symm same]

/-- A definition marks a name that the frame holds and adds none. -/
theorem get?_defined (scope : Scope) (target name : String) :
    ((scope.define? target).getD scope).get? name =
      if name = target then (scope.get? target).map fun _ => true else scope.get? name := by
  cases defines : scope.define? target with
  | none =>
    have absent := (define?_eq_none_iff scope target).mp defines
    by_cases same : name = target <;> simp [same, absent]
  | some defined =>
    obtain ⟨flag, held⟩ := exists_get?_of_define? defines
    rw [Option.getD_some, get?_of_define? defines, held, Option.map_some]

theorem contains_defined (scope : Scope) (target name : String) :
    ((scope.define? target).getD scope).contains name = scope.contains name := by
  rw [contains, get?_defined, contains]
  by_cases same : name = target <;> simp [same]

end Scope

namespace Scopes

theorem define_of_inner {scopes : Scopes} {target : String} {inner : List Scope}
    (ok : defineInner? target scopes.inner = some inner) :
    scopes.define target = ⟨inner, scopes.global⟩ := by
  rw [define, ok]

/-- A name that no inner frame holds is defined in the global one. -/
theorem define_of_none {scopes : Scopes} {target : String}
    (missing : defineInner? target scopes.inner = none) :
    scopes.define target =
      ⟨scopes.inner, (scopes.global.define? target).getD scopes.global⟩ := by
  rw [define, missing]
  cases scopes.global.define? target <;> rfl

/-- A definition looks for the name in every inner frame. -/
theorem defineInner?_eq_none_iff (name : String) (frames : List Scope) :
    defineInner? name frames = none ↔ ∀ frame ∈ frames, frame.contains name = false := by
  induction frames with
  | nil => simp [defineInner?]
  | cons scope outer ih =>
    rw [List.forall_mem_cons, ← ih, defineInner?]
    cases defines : scope.define? name with
    | some defined =>
      obtain ⟨flag, held⟩ := Scope.exists_get?_of_define? defines
      simp [Scope.contains, held]
    | none => simp [Scope.contains, (Scope.define?_eq_none_iff scope name).mp defines]

theorem resolveInner?_eq_none_iff (name : String) (frames : List Scope) :
    resolveInner? name frames = none ↔ ∀ frame ∈ frames, frame.contains name = false := by
  induction frames with
  | nil => simp [resolveInner?]
  | cons scope outer ih =>
    rw [List.forall_mem_cons, ← ih, resolveInner?_cons, Option.or_eq_none_iff]
    simp [Scope.contains]

/-- The frames outside are searched if none of those inside holds the name. -/
theorem defineInner?_append (name : String) (inner outer : List Scope) :
    defineInner? name (inner ++ outer) =
      ((defineInner? name inner).map (· ++ outer)).or
        ((defineInner? name outer).map (inner ++ ·)) := by
  induction inner with
  | nil => simp [defineInner?]
  | cons scope rest ih =>
    rw [List.cons_append, defineInner?, defineInner?]
    cases scope.define? name with
    | some defined => rfl
    | none =>
      show (defineInner? name (rest ++ outer)).map (scope :: ·) = _
      rw [ih]
      cases defineInner? name rest <;> cases defineInner? name outer <;> rfl

/-! ### Moments -/

/-- Among the operations is the given one, and `moment` holds of those in front of it. -/
def TakesPlace (operation : Operation) (moment : List Operation → Prop)
    (operations : List Operation) : Prop :=
  ∃ before rest, operations = before ++ operation :: rest ∧ moment before

section Moments

variable {operation last : Operation} {moment : List Operation → Prop}
  {operations : List Operation}

theorem not_takesPlace_nil : ¬ TakesPlace operation moment [] := by
  rintro ⟨before, rest, split, -⟩
  simp at split

/-- The last operation takes place at the moment behind all others. -/
theorem takesPlace_append_singleton :
    TakesPlace operation moment (operations ++ [last]) ↔
      TakesPlace operation moment operations ∨ last = operation ∧ moment operations := by
  constructor
  · rintro ⟨before, rest, split, holds⟩
    rcases rest.eq_nil_or_concat with rfl | ⟨shorter, final, rfl⟩
    · obtain ⟨rfl, same⟩ := List.append_inj' split rfl
      exact .inr ⟨List.head_eq_of_cons_eq same, holds⟩
    · rw [List.concat_eq_append, ← List.cons_append, ← List.append_assoc] at split
      exact .inl ⟨before, shorter, (List.append_inj' split rfl).1, holds⟩
  · rintro (⟨before, rest, rfl, holds⟩ | ⟨rfl, holds⟩)
    · exact ⟨before, rest ++ [last], by simp, holds⟩
    · exact ⟨operations, [], rfl, holds⟩

end Moments

/-! ### Functions -/

/-- Only a declaration in the global frame makes a function. -/
theorem isFunction_perform (scopes : Scopes) (operation : Operation) (name : String) :
    (scopes.perform operation).isFunction name = true ↔
      scopes.isFunction name = true ∨ operation = .declare name ∧ scopes.depth = 1 := by
  -- Only a declaration in the outermost frame makes a function known.
  cases operation with
  | enter => simp [perform, enter, isFunction]
  | exit => simp [perform, exit, isFunction]
  | declare target =>
    obtain ⟨inner, global⟩ := scopes
    cases inner with
    | nil =>
      have shape : (declare? ⟨[], global⟩ target).getD ⟨[], global⟩ =
          ofGlobal ((global.declare? target).getD global) := by
        unfold declare?
        cases global.declare? target <;> rfl
      rw [perform, shape]
      simpa [isFunction, ofGlobal, depth] using global.contains_declared target name
    | cons scope outer =>
      rw [perform, declare?_cons]
      cases scope.declare? target <;> simp [isFunction, depth]
  | define target =>
    have held : (scopes.define target).isFunction name = scopes.isFunction name := by
      cases ok : defineInner? target scopes.inner with
      | some inner => rw [define_of_inner ok, isFunction, isFunction]
      | none => rw [define_of_none ok, isFunction, Scope.contains_defined, isFunction]
    simp [perform, held]

/-- A function is a name that was declared while the global frame stood alone. -/
theorem isFunction_behind (operations : List Operation) (name : String) :
    (behind operations).isFunction name = true ↔
      TakesPlace (.declare name) (fun before => (behind before).depth = 1) operations := by
  induction operations using List.reverseRecOn with
  | nil => exact iff_of_false Bool.false_ne_true not_takesPlace_nil
  | append_singleton operations last ih =>
    rw [takesPlace_append_singleton, ← ih, behind, performAll_append]
    exact isFunction_perform _ last name

/-! ### What initializing names changes -/

theorem depth_define (scopes : Scopes) (name : String) :
    (scopes.define name).depth = scopes.depth :=
  congrArg (· + 1) (scopes.define_length name)

theorem resolve?_eq_or (scopes : Scopes) (name : String) :
    scopes.resolve? name = (resolveInner? name scopes.inner).or
      ((scopes.global.get? name).map (Resolution.mk 0)) := by
  unfold resolve?
  cases resolveInner? name scopes.inner <;> rfl

/-- Initializing a name changes what is found of that name alone, and not where it is found. -/
theorem resolve?_define (scopes : Scopes) (target name : String) :
    (scopes.define target).resolve? name =
      if name = target then (scopes.resolve? target).map Resolution.marked
      else scopes.resolve? name := by
  have absent_iff := defineInner?_eq_none_iff target scopes.inner
  rw [← resolveInner?_eq_none_iff] at absent_iff
  rw [resolve?_eq_or, resolve?_eq_or, resolve?_eq_or]
  cases ok : defineInner? target scopes.inner with
  | some inner =>
    have found := resolveInner?_defineInner? target scopes.inner name
    rw [ok, Option.getD_some] at found
    have held : resolveInner? target scopes.inner ≠ none := fun absent => by
      simp [absent_iff.mpr absent] at ok
    obtain ⟨resolution, here⟩ := Option.ne_none_iff_exists'.mp held
    rw [define_of_inner ok, found, here]
    by_cases same : name = target <;> simp [same]
  | none =>
    have absent := absent_iff.mp ok
    rw [define_of_none ok, Scope.get?_defined]
    by_cases same : name = target
    · simp [same, absent, Resolution.marked, Function.comp_def]
    · simp [same]

/-- The frames behind initializations of several names. -/
def defineAll (scopes : Scopes) (names : List String) : Scopes := names.foldl define scopes

theorem depth_defineAll (scopes : Scopes) (names : List String) :
    (scopes.defineAll names).depth = scopes.depth := by
  induction names generalizing scopes with
  | nil => rfl
  | cons target names ih =>
    show ((scopes.define target).defineAll names).depth = _
    rw [ih, depth_define]

/-- Initializing names changes no place where a name is found. -/
theorem resolve?_defineAll (scopes : Scopes) (names : List String) (name : String) :
    (scopes.defineAll names).resolve? name =
      if name ∈ names then (scopes.resolve? name).map Resolution.marked
      else scopes.resolve? name := by
  induction names generalizing scopes with
  | nil => rfl
  | cons target names ih =>
    show ((scopes.define target).defineAll names).resolve? name = _
    rw [ih, resolve?_define]
    by_cases same : name = target
    · subst same
      cases scopes.resolve? name <;> simp [Resolution.marked]
    · simp [same]

/-! ### Frames inside others -/

/-- More frames inside those there are, the innermost first. -/
def nest (outside : Scopes) (inside : List Scope) : Scopes :=
  ⟨inside ++ outside.inner, outside.global⟩

theorem depth_nest (outside : Scopes) (inside : List Scope) :
    (outside.nest inside).depth = outside.depth + inside.length := by
  simp only [nest, depth, List.length_append]
  omega

/-- In the row the frames inside stand behind those outside. -/
theorem drop_row_nest (outside : Scopes) (inside : List Scope) :
    (outside.nest inside).row.frames.drop outside.depth = inside.reverse := by
  have front : (outside.nest inside).row.frames = outside.row.frames ++ inside.reverse := by
    simp [nest, row]
  rw [front, ← row_depth]
  exact List.drop_left

theorem exit_nest (outside : Scopes) (scope : Scope) (rest : List Scope) :
    (outside.nest (scope :: rest)).exit = outside.nest rest := rfl

/-- A name that one of the frames inside holds is initialized there. -/
theorem define_nest_of_held (outside : Scopes) {inside inner : List Scope} {target : String}
    (held : defineInner? target inside = some inner) :
    (outside.nest inside).define target = outside.nest inner := by
  have taken := defineInner?_append target inside outside.inner
  rw [held, Option.map_some, Option.some_or] at taken
  exact define_of_inner taken

/-- A name that none of the frames inside holds is initialized outside of them. -/
theorem define_nest_of_free (outside : Scopes) {inside : List Scope} {target : String}
    (free : ∀ frame ∈ inside, frame.contains target = false) :
    (outside.nest inside).define target = (outside.define target).nest inside := by
  have passes := (defineInner?_eq_none_iff target inside).mpr free
  have further := defineInner?_append target inside outside.inner
  rw [passes, Option.map_none, Option.none_or] at further
  cases ok : defineInner? target outside.inner with
  | some inner =>
    rw [ok, Option.map_some] at further
    rw [nest, define_of_inner further, define_of_inner ok, nest]
  | none =>
    rw [ok, Option.map_none] at further
    rw [nest, define_of_none further, define_of_none ok, nest]

/-- What an operation does that leaves one of the frames inside: it may initialize a name outside of
them. -/
theorem perform_nest (outside : Scopes) {inside : List Scope} (entered : inside ≠ [])
    (operation : Operation)
    (stays : outside.depth < ((outside.nest inside).perform operation).depth) :
    ∃ inner names, inner ≠ [] ∧
      (outside.nest inside).perform operation = (outside.defineAll names).nest inner ∧
      ∀ name, name ∈ names ↔
        operation = .define name ∧ ∀ frame ∈ inside, frame.contains name = false := by
  obtain ⟨scope, rest, rfl⟩ := List.exists_cons_of_ne_nil entered
  -- Only an initialization can reach the frames outside, and only if no frame inside holds the
  -- name.
  cases operation with
  | enter => exact ⟨.empty :: scope :: rest, [], List.cons_ne_nil _ _, rfl, by simp⟩
  | exit =>
    refine ⟨rest, [], ?_, exit_nest outside scope rest, by simp⟩
    rintro rfl
    rw [perform, exit_nest, depth_nest] at stays
    exact absurd stays (Nat.lt_irrefl _)
  | declare target =>
    refine ⟨(scope.declare? target).getD scope :: rest, [], List.cons_ne_nil _ _, ?_, by simp⟩
    rw [perform, nest, List.cons_append, declare?_cons]
    cases scope.declare? target <;> rfl
  | define target =>
    have free_iff := defineInner?_eq_none_iff target (scope :: rest)
    cases marks : defineInner? target (scope :: rest) with
    | some inner =>
      refine ⟨inner, [], ?_, define_nest_of_held outside marks, fun name => ?_⟩
      · rintro rfl
        cases length_of_defineInner? marks
      · refine iff_of_false List.not_mem_nil ?_
        rintro ⟨same, free⟩
        cases same
        rw [free_iff.mpr free] at marks
        cases marks
    | none =>
      have free := free_iff.mp marks
      refine ⟨scope :: rest, [target], List.cons_ne_nil _ _, define_nest_of_free outside free,
        fun name => ?_⟩
      rw [List.mem_singleton]
      constructor
      · rintro rfl
        exact ⟨rfl, free⟩
      · rintro ⟨same, -⟩
        cases same
        rfl

/-- As many exits as there are frames inside leave all of them. -/
theorem exitAll_nest (outside : Scopes) (inside : List Scope) :
    (outside.nest inside).performAll (List.replicate inside.length .exit) = outside := by
  induction inside with
  | nil => rfl
  | cons scope rest ih => exact ih

/-! ### Leaving a frame -/

/-- No frame is left in which the operations begin. -/
def StaysInside (outside : Scopes) (operations : List Operation) : Prop :=
  ∀ before, before <+: operations →
    outside.depth < (outside.performAll (.enter :: before)).depth

/-- In a frame entered inside `outside`, the operations initialize the name at a moment when neither
that frame nor one inside it holds the name. -/
def Reaches (outside : Scopes) (operations : List Operation) (name : String) : Prop :=
  TakesPlace (.define name) (fun before =>
    ∀ frame ∈ (outside.performAll (.enter :: before)).row.frames.drop outside.depth,
      frame.contains name = false) operations

/-- The frames `left` say of each name what those of `outside` said, but that the names that the
operations reach have become initialized. Nothing else has changed, not even of names that are
hidden. -/
structure Restores (outside : Scopes) (operations : List Operation) (left : Scopes) : Prop where
  depth_eq : left.depth = outside.depth
  resolved_depth_eq : ∀ name,
    (left.resolve? name).map Resolution.depth = (outside.resolve? name).map Resolution.depth
  isInitialized_iff : ∀ name, left.isInitialized name = true ↔
    outside.isInitialized name = true ∨
      outside.isDeclared name = true ∧ outside.Reaches operations name
  marked : ∃ names, (∀ name, name ∈ names ↔ outside.Reaches operations name) ∧
    left = outside.defineAll names

section Leaving

variable {outside : Scopes} {operations : List Operation}

/-- Frames in which exactly the reached names have been initialized are restored. -/
theorem restores_defineAll {names : List String}
    (reaches : ∀ name, name ∈ names ↔ outside.Reaches operations name) :
    outside.Restores operations (outside.defineAll names) where
  depth_eq := outside.depth_defineAll names
  resolved_depth_eq name := by
    rw [resolve?_defineAll]
    split
    · rw [Option.map_map]
      rfl
    · rfl
  isInitialized_iff name := by
    rw [← reaches, isInitialized, isInitialized, isDeclared, resolve?_defineAll]
    cases outside.resolve? name <;> by_cases marked : name ∈ names <;>
      simp [marked, Resolution.marked]
  marked := ⟨names, reaches, rfl⟩

/-- While the frame is not left, the frames outside of it are those there were with the names
initialized that the operations reach. -/
theorem performAll_enter (stays : outside.StaysInside operations) :
    ∃ inside names, inside ≠ [] ∧
      outside.performAll (.enter :: operations) = (outside.defineAll names).nest inside ∧
      ∀ name, name ∈ names ↔ outside.Reaches operations name := by
  induction operations using List.reverseRecOn with
  | nil =>
    refine ⟨[.empty], [], List.cons_ne_nil _ _, rfl, fun name => ?_⟩
    exact iff_of_false List.not_mem_nil not_takesPlace_nil
  | append_singleton operations last ih =>
    obtain ⟨inside, names, entered, reached, reaches⟩ :=
      ih fun before shorter => stays before (shorter.trans (List.prefix_append _ _))
    have behindLast : outside.performAll (.enter :: (operations ++ [last])) =
        ((outside.defineAll names).nest inside).perform last := by
      rw [← reached, ← List.cons_append, performAll_append]
      rfl
    have deeper := stays _ List.prefix_rfl
    rw [behindLast, ← outside.depth_defineAll names] at deeper
    -- the names reached so far are initialized outside already when the last operation looks there
    obtain ⟨inner, more, stillEntered, performed, reachesLast⟩ :=
      perform_nest _ entered last deeper
    refine ⟨inner, names ++ more, stillEntered, ?_, fun name => ?_⟩
    · rw [behindLast, performed, defineAll, defineAll, defineAll, List.foldl_append]
    · have framesInside : ∀ frame,
          frame ∈ (outside.performAll (.enter :: operations)).row.frames.drop outside.depth ↔
            frame ∈ inside := fun frame => by
        rw [reached, ← outside.depth_defineAll names, drop_row_nest, List.mem_reverse]
      rw [List.mem_append, reaches, reachesLast, Reaches, Reaches, takesPlace_append_singleton]
      simp only [framesInside]

end Leaving

/-- Among frames that any operations have led to one is entered, and operations follow that never
leave it. When it is left, by the next exit if the operations leave all frames that they enter, the
frames are as deep as before and each name is found where it was found before, or not at all if it
was not. It is initialized if it was so before, or if it became so at a moment when no frame inside
held it. Kept in one row, the frames answer alike; however often frames have been left, the global
one is in the row. Functions are the names that were declared while it stood alone. -/
theorem leaving_undoes_entering (earlier : List Operation) :
    let outside := behind earlier
    (∀ operations exits, outside.StaysInside operations →
      (outside.performAll (.enter :: operations)).depth = outside.depth + exits →
        outside.Restores operations
          (outside.performAll (.enter :: operations ++ List.replicate exits .exit))) ∧
    (∃ row, FrameRow.fresh.performAll? earlier = some row ∧ 1 ≤ row.depth ∧
      row.AnswersLike outside) ∧
    ∀ name, outside.isFunction name = true ↔
      TakesPlace (.declare name) (fun before => (behind before).depth = 1) earlier := by
  intro outside
  refine ⟨fun operations exits stays deep => ?_, ⟨outside.row, ?_, ?_, outside.row_answersLike⟩,
    isFunction_behind earlier⟩
  · obtain ⟨inside, names, -, reached, reaches⟩ := performAll_enter stays
    rw [reached, depth_nest, depth_defineAll] at deep
    obtain rfl : inside.length = exits := Nat.add_left_cancel deep
    -- Leaving takes off just the frames inside. What is left are the flags set outside.
    rw [performAll_append, reached, exitAll_nest]
    exact restores_defineAll reaches
  · exact row_performAll? (ofGlobal .empty) earlier
  · rw [row_depth]
    exact outside.depth_pos

/-- Behind two exits that have nothing to leave, a function is declared, and a frame is entered that
declares `x` and `y`. -/
def twoNames : List Operation :=
  [.exit, .exit, .declare "f", .define "f", .enter, .declare "x", .declare "y"]

/-- Both names are hidden and initialized, and `x` once more when it is not hidden any longer. -/
def shadowing : List Operation :=
  [.declare "y", .define "y", .enter, .declare "x", .define "x", .exit, .define "x"]

/-- Behind the exit `x` is initialized and `y` is not. -/
theorem leaving_undoes_entering_shadowing :
    let outside := behind twoNames
    let left := outside.performAll (.enter :: shadowing ++ [.exit])
    outside.StaysInside shadowing ∧
    (outside.performAll (.enter :: shadowing)).depth = outside.depth + 1 ∧
    outside.Restores shadowing left ∧
    left.resolve? "x" = some ⟨1, true⟩ ∧ left.resolve? "y" = some ⟨1, false⟩ ∧
    ¬ outside.isInitialized "x" = true ∧ outside.Reaches shadowing "x" := by
  intro outside left
  have stays : outside.StaysInside shadowing := by
    have everywhere : ∀ before ∈ shadowing.inits,
        outside.depth < (outside.performAll (.enter :: before)).depth := by decide
    exact fun before front => everywhere before ((List.mem_inits before shadowing).mpr front)
  have deep : (outside.performAll (.enter :: shadowing)).depth = outside.depth + 1 := by decide
  have restores := (leaving_undoes_entering twoNames).1 shadowing 1 stays deep
  have unset : ¬ outside.isInitialized "x" = true := by decide
  have set_x : left.resolve? "x" = some ⟨1, true⟩ := by decide
  have unset_y : left.resolve? "y" = some ⟨1, false⟩ := by decide
  have known : left.isInitialized "x" = true := by decide
  refine ⟨stays, deep, restores, set_x, unset_y, unset, ?_⟩
  exact (((restores.isInitialized_iff "x").mp known).resolve_left unset).2

end Scopes

end ImpStack

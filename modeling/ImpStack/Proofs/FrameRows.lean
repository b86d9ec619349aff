import ImpStack.Proofs.ScopeDecision
import ImpStack.Scope.FrameRow

/-!
Operations on frames, one after another. The frames in one row, in which the scopes are kept
(SPEC_FULL, section 3), say what the nested ones say behind any operations, and the global frame is
always in the row (`row_answersLike`, `row_performAll?`).
-/
namespace ImpStack

namespace Scopes

/-- What the check of scopes does to frames. -/
inductive Operation where
  | enter
  | exit
  | declare (name : String)
  | define (name : String)
  deriving DecidableEq, Repr

/-- A name that the innermost frame holds already is not declared again. -/
def perform (scopes : Scopes) : Operation → Scopes
  | .enter => scopes.enter
  | .exit => scopes.exit
  | .declare name => (scopes.declare? name).getD scopes
  | .define name => scopes.define name

/-- Several operations, one after the other. -/
def performAll (scopes : Scopes) (operations : List Operation) : Scopes :=
  operations.foldl perform scopes

/-- The frames behind several operations, the first of which finds the empty global frame. -/
def behind (operations : List Operation) : Scopes := (ofGlobal .empty).performAll operations

theorem performAll_append (scopes : Scopes) (first second : List Operation) :
    scopes.performAll (first ++ second) = (scopes.performAll first).performAll second :=
  List.foldl_append

/-- All frames, each at its depth. -/
def row (scopes : Scopes) : FrameRow := ⟨scopes.global :: scopes.inner.reverse⟩

end Scopes

namespace FrameRow

open Scopes (Operation)

/-- An operation, if the row has the frame that it looks at. -/
def perform? (row : FrameRow) : Operation → Option FrameRow
  | .enter => some row.enter
  | .exit => some row.exit
  | .declare name => (row.declare? name).map Prod.snd
  | .define name => some (row.define name)

/-- The row behind several operations, each of which finds the frame that it looks at. -/
def performAll? (row : FrameRow) (operations : List Operation) : Option FrameRow :=
  operations.foldlM perform? row

/-- What the row tells of its depth, of declarations, names and functions is what the nested frames
tell. -/
structure AnswersLike (row : FrameRow) (scopes : Scopes) : Prop where
  depth_eq : row.depth = scopes.depth
  declare?_eq : ∀ name, (row.declare? name).map Prod.fst = some (scopes.declare? name).isSome
  resolve?_eq : ∀ name, row.resolve? name = scopes.resolve? name
  isFunction?_eq : ∀ name, row.isFunction? name = some (scopes.isFunction name)

/-! ### A row by its last frame -/

/-- The last frame of a row is dropped, unless it is the only one. -/
theorem exit_append_singleton {frames : List Scope} (scope : Scope) (inside : frames ≠ []) :
    exit ⟨frames ++ [scope]⟩ = ⟨frames⟩ := by
  have several : 1 < depth ⟨frames ++ [scope]⟩ := by
    simpa [depth] using List.length_pos_iff.mpr inside
  rw [exit, if_pos several, List.dropLast_concat]

theorem declare?_append_singleton (frames : List Scope) (scope : Scope) (name : String) :
    declare? ⟨frames ++ [scope]⟩ name =
      some ((scope.declare? name).isSome, ⟨frames ++ [(scope.declare? name).getD scope]⟩) := by
  unfold declare?
  cases ok : scope.declare? name <;> simp [depth, ok]

/-- The last frame is asked first, and its depth is the number of frames in front of it. -/
theorem resolve?_append_singleton (frames : List Scope) (scope : Scope) (name : String) :
    resolve? ⟨frames ++ [scope]⟩ name =
      ((scope.get? name).map (Resolution.mk frames.length)).or (resolve? ⟨frames⟩ name) := by
  unfold resolve?
  rw [List.zipIdx_append, List.reverse_append, List.zipIdx_singleton, List.reverse_singleton,
    List.singleton_append, List.findSome?_cons, Nat.zero_add]
  cases scope.get? name <;> rfl

/-- The frames are searched from the innermost outwards. -/
theorem defineFirst_append (name : String) (inner outer : List Scope) :
    defineFirst name (inner ++ outer) =
      ((Scopes.defineInner? name inner).map (· ++ outer)).getD
        (inner ++ defineFirst name outer) := by
  induction inner with
  | nil => rfl
  | cons scope rest ih =>
    rw [List.cons_append, defineFirst, Scopes.defineInner?]
    cases scope.define? name with
    | some defined => rfl
    | none =>
      show scope :: defineFirst name (rest ++ outer) = _
      rw [ih]
      cases Scopes.defineInner? name rest <;> rfl

end FrameRow

namespace Scopes

/-! ### The row of nested frames -/

theorem row_cons (scope : Scope) (outer : List Scope) (global : Scope) :
    row ⟨scope :: outer, global⟩ = ⟨(row ⟨outer, global⟩).frames ++ [scope]⟩ := by
  simp [row]

theorem declare?_cons (scope : Scope) (outer : List Scope) (global : Scope) (name : String) :
    declare? ⟨scope :: outer, global⟩ name =
      (scope.declare? name).map fun declared => ⟨declared :: outer, global⟩ := rfl

theorem row_depth (scopes : Scopes) : scopes.row.depth = scopes.depth := by
  simp [row, FrameRow.depth, depth]

theorem row_enter (scopes : Scopes) : scopes.row.enter = scopes.enter.row :=
  (row_cons .empty scopes.inner scopes.global).symm

theorem row_exit (scopes : Scopes) : scopes.row.exit = scopes.exit.row := by
  obtain ⟨inner, global⟩ := scopes
  cases inner with
  | nil => rfl
  | cons scope outer =>
    rw [row_cons]
    exact FrameRow.exit_append_singleton scope (List.cons_ne_nil _ _)

theorem row_declare? (scopes : Scopes) (name : String) :
    scopes.row.declare? name =
      some ((scopes.declare? name).isSome, ((scopes.declare? name).getD scopes).row) := by
  obtain ⟨inner, global⟩ := scopes
  cases inner with
  | nil =>
    show FrameRow.declare? ⟨[] ++ [global]⟩ name = _
    rw [FrameRow.declare?_append_singleton]
    unfold declare?
    cases global.declare? name <;> rfl
  | cons scope outer =>
    rw [row_cons, FrameRow.declare?_append_singleton, declare?_cons]
    cases scope.declare? name <;> simp [row_cons]

/-- Defining a name changes the same frame of the row as of the nested frames. -/
theorem row_define (scopes : Scopes) (name : String) :
    scopes.row.define name = (scopes.define name).row := by
  have reversed : scopes.row.frames.reverse = scopes.inner ++ [scopes.global] := by simp [row]
  unfold FrameRow.define define
  rw [reversed, FrameRow.defineFirst_append]
  cases defineInner? name scopes.inner with
  | some inner => simp [row]
  | none => cases ok : scopes.global.define? name <;> simp [row, FrameRow.defineFirst, ok]

/-- A name is found at the same depth, with the same flag. -/
theorem row_resolve? (scopes : Scopes) (name : String) :
    scopes.row.resolve? name = scopes.resolve? name := by
  obtain ⟨inner, global⟩ := scopes
  induction inner with
  | nil =>
    show FrameRow.resolve? ⟨[] ++ [global]⟩ name = _
    rw [FrameRow.resolve?_append_singleton]
    exact Option.or_none
  | cons scope outer ih =>
    rw [row_cons, FrameRow.resolve?_append_singleton, ih]
    show ((scope.get? name).map (Resolution.mk (row ⟨outer, global⟩).depth)).or _ = _
    rw [row_depth]
    unfold resolve?
    rw [resolveInner?_cons]
    cases scope.get? name <;> rfl

theorem row_isFunction? (scopes : Scopes) (name : String) :
    scopes.row.isFunction? name = some (scopes.isFunction name) := rfl

theorem row_answersLike (scopes : Scopes) : scopes.row.AnswersLike scopes where
  depth_eq := scopes.row_depth
  declare?_eq name := by rw [row_declare?, Option.map_some]
  resolve?_eq := scopes.row_resolve?
  isFunction?_eq := scopes.row_isFunction?

/-- On the row of nested frames no operation fails. -/
theorem row_perform? (scopes : Scopes) (operation : Operation) :
    scopes.row.perform? operation = some (scopes.perform operation).row := by
  cases operation with
  | enter => exact congrArg some scopes.row_enter
  | exit => exact congrArg some scopes.row_exit
  | declare name => rw [FrameRow.perform?, row_declare?, Option.map_some, perform]
  | define name => exact congrArg some (scopes.row_define name)

/-- The row behind operations is that of the nested frames behind them. -/
theorem row_performAll? (scopes : Scopes) (operations : List Operation) :
    scopes.row.performAll? operations = some (scopes.performAll operations).row := by
  induction operations generalizing scopes with
  | nil => rfl
  | cons operation rest ih =>
    rw [FrameRow.performAll?, List.foldlM_cons, row_perform?]
    exact ih (scopes.perform operation)

end Scopes

end ImpStack

/-!
Names in nested frames. A name is first declared and becomes initialized later, when it has a value.

Embeds the scopes of SPEC_FULL, section 3: `enter`, `exit`, `depth`, `declare?`, `resolve?`,
`isDeclared`, `isFunction`, `isInitialized` and `define`, there `initialize`, on a stack of frames.
The global frame is a field of its own, so that no operation can leave it; `FrameRow` has the frames
in one row, as they are kept.
-/
namespace ImpStack

/-- One frame: its names in the order of their declarations, each with whether it is
initialized. -/
structure Scope where
  entries : List (String × Bool)
  deriving DecidableEq, Repr

namespace Scope

def empty : Scope := ⟨[]⟩

/-- Whether the name is initialized, if it is declared. -/
def get? (scope : Scope) (name : String) : Option Bool := scope.entries.lookup name

def contains (scope : Scope) (name : String) : Bool := (scope.get? name).isSome

/-- A name that is declared already cannot be declared again. -/
def declare? (scope : Scope) (name : String) : Option Scope :=
  if scope.contains name then none else some ⟨scope.entries ++ [(name, false)]⟩

/-- Only a declared name can be initialized. -/
def define? (scope : Scope) (name : String) : Option Scope :=
  if scope.contains name then
    some ⟨scope.entries.map fun entry => if entry.1 = name then (name, true) else entry⟩
  else none

/-- The frame in which all of `names` are declared and initialized. -/
def ofNames (names : List String) : Scope := ⟨names.map fun name => (name, true)⟩

def names (scope : Scope) : List String := scope.entries.map Prod.fst

end Scope

/-- Where a name was found. -/
structure Resolution where
  /-- The number of frames outside the one that holds the name; zero is the global frame. -/
  depth : Nat
  initialized : Bool
  deriving DecidableEq, Repr

def Resolution.isGlobal (resolution : Resolution) : Bool := resolution.depth = 0

/-- A global frame, which only holds functions and is never left, and frames inside it, the
innermost first. -/
structure Scopes where
  inner : List Scope
  global : Scope
  deriving DecidableEq, Repr

namespace Scopes

def ofGlobal (global : Scope) : Scopes := ⟨[], global⟩

def enter (scopes : Scopes) : Scopes := { scopes with inner := .empty :: scopes.inner }

def exit (scopes : Scopes) : Scopes := { scopes with inner := scopes.inner.tail }

/-- The number of frames, the global one counted. -/
def depth (scopes : Scopes) : Nat := scopes.inner.length + 1

/-- Declares a name in the innermost frame. -/
def declare? (scopes : Scopes) (name : String) : Option Scopes :=
  match scopes.inner with
  | [] => (scopes.global.declare? name).map fun global => { scopes with global }
  | scope :: outer =>
    (scope.declare? name).map fun scope => { scopes with inner := scope :: outer }

def resolveInner? (name : String) : List Scope → Option Resolution
  | [] => none
  | scope :: outer =>
    match scope.get? name with
    | some initialized => some ⟨outer.length + 1, initialized⟩
    | none => resolveInner? name outer

/-- Looks a name up from the innermost frame outwards. -/
def resolve? (scopes : Scopes) (name : String) : Option Resolution :=
  match resolveInner? name scopes.inner with
  | some resolution => some resolution
  | none => (scopes.global.get? name).map fun initialized => ⟨0, initialized⟩

def isDeclared (scopes : Scopes) (name : String) : Bool := (scopes.resolve? name).isSome

/-- Whether the global frame holds the name; local names do not hide functions. -/
def isFunction (scopes : Scopes) (name : String) : Bool := scopes.global.contains name

def isInitialized (scopes : Scopes) (name : String) : Bool :=
  (scopes.resolve? name).any Resolution.initialized

def defineInner? (name : String) : List Scope → Option (List Scope)
  | [] => none
  | scope :: outer =>
    match scope.define? name with
    | some scope => some (scope :: outer)
    | none => (defineInner? name outer).map (scope :: ·)

/-- Marks the innermost declaration of a name as initialized, if there is one. -/
def define (scopes : Scopes) (name : String) : Scopes :=
  match defineInner? name scopes.inner with
  | some inner => { scopes with inner }
  | none =>
    match scopes.global.define? name with
    | some global => { scopes with global }
    | none => scopes

@[simp]
theorem exit_enter (scopes : Scopes) : scopes.enter.exit = scopes := rfl

theorem depth_pos (scopes : Scopes) : 0 < scopes.depth := Nat.succ_pos _

end Scopes

end ImpStack

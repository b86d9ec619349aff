import ImpStack.Proofs.Evaluation
import ImpStack.Proofs.ScopeCheck

/-!
Block scoping, where every block has a frame of its own, against one flat map for each call. While a
name lies in one frame only, the frames hold nothing that the flat map does not hold; what the map
may hold in addition are the names of blocks that have been left. So the two can differ only where a
name is read whose block has been left, and that the check of scopes excludes (`Mirrors`).

`Rules.blocks` is the independent side of the comparison: it neither mentions slots nor the check.
-/
namespace ImpStack

/-- The frames of a call: one for its parameters and one for every block it is in, the innermost
first. -/
abbrev BlockVars := List Vars

namespace BlockVars

/-- The value in the innermost frame that holds the name. -/
def read? (blocks : BlockVars) (name : String) : Option Value := blocks.findSome? (· name)

/-- Assigns to the innermost frame that holds the name, if there is one. -/
def update? (name : String) (value : Value) : BlockVars → Option BlockVars
  | [] => none
  | vars :: outer =>
    match vars name with
    | some _ => some (vars.set name value :: outer)
    | none => (update? name value outer).map (vars :: ·)

/-- Creates the name in the innermost frame. -/
def create (name : String) (value : Value) : BlockVars → BlockVars
  | [] => [Vars.empty.set name value]
  | vars :: outer => vars.set name value :: outer

def write (blocks : BlockVars) (name : String) (value : Value) : BlockVars :=
  (update? name value blocks).getD (create name value blocks)

end BlockVars

/-- A fresh frame for every block that is entered; conditions are judged as with flat variables. -/
def Rules.blocks : Rules BlockVars where
  bind names args := [Vars.ofArgs names args]
  read? := BlockVars.read?
  write := BlockVars.write
  enter blocks := Vars.empty :: blocks
  leave := List.tail
  judge := Rules.flat.judge

namespace BlockVars

variable {blocks outer : BlockVars} {vars : Vars} {name other : String} {value : Value}

theorem read?_cons (vars : Vars) (outer : BlockVars) (name : String) :
    read? (vars :: outer) name = (vars name).or (read? outer name) := by
  unfold read?
  rw [List.findSome?_cons]
  cases vars name <;> rfl

/-- There is a frame to update exactly if the name can be read. -/
theorem update?_eq_none (blocks : BlockVars) (name : String) (value : Value) :
    update? name value blocks = none ↔ read? blocks name = none := by
  induction blocks with
  | nil => simp [update?, read?]
  | cons vars outer ih =>
    rw [read?_cons, update?]
    cases vars name with
    | some old => simp
    | none => simpa using ih

/-- Where an assignment goes: to the first frame if that holds the name or no frame does. -/
theorem write_cons (vars : Vars) (outer : BlockVars) (name : String) (value : Value) :
    write (vars :: outer) name value =
      if vars name = none ∧ read? outer name ≠ none then vars :: write outer name value
      else vars.set name value :: outer := by
  rw [write, update?]
  cases here : vars name with
  | some old => simp
  | none =>
    cases updated : update? name value outer with
    | none =>
      have absent := (update?_eq_none outer name value).mp updated
      simp [absent, create]
    | some updatedOuter =>
      have present : read? outer name ≠ none := by
        intro absent
        rw [(update?_eq_none outer name value).mpr absent] at updated
        cases updated
      simp [present, write, updated]

/-- After an assignment the name has the value, and no other name has changed. -/
theorem read?_write (blocks : BlockVars) (name other : String) (value : Value) :
    read? (write blocks name value) other =
      if other = name then some value else read? blocks other := by
  induction blocks with
  | nil => simp [write, update?, create, read?, Vars.set, Vars.empty]
  | cons vars outer ih =>
    rw [write_cons]
    split
    · next elsewhere =>
      rw [read?_cons, ih, read?_cons]
      split
      · next same => rw [same, elsewhere.1, Option.none_or]
      · rfl
    · rw [read?_cons, read?_cons, Vars.set]
      split <;> simp

/-- No name lies in two frames. -/
def Single : BlockVars → Prop
  | [] => True
  | vars :: outer => (∀ name, vars name ≠ none → read? outer name = none) ∧ Single outer

/-- An assignment creates no second place for a name. -/
theorem Single.write (single : Single blocks) (name : String) (value : Value) :
    Single (blocks.write name value) := by
  -- By induction on the frames: the value goes to the innermost frame only if no outer one holds
  -- the name, and then no other has it.
  induction blocks with
  | nil => simp [BlockVars.write, update?, create, Single, read?]
  | cons vars outer ih =>
    rw [write_cons]
    split
    · next elsewhere =>
      refine ⟨fun other present => ?_, ih single.2⟩
      have different : other ≠ name := fun same => present (same ▸ elsewhere.1)
      rw [read?_write, if_neg different]
      exact single.1 other present
    · next here =>
      refine ⟨fun other present => ?_, single.2⟩
      by_cases same : other = name
      · rw [same]
        cases held : read? outer name with
        | none => rfl
        | some old =>
          have present : vars name ≠ none := fun absent => here ⟨absent, by simp [held]⟩
          rw [single.1 name present] at held
          cases held
      · refine single.1 other ?_
        simpa [Vars.set, same] using present

/-- Every initialized name of a checked frame has a value in the frame at its place or outside of
that. -/
def Covers : List Scope → BlockVars → Prop
  | [], _ => True
  | _ :: _, [] => False
  | scope :: scopes, vars :: outer =>
    (∀ name, (name, true) ∈ scope.entries → read? (vars :: outer) name ≠ none) ∧
      Covers scopes outer

/-- An assignment takes no value away. -/
theorem read?_write_ne_none (held : read? blocks other ≠ none) :
    read? (blocks.write name value) other ≠ none := by
  rw [read?_write]
  split
  · simp
  · exact held

/-- An assignment keeps what the check knows to have values. -/
theorem Covers.write {scopes : List Scope} (covers : Covers scopes blocks) (name : String)
    (value : Value) : Covers scopes (blocks.write name value) := by
  induction blocks generalizing scopes with
  | nil =>
    cases scopes with
    | nil => trivial
    | cons => exact covers.elim
  | cons vars outer ih =>
    cases scopes with
    | nil => trivial
    | cons scope scopes =>
      have kept : ∀ other, (other, true) ∈ scope.entries →
          read? (BlockVars.write (vars :: outer) name value) other ≠ none :=
        fun other known => read?_write_ne_none (covers.1 other known)
      rw [write_cons] at kept ⊢
      split at kept
      · next elsewhere =>
        rw [if_pos elsewhere]
        exact ⟨kept, ih covers.2⟩
      · next here =>
        rw [if_neg here]
        exact ⟨kept, covers.2⟩

/-- What the innermost checked frame promises may change with what is held. -/
theorem Covers.head {scope changed : Scope} {scopes : List Scope}
    (covers : Covers (scope :: scopes) blocks)
    (known : ∀ name, (name, true) ∈ changed.entries →
      read? blocks name ≠ none ∨ (name, true) ∈ scope.entries) :
    Covers (changed :: scopes) blocks := by
  cases blocks with
  | nil => exact covers.elim
  | cons vars outer =>
    refine ⟨fun name member => ?_, covers.2⟩
    obtain held | before := known name member
    · exact held
    · exact covers.1 name before

/-- A variable that passes the check has a value. -/
theorem Covers.held {scopes : List Scope} (covers : Covers scopes blocks)
    {resolution : Resolution} (found : Scopes.resolveInner? name scopes = some resolution)
    (initialized : resolution.initialized = true) : read? blocks name ≠ none := by
  induction scopes generalizing blocks with
  | nil => cases found
  | cons scope scopes ih =>
    cases blocks with
    | nil => exact covers.elim
    | cons vars outer =>
      unfold Scopes.resolveInner? at found
      split at found
      · next flag here =>
        obtain rfl := Option.some.inj found
        obtain rfl : flag = true := initialized
        exact covers.1 name (Scope.mem_of_get? here)
      · rw [read?_cons]
        have outerHeld := ih covers.2 found
        cases vars name with
        | some value => simp
        | none => simpa using outerHeld

end BlockVars

/-- The frames of a checked call and the flat map that stands for them. -/
structure Mirrors (scopes : List Scope) (blocks : BlockVars) (vars : Vars) : Prop where
  covers : BlockVars.Covers scopes blocks
  single : blocks.Single
  agrees : ∀ name value, blocks.read? name = some value → vars name = some value

namespace Mirrors

variable {scope : Scope} {scopes : List Scope} {blocks : BlockVars} {vars : Vars}

/-- A variable that passes the check has a value in the frames, and the flat map has the same
one. -/
theorem held (mirrors : Mirrors scopes blocks vars) {name : String} {resolution : Resolution}
    (found : Scopes.resolveInner? name scopes = some resolution)
    (initialized : resolution.initialized = true) :
    ∃ value, blocks.read? name = some value ∧ vars name = some value := by
  obtain ⟨value, here⟩ := Option.ne_none_iff_exists'.mp (mirrors.covers.held found initialized)
  exact ⟨value, here, mirrors.agrees name value here⟩

theorem write {changed : Scope} (mirrors : Mirrors (scope :: scopes) blocks vars) {target : String}
    (known : ∀ name, (name, true) ∈ changed.entries →
      name = target ∨ (name, true) ∈ scope.entries) (value : Value) :
    Mirrors (changed :: scopes) (blocks.write target value) (vars.set target value) where
  covers := by
    refine (mirrors.covers.write target value).head fun name member => ?_
    obtain rfl | before := known name member
    · left
      simp [BlockVars.read?_write]
    · exact .inr before
  single := mirrors.single.write target value
  agrees := by
    intro name found here
    rw [BlockVars.read?_write] at here
    unfold Vars.set
    split at here
    · next same => rw [if_pos same, here]
    · next different => rw [if_neg different, mirrors.agrees name found here]

theorem head {changed : Scope} (mirrors : Mirrors (scope :: scopes) blocks vars)
    (known : ∀ name, (name, true) ∈ changed.entries → (name, true) ∈ scope.entries) :
    Mirrors (changed :: scopes) blocks vars where
  covers := mirrors.covers.head fun name member => .inr (known name member)
  single := mirrors.single
  agrees := mirrors.agrees

/-- An empty frame on both sides hides nothing. -/
theorem enter (mirrors : Mirrors scopes blocks vars) :
    Mirrors (.empty :: scopes) (.empty :: blocks) vars where
  covers := ⟨fun name member => (List.not_mem_nil member).elim, mirrors.covers⟩
  single := ⟨fun name present => absurd rfl present, mirrors.single⟩
  agrees := by
    intro name value here
    rw [BlockVars.read?_cons] at here
    exact mirrors.agrees name value here

/-- What a block has created may be dropped from the frames; the flat map keeps it. -/
theorem leave (mirrors : Mirrors (scope :: scopes) blocks vars) :
    Mirrors scopes blocks.tail vars := by
  cases blocks with
  | nil => exact mirrors.covers.elim
  | cons inner outer =>
    refine ⟨mirrors.covers.2, mirrors.single.2, fun name value here => ?_⟩
    refine mirrors.agrees name value ?_
    rw [BlockVars.read?_cons]
    cases own : inner name with
    | none => exact here
    | some other =>
      have absent := mirrors.single.1 name (by simp [own])
      rw [List.tail_cons, absent] at here
      cases here

end Mirrors

end ImpStack

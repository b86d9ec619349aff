import Mathlib.Data.List.Basic
import ImpStack.Proofs.Lowering

/-!
The uses of names in a function, in the order in which they are met, each with the block that it
stands in; and the first element of a list that is refused when the ones before it are known. These
are the common ground of the two stages that refuse programs: the check of scopes and the generation
of code each refuse the first visit that breaks a rule of theirs, and `Accords` says that a
computation does what such a search finds.
-/
namespace ImpStack

/-- A block of a function, by the way from the function's body into it. A step is the number of a
statement and whether the way goes into its alternative. The last step stands first. -/
abbrev BlockPath := List (Nat × Bool)

/-- A point of a function where a name matters. -/
inductive Use where
  /-- A variable is read on the right sides of assignments to the names `inside`, which are not
  complete there. -/
  | read (name : String) (position : Position) (inside : List String)
  | call (callee : String) (count : Nat) (position : Position)
  /-- An assignment is complete. -/
  | assigned (target : String)
  deriving DecidableEq, Repr

/-- A use of a name and the block in which it stands. -/
structure Visit where
  block : BlockPath
  use : Use
  deriving DecidableEq, Repr

mutual

/-- The uses of names in an expression on the right sides of assignments to `inside`. A callee comes
before its arguments, and an assignment is complete behind its right side. -/
def Expr.uses (inside : List String) : Expr → List Use
  | .int .. => []
  | .float .. => []
  | .var position name => [.read name position inside]
  | .binary _ _ left right => left.uses inside ++ right.uses inside
  | .negate _ operand => operand.uses inside
  | .call position callee args => .call callee args.length position :: Expr.usesOfAll inside args
  | .assign _ target value => value.uses (target :: inside) ++ [.assigned target]
termination_by structural expr => expr

/-- The uses in several expressions, from the left. -/
def Expr.usesOfAll (inside : List String) : List Expr → List Use
  | [] => []
  | first :: rest => first.uses inside ++ Expr.usesOfAll inside rest
termination_by structural exprs => exprs

end

/-- The uses in an expression of a statement that stands directly in `block`. -/
def Expr.visits (block : BlockPath) (inside : List String) (e : Expr) : List Visit :=
  (e.uses inside).map (Visit.mk block)

/-- The uses in several expressions of a statement. -/
def Expr.visitsOfAll (block : BlockPath) (inside : List String) (es : List Expr) : List Visit :=
  (Expr.usesOfAll inside es).map (Visit.mk block)

mutual

/-- The uses in statement number `index` of `block`. A condition belongs to the block of its
statement. -/
def Stmt.visits (block : BlockPath) (index : Nat) : Stmt → List Visit
  | .assign _ target value => value.visits block [target] ++ [⟨block, .assigned target⟩]
  | .discard _ value => value.visits block []
  | .print _ value => value.visits block []
  | .branch _ condition body none =>
    condition.visits block [] ++ Stmt.visitsOfAll ((index, false) :: block) 0 body
  | .branch _ condition body (some alternative) =>
    condition.visits block [] ++ (Stmt.visitsOfAll ((index, false) :: block) 0 body ++
      Stmt.visitsOfAll ((index, true) :: block) 0 alternative)
  | .loop _ condition body =>
    condition.visits block [] ++ Stmt.visitsOfAll ((index, false) :: block) 0 body
  | .return_ _ none => []
  | .return_ _ (some value) => value.visits block []
  | .block _ body => Stmt.visitsOfAll ((index, false) :: block) 0 body
termination_by structural statement => statement

/-- The uses in the statements of `block` from number `index` on. -/
def Stmt.visitsOfAll (block : BlockPath) (index : Nat) : List Stmt → List Visit
  | [] => []
  | first :: rest => first.visits block index ++ Stmt.visitsOfAll block (index + 1) rest
termination_by structural body => body

end

/-- The uses of names in a function's body, whose own path is empty. -/
def Function.visits (function : Function) : List Visit := Stmt.visitsOfAll [] 0 function.body

namespace Expr

variable {block : BlockPath} {inside : List String} {position : Position}

theorem visits_binary (op : BinaryOp) (left right : Expr) :
    (binary position op left right).visits block inside =
      left.visits block inside ++ right.visits block inside := by
  simp [visits, uses]

/-- A callee is met before the arguments. -/
theorem visits_call (callee : String) (args : List Expr) :
    (call position callee args).visits block inside =
      ⟨block, .call callee args.length position⟩ :: visitsOfAll block inside args := by
  simp [visits, visitsOfAll, uses]

/-- A target is complete behind its right side. -/
theorem visits_assign (target : String) (value : Expr) :
    (assign position target value).visits block inside =
      value.visits block (target :: inside) ++ [⟨block, .assigned target⟩] := by
  simp [visits, uses]

theorem visitsOfAll_cons (first : Expr) (rest : List Expr) :
    visitsOfAll block inside (first :: rest) =
      first.visits block inside ++ visitsOfAll block inside rest := by
  simp [visits, visitsOfAll, usesOfAll]

end Expr

/-! ### Where the visits of a phrase stand -/

/-- Expressions open no blocks. -/
theorem Expr.block_of_mem_visits {block : BlockPath} {inside : List String} {e : Expr}
    {visit : Visit} (member : visit ∈ e.visits block inside) : visit.block = block := by
  obtain ⟨use, _, rfl⟩ := List.mem_map.mp member
  rfl

/-- A block around another one holds what that one holds. -/
theorem suffix_of_step {step : Nat × Bool} {block inner : BlockPath}
    (within : step :: block <:+ inner) : block <:+ inner :=
  (List.suffix_cons step block).trans within

/-- A block does not lie inside itself. -/
theorem not_step_suffix (step : Nat × Bool) (block : BlockPath) : ¬ step :: block <:+ block :=
  fun within => Nat.not_succ_le_self _ within.length_le

/-- The way into a block leads through one child of each block around it. -/
theorem step_eq_of_suffix {step other : Nat × Bool} {block inner : BlockPath}
    (within : step :: block <:+ inner) (otherWithin : other :: block <:+ inner) :
    step = other := by
  have same := List.suffix_of_suffix_length_le within otherWithin (by simp)
  exact (List.cons.inj (same.eq_of_length (by simp))).1

mutual

/-- A visit of a statement stands directly in the block of the statement or inside of the
statement. -/
theorem Stmt.place_of_mem_visits (statement : Stmt) {block : BlockPath} {index : Nat}
    {visit : Visit} (member : visit ∈ statement.visits block index) :
    visit.block = block ∨ ∃ other, (index, other) :: block <:+ visit.block := by
  cases statement with
  | assign position target value =>
    rcases List.mem_append.mp member with here | last
    · exact .inl (Expr.block_of_mem_visits here)
    · exact .inl (List.mem_singleton.mp last ▸ rfl)
  | discard position value => exact .inl (Expr.block_of_mem_visits member)
  | print position value => exact .inl (Expr.block_of_mem_visits member)
  | branch position condition body alternative =>
    cases alternative with
    | none =>
      rcases List.mem_append.mp member with here | here
      · exact .inl (Expr.block_of_mem_visits here)
      · exact .inr ⟨_, suffix_of_mem_visitsOfAll body here⟩
    | some alternative =>
      rcases List.mem_append.mp member with here | here
      · exact .inl (Expr.block_of_mem_visits here)
      · rcases List.mem_append.mp here with here | here
        · exact .inr ⟨_, suffix_of_mem_visitsOfAll body here⟩
        · exact .inr ⟨_, suffix_of_mem_visitsOfAll alternative here⟩
  | loop position condition body =>
    rcases List.mem_append.mp member with here | here
    · exact .inl (Expr.block_of_mem_visits here)
    · exact .inr ⟨_, suffix_of_mem_visitsOfAll body here⟩
  | return_ position value =>
    cases value with
    | none => cases member
    | some value => exact .inl (Expr.block_of_mem_visits member)
  | block position body => exact .inr ⟨_, suffix_of_mem_visitsOfAll body member⟩
termination_by structural statement

/-- What is met in the statements of a block lies in that block. -/
theorem Stmt.suffix_of_mem_visitsOfAll (body : List Stmt) {block : BlockPath} {index : Nat}
    {visit : Visit} (member : visit ∈ Stmt.visitsOfAll block index body) :
    block <:+ visit.block := by
  cases body with
  | nil => cases member
  | cons first rest =>
    rcases List.mem_append.mp member with here | here
    · rcases place_of_mem_visits first here with direct | ⟨other, within⟩
      · exact direct ▸ List.suffix_refl _
      · exact suffix_of_step within
    · exact suffix_of_mem_visitsOfAll rest here
termination_by structural body

end

/-! ### The first element that is refused -/

/-- What `judge` says of the first element that it refuses; it is told which elements stand before
the one that it judges. -/
def firstRefusal {α ε : Type} (judge : List α → α → Option ε) (before : List α) :
    List α → Option ε
  | [] => none
  | x :: rest => (judge before x).or (firstRefusal judge (before ++ [x]) rest)

section

variable {α ε : Type} {judge other : List α → α → Option ε}

/-- A list in two parts: the first part is searched first. -/
theorem firstRefusal_append (before first second : List α) :
    firstRefusal judge before (first ++ second) =
      (firstRefusal judge before first).or (firstRefusal judge (before ++ first) second) := by
  induction first generalizing before with
  | nil => simp [firstRefusal]
  | cons x rest ih => simp [firstRefusal, ih, Option.or_assoc]

/-- Nothing is refused exactly if every element is accepted behind those before it. -/
theorem firstRefusal_eq_none_iff (before xs : List α) :
    firstRefusal judge before xs = none ↔
      ∀ passed x later, xs = passed ++ x :: later → judge (before ++ passed) x = none := by
  induction xs generalizing before with
  | nil => simp [firstRefusal]
  | cons first rest ih =>
    rw [firstRefusal, Option.or_eq_none_iff, ih]
    constructor
    · rintro ⟨head, tail⟩ passed x later split
      cases passed with
      | nil =>
        obtain ⟨rfl, rfl⟩ := List.cons.inj split
        simpa using head
      | cons y passed =>
        obtain ⟨rfl, rfl⟩ := List.cons.inj split
        simpa using tail passed x later rfl
    · intro all
      constructor
      · simpa using all [] first rest rfl
      · intro passed x later split
        simpa using all (first :: passed) x later (by rw [split, List.cons_append])

/-- What is refused first is refused behind elements that are all accepted. -/
theorem firstRefusal_eq_some_iff (before xs : List α) (error : ε) :
    firstRefusal judge before xs = some error ↔
      ∃ passed x later, xs = passed ++ x :: later ∧ judge (before ++ passed) x = some error ∧
        firstRefusal judge before passed = none := by
  constructor
  · intro refused
    induction xs generalizing before with
    | nil => cases refused
    | cons first rest ih =>
      rw [firstRefusal, Option.or_eq_some_iff] at refused
      rcases refused with head | ⟨accepted, tail⟩
      · exact ⟨[], first, rest, rfl, by simpa using head, rfl⟩
      · obtain ⟨passed, x, later, rfl, refuses, none⟩ := ih _ tail
        exact ⟨first :: passed, x, later, rfl, by simpa using refuses,
          by simp [firstRefusal, accepted, none]⟩
  · rintro ⟨passed, x, later, rfl, refuses, none⟩
    simp [firstRefusal_append, none, firstRefusal, refuses]

/-- Two judges that say the same at every place refuse the same element first. -/
theorem firstRefusal_congr (before xs : List α)
    (same : ∀ passed x later, xs = passed ++ x :: later →
      judge (before ++ passed) x = other (before ++ passed) x) :
    firstRefusal judge before xs = firstRefusal other before xs := by
  induction xs generalizing before with
  | nil => rfl
  | cons first rest ih =>
    have head : judge before first = other before first := by
      simpa using same [] first rest rfl
    rw [firstRefusal, firstRefusal, head, ih]
    intro passed x later split
    simpa using same (first :: passed) x later (by rw [split, List.cons_append])

end

/-- A computation fails with what a search has found, and if that has found nothing it succeeds and
its result satisfies `post`. -/
def Accords {ε σ : Type} (refusal : Option ε) (post : σ → Prop) (result : Except ε σ) : Prop :=
  match refusal with
  | none => ∃ after, result = .ok after ∧ post after
  | some error => result = .error error

namespace Accords

variable {ε σ τ : Type} {first second : Option ε} {post : σ → Prop} {last : τ → Prop}
  {result : Except ε σ} {next : σ → Except ε τ}

theorem ok {after : σ} (holds : post after) : Accords (none : Option ε) post (.ok after) :=
  ⟨after, rfl, holds⟩

/-- Two searches one after the other, and two computations one after the other. -/
theorem bind (accords : Accords first post result)
    (rest : ∀ after, result = .ok after → post after → Accords second last (next after)) :
    Accords (first.or second) last (result >>= next) := by
  cases first with
  | none =>
    obtain ⟨after, ok, holds⟩ := accords
    have continued := rest after ok holds
    rw [ok]
    exact continued
  | some error =>
    obtain rfl : result = .error error := accords
    rfl

/-- Behind a computation that cannot fail any more. -/
theorem map {f : σ → τ} (accords : Accords first post result)
    (rest : ∀ after, result = .ok after → post after → last (f after)) :
    Accords first last (result >>= fun after => .ok (f after)) := by
  rw [← Option.or_none (o := first)]
  exact accords.bind fun after ok holds => Accords.ok (rest after ok holds)

theorem weaken {weaker : σ → Prop} (accords : Accords first post result)
    (implies : ∀ after, result = .ok after → post after → weaker after) :
    Accords first weaker result := by
  cases first with
  | none =>
    obtain ⟨after, ok, holds⟩ := accords
    exact ⟨after, ok, implies after ok holds⟩
  | some error => exact accords

/-- The computation succeeds exactly if the search finds nothing. -/
theorem eq_ok_iff (accords : Accords first post result) :
    (∃ after, result = .ok after) ↔ first = none := by
  cases first with
  | none =>
    obtain ⟨after, ok, _⟩ := accords
    exact iff_of_true ⟨after, ok⟩ rfl
  | some error =>
    obtain rfl : result = .error error := accords
    simp

theorem eq_error_iff (accords : Accords first post result) (error : ε) :
    result = .error error ↔ first = some error := by
  cases first with
  | none =>
    obtain ⟨after, rfl, _⟩ := accords
    simp
  | some other =>
    obtain rfl : result = .error other := accords
    simp

end Accords

end ImpStack

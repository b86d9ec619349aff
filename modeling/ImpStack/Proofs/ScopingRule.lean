import Mathlib.Data.List.Induction
import ImpStack.Proofs.Visits
import ImpStack.Scope.Check

/-!
The rule of scoping (SPEC_FULL, section 4.3), said without frames: a variable that is read has a
value when it is a parameter or some assignment to it is complete and stands directly in a block
around the read. The first violation of the rule, from the first function to the last, is the error
of a program.

`WellScoped` and `FirstViolation` are the rule. The rest of the file restates them as a search for
the first visit that is refused, the form that a traversal can be compared with
(`Program.violation?_eq_none_iff`, `Program.violation?_eq_some_iff`).
-/
namespace ImpStack

/-- Behind the visits `before`, the name has a value at a point of `block`. -/
def HasValue (params : List String) (before : List Visit) (block : BlockPath) (name : String) :
    Prop :=
  name ∈ params ∨
    ∃ earlier ∈ before, earlier.use = .assigned name ∧ earlier.block <:+ block

instance (params : List String) (before : List Visit) (block : BlockPath) (name : String) :
    Decidable (HasValue params before block name) :=
  inferInstanceAs (Decidable (_ ∨ _))

/-- The violation of the rule at a visit behind the visits `before`, in a function with parameters
`params` of a program with functions `functions`. -/
def Visit.violation? (functions params : List String) (before : List Visit) (visit : Visit) :
    Option ScopeError :=
  match visit.use with
  | .read name position inside =>
    if HasValue params before visit.block name then none
    else if name ∈ inside then some (.uninitializedVariable name position)
    else if name ∈ functions then some (.functionAsValue name position)
    else some (.undeclaredVariable name position)
  | .call callee _ position =>
    if callee ∈ functions then none else some (.undeclaredFunction callee position)
  | .assigned _ => none

/-- The names of the functions are those of a program that a function belongs to. -/
structure Function.WellScoped (functions : List String) (function : Function) : Prop where
  params_distinct : function.paramNames.Nodup
  calls_known : ∀ visit ∈ function.visits, ∀ callee count position,
    visit.use = .call callee count position → callee ∈ functions
  reads_have_values : ∀ before visit after, function.visits = before ++ visit :: after →
    ∀ name position inside, visit.use = .read name position inside →
      HasValue function.paramNames before visit.block name

/-- The first violation in a function: of its parameters the first that repeats an earlier one, else
the first in its body. -/
inductive Function.FirstViolation (functions : List String) (function : Function) :
    ScopeError → Prop where
  | param {before : List Param} {param : Param} {after : List Param}
      (split : function.params = before ++ param :: after)
      (distinct : (before.map Param.name).Nodup) (repeated : param.name ∈ before.map Param.name) :
      FirstViolation functions function (.redeclared param.name param.position)
  | body {before : List Visit} {visit : Visit} {after : List Visit} {error : ScopeError}
      (distinct : function.paramNames.Nodup)
      (split : function.visits = before ++ visit :: after)
      (allowed : ∀ passed earlier later, before = passed ++ earlier :: later →
        earlier.violation? functions function.paramNames passed = none)
      (violates : visit.violation? functions function.paramNames before = some error) :
      FirstViolation functions function error

namespace Program

/-- The names that a program declares in the global frame, in order. -/
def functionNames (program : Program) : List String := program.functions.map Function.name

/-- No two functions share a name, and in each of them the rule holds. -/
structure WellScoped (program : Program) : Prop where
  functions_distinct : program.functionNames.Nodup
  functions_scoped : ∀ function ∈ program.functions, function.WellScoped program.functionNames

/-- The first violation in a program: of its functions the first that has the name of an earlier
one, else the first violation in a function. -/
inductive FirstViolation (program : Program) : ScopeError → Prop where
  | function {before : List Function} {function : Function} {after : List Function}
      (split : program.functions = before ++ function :: after)
      (distinct : (before.map Function.name).Nodup)
      (repeated : function.name ∈ before.map Function.name) :
      FirstViolation program (.redeclared function.name function.position)
  | within {before : List Function} {function : Function} {after : List Function}
      {error : ScopeError} (distinct : program.functionNames.Nodup)
      (split : program.functions = before ++ function :: after)
      (wellScoped : ∀ earlier ∈ before, earlier.WellScoped program.functionNames)
      (violation : function.FirstViolation program.functionNames error) :
      FirstViolation program error

end Program

/-! ### The rule as a search for the first violation -/

/-- Refuses a name that stands among the earlier ones. -/
def repeated? {α : Type} (name : α → String) (position : α → Position) (before : List α) (x : α) :
    Option ScopeError :=
  if name x ∈ before.map name then some (.redeclared (name x) (position x)) else none

/-- Parameters are looked at in front of the body. -/
def Function.violation? (functions : List String) (function : Function) : Option ScopeError :=
  (firstRefusal (repeated? Param.name Param.position) [] function.params).or
    (firstRefusal (Visit.violation? functions function.paramNames) [] function.visits)

/-- The names of all functions are looked at in front of the first body. -/
def Program.violation? (program : Program) : Option ScopeError :=
  (firstRefusal (repeated? Function.name Function.position) [] program.functions).or
    (firstRefusal (fun _ function => function.violation? program.functionNames) []
      program.functions)

theorem Visit.violation?_call (functions params : List String) (before : List Visit)
    (block : BlockPath) (callee : String) (count : Nat) (position : Position) :
    Visit.violation? functions params before ⟨block, .call callee count position⟩ =
      if callee ∈ functions then none else some (.undeclaredFunction callee position) := rfl

/-- A visit passes if its callee is known and its variable has a value. -/
theorem Visit.violation?_eq_none_iff {functions params : List String} {before : List Visit}
    {visit : Visit} :
    visit.violation? functions params before = none ↔
      (∀ callee count position, visit.use = .call callee count position → callee ∈ functions) ∧
      ∀ name position inside, visit.use = .read name position inside →
        HasValue params before visit.block name := by
  unfold violation?
  cases visit.use with
  | read name position inside =>
    by_cases held : HasValue params before visit.block name
    · simp [held]
    · by_cases pending : name ∈ inside <;> by_cases function : name ∈ functions <;>
        simp [held, pending, function]
  | call callee count position =>
    by_cases known : callee ∈ functions <;> simp [known]
  | assigned target => simp

section

variable {α : Type} {name : α → String} {position : α → Position}

theorem firstRefusal_repeated_eq_none_iff (xs : List α) :
    firstRefusal (repeated? name position) [] xs = none ↔ (xs.map name).Nodup := by
  rw [firstRefusal_eq_none_iff]
  constructor
  · intro accepted
    induction xs using List.reverseRecOn with
    | nil => simp
    | append_singleton xs last ih =>
      have fresh := accepted xs last [] rfl
      have inner := ih fun passed x later split =>
        accepted passed x (later ++ [last]) (by simp [split])
      rw [List.map_append, List.nodup_append]
      refine ⟨inner, by simp, ?_⟩
      rintro _ member _ single rfl
      obtain rfl := List.mem_singleton.mp single
      simp [repeated?, member] at fresh
  · intro distinct passed x later split
    rw [split, List.map_append, List.map_cons, List.nodup_append] at distinct
    have fresh : name x ∉ passed.map name := fun member =>
      distinct.2.2 _ member _ (List.mem_cons_self ..) rfl
    simp [repeated?, fresh]

/-- The first refused name is the first one that repeats an earlier name. -/
theorem firstRefusal_repeated_eq_some_iff (xs : List α) (error : ScopeError) :
    firstRefusal (repeated? name position) [] xs = some error ↔
      ∃ before x after, xs = before ++ x :: after ∧ (before.map name).Nodup ∧
        name x ∈ before.map name ∧ error = .redeclared (name x) (position x) := by
  rw [firstRefusal_eq_some_iff]
  constructor
  · rintro ⟨before, x, after, split, refused, accepted⟩
    rw [firstRefusal_repeated_eq_none_iff] at accepted
    unfold repeated? at refused
    split at refused
    · next member =>
      exact ⟨before, x, after, split, accepted, member, (Option.some.inj refused).symm⟩
    · cases refused
  · rintro ⟨before, x, after, split, distinct, member, rfl⟩
    refine ⟨before, x, after, split, ?_, (firstRefusal_repeated_eq_none_iff before).mpr distinct⟩
    exact if_pos member

end

/-- The search finds nothing exactly in the functions that keep to the rule. -/
theorem Function.violation?_eq_none_iff {functions : List String} {function : Function} :
    function.violation? functions = none ↔ function.WellScoped functions := by
  unfold violation?
  rw [Option.or_eq_none_iff, firstRefusal_repeated_eq_none_iff, firstRefusal_eq_none_iff]
  constructor
  · rintro ⟨distinct, allowed⟩
    refine ⟨distinct, fun visit member => ?_, fun before visit after split => ?_⟩
    · obtain ⟨before, after, split⟩ := List.append_of_mem member
      exact (Visit.violation?_eq_none_iff.mp (allowed before visit after split)).1
    · exact (Visit.violation?_eq_none_iff.mp (allowed before visit after split)).2
  · intro wellScoped
    refine ⟨wellScoped.params_distinct, fun before visit after split => ?_⟩
    apply Visit.violation?_eq_none_iff.mpr
    exact ⟨wellScoped.calls_known visit (by simp [split]),
      wellScoped.reads_have_values before visit after split⟩

/-- What the search finds in a function is its first violation. -/
theorem Function.violation?_eq_some_iff {functions : List String} {function : Function}
    {error : ScopeError} :
    function.violation? functions = some error ↔ function.FirstViolation functions error := by
  unfold violation?
  rw [Option.or_eq_some_iff, firstRefusal_repeated_eq_some_iff, firstRefusal_repeated_eq_none_iff,
    firstRefusal_eq_some_iff]
  constructor
  · rintro (⟨before, param, after, split, distinct, repeated, rfl⟩ |
      ⟨distinct, before, visit, after, split, violates, allowed⟩)
    · exact .param split distinct repeated
    · exact .body distinct split ((firstRefusal_eq_none_iff [] before).mp allowed) violates
  · intro first
    cases first with
    | param split distinct repeated => exact .inl ⟨_, _, _, split, distinct, repeated, rfl⟩
    | body distinct split allowed violates =>
      exact .inr ⟨distinct, _, _, _, split, violates, (firstRefusal_eq_none_iff [] _).mpr allowed⟩

theorem Program.violation?_eq_none_iff {program : Program} :
    program.violation? = none ↔ program.WellScoped := by
  unfold violation?
  rw [Option.or_eq_none_iff, firstRefusal_repeated_eq_none_iff, firstRefusal_eq_none_iff]
  constructor
  · rintro ⟨distinct, allowed⟩
    refine ⟨distinct, fun function member => ?_⟩
    obtain ⟨before, after, split⟩ := List.append_of_mem member
    exact Function.violation?_eq_none_iff.mp (allowed before function after split)
  · intro wellScoped
    refine ⟨wellScoped.functions_distinct, fun before function after split => ?_⟩
    exact Function.violation?_eq_none_iff.mpr
      (wellScoped.functions_scoped function (by simp [split]))

theorem Program.violation?_eq_some_iff {program : Program} {error : ScopeError} :
    program.violation? = some error ↔ program.FirstViolation error := by
  unfold violation?
  rw [Option.or_eq_some_iff, firstRefusal_repeated_eq_some_iff, firstRefusal_repeated_eq_none_iff,
    firstRefusal_eq_some_iff]
  constructor
  · rintro (⟨before, function, after, split, distinct, repeated, rfl⟩ |
      ⟨distinct, before, function, after, split, violates, allowed⟩)
    · exact .function split distinct repeated
    · refine .within distinct split (fun earlier member => ?_)
        (Function.violation?_eq_some_iff.mp violates)
      obtain ⟨passed, later, rfl⟩ := List.append_of_mem member
      exact Function.violation?_eq_none_iff.mp
        ((firstRefusal_eq_none_iff [] _).mp allowed passed earlier later rfl)
  · intro first
    cases first with
    | function split distinct repeated => exact .inl ⟨_, _, _, split, distinct, repeated, rfl⟩
    | within distinct split wellScoped violation =>
      refine .inr ⟨distinct, _, _, _, split, Function.violation?_eq_some_iff.mpr violation, ?_⟩
      refine (firstRefusal_eq_none_iff [] _).mpr fun passed earlier later inner => ?_
      exact Function.violation?_eq_none_iff.mpr (wellScoped earlier (by simp [inner]))

end ImpStack

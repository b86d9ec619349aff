import ImpStack.Proofs.Dispatch
import ImpStack.Proofs.Forcing

/-!
Whether a phrase can be lowered does not depend on where its code is placed, and forcing conditions
does not change it either. Code with a forced condition is longer, so everything behind it moves;
what stays the same are the slots and the errors (`Matches`, `SameSlots`).
-/
namespace ImpStack

/-- Both fail with the same error, or both succeed with results that `post` relates. -/
def Matches {ε α β : Type} (post : α → β → Prop) (left : Except ε α) (right : Except ε β) : Prop :=
  match left, right with
  | .ok a, .ok b => post a b
  | .error error, .error other => other = error
  | _, _ => False

namespace Matches

variable {ε α β γ δ : Type} {post : α → β → Prop} {left : Except ε α} {right : Except ε β}

/-- Steps that match, followed by steps that match. -/
theorem bind {last : γ → δ → Prop} {leftNext : α → Except ε γ} {rightNext : β → Except ε δ}
    (first : Matches post left right)
    (rest : ∀ a b, post a b → Matches last (leftNext a) (rightNext b)) :
    Matches last (left >>= leftNext) (right >>= rightNext) := by
  cases left with
  | ok a =>
    cases right with
    | ok b => exact rest a b first
    | error other => exact first.elim
  | error error =>
    cases right with
    | ok b => exact first.elim
    | error other => exact first

theorem ok {a : α} (matching : Matches post left right) (left_ok : left = .ok a) :
    ∃ b, right = .ok b ∧ post a b := by
  subst left_ok
  cases right with
  | ok b => exact ⟨b, rfl, matching⟩
  | error other => exact matching.elim

/-- Conversions of corresponding items match if they do item by item. -/
theorem mapM {leftStep : γ → Except ε α} {rightStep : δ → Except ε β} {convert : γ → δ}
    (steps : ∀ x, Matches post (leftStep x) (rightStep (convert x))) (xs : List γ) :
    Matches (List.Forall₂ post) (xs.mapM leftStep) ((xs.map convert).mapM rightStep) := by
  induction xs with
  | nil => exact List.Forall₂.nil
  | cons x xs ih =>
    rw [List.map_cons, List.mapM_cons, List.mapM_cons]
    refine (steps x).bind fun a b related => ?_
    refine ih.bind fun as bs all => ?_
    exact List.Forall₂.cons related all

end Matches

namespace Lowering

variable {arities : Arities} {void : Bool} {chosen : Position → Bool}

/-- Two results of lowering that may differ in their code. -/
inductive SameSlots : Lowered → Lowered → Prop where
  | intro (slots : Slots) (left right : Code) : SameSlots ⟨left, slots⟩ ⟨right, slots⟩

mutual

/-- An expression lowered at two places. -/
theorem expr_matches (e : Expr) (start other : Nat) (slots : Slots) :
    Matches SameSlots (expr arities start slots e) (expr arities other slots e) := by
  -- Offsets go into jumps only, and an expression has none.
  cases e with
  | int position value => exact SameSlots.intro _ _ _
  | float position value => exact SameSlots.intro _ _ _
  | var position name =>
    rw [expr, expr]
    cases slots.slot? name with
    | none => rfl
    | some slot => exact SameSlots.intro _ _ _
  | binary position op left right =>
    rw [expr, expr]
    refine (expr_matches left start other slots).bind ?_
    rintro _ _ ⟨slots, l, r⟩
    refine (expr_matches right _ _ slots).bind ?_
    rintro _ _ ⟨slots, l, r⟩
    exact SameSlots.intro _ _ _
  | negate position operand =>
    rw [expr, expr]
    refine (expr_matches operand start other slots).bind ?_
    rintro _ _ ⟨slots, l, r⟩
    exact SameSlots.intro _ _ _
  | call position callee args =>
    rw [expr, expr]
    cases arities callee with
    | none => rfl
    | some arity =>
      dsimp only
      split
      · refine (exprs_matches args start other slots).bind ?_
        rintro _ _ ⟨slots, l, r⟩
        exact SameSlots.intro _ _ _
      · rfl
  | assign position target value =>
    rw [expr, expr]
    refine (expr_matches value start other slots).bind ?_
    rintro _ _ ⟨slots, l, r⟩
    exact SameSlots.intro _ _ _
termination_by structural e

theorem exprs_matches (es : List Expr) (start other : Nat) (slots : Slots) :
    Matches SameSlots (exprs arities start slots es) (exprs arities other slots es) := by
  cases es with
  | nil => exact SameSlots.intro _ _ _
  | cons first rest =>
    rw [exprs, exprs]
    refine (expr_matches first start other slots).bind ?_
    rintro _ _ ⟨slots, l, r⟩
    refine (exprs_matches rest _ _ slots).bind ?_
    rintro _ _ ⟨slots, l, r⟩
    exact SameSlots.intro _ _ _
termination_by structural es

end

/-- A condition and its forced form, at two places. -/
theorem condition_matches (test : Expr) (start other : Nat) (slots : Slots) :
    Matches (fun left right => SameSlots left.1 right.1) (condition arities start slots test)
      (condition arities other slots (test.forced chosen)) := by
  unfold Expr.forced
  split
  · next position comparison left right =>
    split
    · simp only [condition, expr, bind_assoc, pure_bind]
      refine (expr_matches left start other slots).bind ?_
      rintro _ _ ⟨slots, l, r⟩
      refine (expr_matches right _ _ slots).bind ?_
      rintro _ _ ⟨slots, l, r⟩
      exact SameSlots.intro _ _ _
    · rw [condition, condition]
      refine (expr_matches left start other slots).bind ?_
      rintro _ _ ⟨slots, l, r⟩
      refine (expr_matches right _ _ slots).bind ?_
      rintro _ _ ⟨slots, l, r⟩
      exact SameSlots.intro _ _ _
  · next plain =>
    unfold condition
    split
    · next position comparison left right => exact (plain position comparison left right rfl).elim
    · refine (expr_matches test start other slots).bind ?_
      rintro _ _ ⟨slots, l, r⟩
      exact SameSlots.intro _ _ _

mutual

/-- A statement and its forced form, at two places. -/
theorem stmt_matches (statement : Stmt) (start other : Nat) (slots : Slots) :
    Matches SameSlots (stmt arities void start slots statement)
      (stmt arities void other slots (statement.force chosen)) := by
  cases statement with
  | assign position target value =>
    rw [Stmt.force, stmt, stmt]
    refine (expr_matches value start other slots).bind ?_
    rintro _ _ ⟨slots, l, r⟩
    exact SameSlots.intro _ _ _
  | discard position value =>
    rw [Stmt.force, stmt, stmt]
    refine (expr_matches value start other slots).bind ?_
    rintro _ _ ⟨slots, l, r⟩
    exact SameSlots.intro _ _ _
  | print position value =>
    rw [Stmt.force, stmt, stmt]
    refine (expr_matches value start other slots).bind ?_
    rintro _ _ ⟨slots, l, r⟩
    exact SameSlots.intro _ _ _
  | branch position test body alternative =>
    cases alternative with
    | none =>
      rw [Stmt.force, stmt, stmt]
      refine (condition_matches test start other slots).bind ?_
      rintro ⟨_, _⟩ ⟨_, _⟩ ⟨slots, l, r⟩
      refine (stmts_matches body _ _ slots).bind ?_
      rintro _ _ ⟨slots, l, r⟩
      exact SameSlots.intro _ _ _
    | some alternative =>
      rw [Stmt.force, stmt, stmt]
      refine (condition_matches test start other slots).bind ?_
      rintro ⟨_, _⟩ ⟨_, _⟩ ⟨slots, l, r⟩
      refine (stmts_matches body _ _ slots).bind ?_
      rintro _ _ ⟨slots, l, r⟩
      refine (stmts_matches alternative _ _ slots).bind ?_
      rintro _ _ ⟨slots, l, r⟩
      exact SameSlots.intro _ _ _
  | loop position test body =>
    rw [Stmt.force, stmt, stmt]
    refine (condition_matches test start other slots).bind ?_
    rintro ⟨_, _⟩ ⟨_, _⟩ ⟨slots, l, r⟩
    refine (stmts_matches body _ _ slots).bind ?_
    rintro _ _ ⟨slots, l, r⟩
    exact SameSlots.intro _ _ _
  | return_ position value =>
    cases value with
    | none => exact SameSlots.intro _ _ _
    | some value =>
      rw [Stmt.force, stmt, stmt]
      refine (expr_matches value start other slots).bind ?_
      rintro _ _ ⟨slots, l, r⟩
      exact SameSlots.intro _ _ _
  | block position body =>
    rw [Stmt.force, stmt, stmt]
    exact stmts_matches body start other slots
termination_by structural statement

theorem stmts_matches (body : List Stmt) (start other : Nat) (slots : Slots) :
    Matches SameSlots (stmts arities void start slots body)
      (stmts arities void other slots (Stmt.forceAll chosen body)) := by
  cases body with
  | nil => exact SameSlots.intro _ _ _
  | cons first rest =>
    rw [Stmt.forceAll, stmts, stmts]
    refine (stmt_matches first start other slots).bind ?_
    rintro _ _ ⟨slots, l, r⟩
    refine (stmts_matches rest _ _ slots).bind ?_
    rintro _ _ ⟨slots, l, r⟩
    exact SameSlots.intro _ _ _
termination_by structural body

end

theorem routine_matches (arities : Arities) (function : Function) :
    Matches (fun _ _ => True) (routine arities function)
      (routine arities (function.force chosen)) := by
  unfold routine
  exact (stmts_matches function.body 0 0 _).bind fun _ _ _ => trivial

end Lowering

theorem Program.function?_force (chosen : Position → Bool) (program : Program) (name : String) :
    (program.force chosen).function? name = (program.function? name).map (·.force chosen) := by
  unfold function? force
  rw [← List.map_reverse, List.find?_map]
  rfl

/-- Forcing changes the arity of no function. -/
theorem Program.arities_force (chosen : Position → Bool) (program : Program) :
    (program.force chosen).arities = program.arities := by
  funext name
  rw [arities_eq, arities_eq, function?_force, Option.map_map]
  rfl

/-- A program can be lowered with its conditions forced as well as without. -/
theorem Assembly.ofProgram_force {name : String} {program : Program} {assembly : Assembly}
    (ok : ofProgram name program = .ok assembly) (chosen : Position → Bool) :
    ∃ forced, ofProgram name (program.force chosen) = .ok forced := by
  have matching : Matches (fun _ _ => True) (ofProgram name program)
      (ofProgram name (program.force chosen)) := by
    unfold ofProgram
    rw [program.arities_force chosen]
    refine (Matches.mapM (Lowering.routine_matches program.arities) program.functions).bind ?_
    exact fun _ _ _ => trivial
  obtain ⟨forced, forced_ok, _⟩ := matching.ok ok
  exact ⟨forced, forced_ok⟩

end ImpStack

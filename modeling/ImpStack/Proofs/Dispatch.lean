import Mathlib.Data.List.Forall2
import Mathlib.Data.List.Nodup
import ImpStack.Proofs.Evaluation
import ImpStack.Proofs.Lowering

/-!
A call of a name reaches the code of the function that the name stands for in the program. Of
several functions of one name both sides take the last one, so that no names need to be different
for this (`dispatch?_of_function?`, `function?_of_dispatch?`).
-/
namespace ImpStack

/-- The results of a conversion that succeeds correspond one to one to what is converted. -/
theorem mapM_forall₂ {ε α β : Type} {step : α → Except ε β} {xs : List α} {ys : List β}
    (ok : xs.mapM step = .ok ys) : List.Forall₂ (fun x y => step x = .ok y) xs ys := by
  induction xs generalizing ys with
  | nil =>
    obtain rfl := Except.ok.inj ok
    exact .nil
  | cons x xs ih =>
    rw [List.mapM_cons] at ok
    obtain ⟨y, head_ok, ok⟩ := bind_eq_ok ok
    obtain ⟨rest, tail_ok, ok⟩ := bind_eq_ok ok
    obtain rfl := Except.ok.inj ok
    exact .cons head_ok (ih tail_ok)

theorem exists_of_forall₂ {α β : Type} {R : α → β → Prop} {xs : List α} {ys : List β} {y : β}
    (related : List.Forall₂ R xs ys) (member : y ∈ ys) : ∃ x ∈ xs, R x y := by
  induction related with
  | nil => cases member
  | cons head _ ih =>
    rcases List.mem_cons.mp member with rfl | later
    · exact ⟨_, List.mem_cons_self, head⟩
    · obtain ⟨x, among, related⟩ := ih later
      exact ⟨x, List.mem_cons_of_mem _ among, related⟩

/-- Searches that ask the same of corresponding items find corresponding items. -/
theorem find?_forall₂ {α β : Type} {R : α → β → Prop} {p : α → Bool} {q : β → Bool} {xs : List α}
    {ys : List β} (related : List.Forall₂ R xs ys) (same : ∀ x y, R x y → p x = q y) :
    Option.Rel R (xs.find? p) (ys.find? q) := by
  induction related with
  | nil => exact .none
  | cons head _ ih =>
    rw [List.find?_cons, List.find?_cons, same _ _ head]
    split
    · exact .some head
    · exact ih

/-- The arity known of a name is that of the function it stands for. -/
theorem Program.arities_eq (program : Program) (name : String) :
    program.arities name = (program.function? name).map Function.arity := rfl

/-- Among functions with different names, each is the one that its name finds. -/
theorem Function.find?_of_mem {functions : List Function}
    (distinct : (functions.map Function.name).Nodup) {function : Function}
    (member : function ∈ functions) :
    functions.find? (·.name = function.name) = some function := by
  cases found : functions.find? (·.name = function.name) with
  | none =>
    have absent := List.find?_eq_none.mp found function member
    simp at absent
  | some other =>
    have sameName : other.name = function.name := by simpa using List.find?_some found
    rw [List.inj_on_of_nodup_map distinct (List.mem_of_find?_eq_some found) member sameName]

/-- In a program whose functions have different names, each function is reached by its name. -/
theorem Program.function?_of_mem {program : Program} {function : Function}
    (distinct : (program.functions.map Function.name).Nodup)
    (member : function ∈ program.functions) :
    program.function? function.name = some function := by
  refine Function.find?_of_mem ?_ (List.mem_reverse.mpr member)
  rw [List.map_reverse]
  exact List.nodup_reverse.mpr distinct

namespace Assembly

variable {name : String} {program : Program} {assembly : Assembly}

/-- The routines are those of the functions, in the same order. -/
theorem routines_forall₂ (ok : ofProgram name program = .ok assembly) :
    List.Forall₂ (fun function routine => Lowering.routine program.arities function = .ok routine)
      program.functions assembly.routines := by
  unfold ofProgram at ok
  obtain ⟨routines, routines_ok, ok⟩ := bind_eq_ok ok
  obtain rfl := Except.ok.inj ok
  exact mapM_forall₂ routines_ok

/-- A name reaches a routine exactly if it stands for a function, and then that one's. -/
theorem dispatch?_rel (ok : ofProgram name program = .ok assembly) (callee : String) :
    Option.Rel
      (fun function routine => Lowering.routine program.arities function = .ok routine)
      (program.function? callee) (assembly.dispatch? callee) := by
  refine find?_forall₂ (List.forall₂_reverse_iff.mpr (routines_forall₂ ok)) ?_
  intro function routine routine_ok
  rw [Lowering.routine_name routine_ok]

theorem dispatch?_of_function? (ok : ofProgram name program = .ok assembly) {callee : String}
    {function : Function} (found : program.function? callee = some function) :
    ∃ routine, assembly.dispatch? callee = some routine ∧
      Lowering.routine program.arities function = .ok routine := by
  have related := dispatch?_rel ok callee
  rw [found] at related
  cases reached : assembly.dispatch? callee with
  | none =>
    rw [reached] at related
    cases related
  | some routine =>
    rw [reached] at related
    cases related with
    | some routine_ok => exact ⟨routine, rfl, routine_ok⟩

theorem function?_of_dispatch? (ok : ofProgram name program = .ok assembly) {callee : String}
    {routine : Routine} (reached : assembly.dispatch? callee = some routine) :
    ∃ function, program.function? callee = some function ∧
      Lowering.routine program.arities function = .ok routine := by
  have related := dispatch?_rel ok callee
  rw [reached] at related
  cases found : program.function? callee with
  | none =>
    rw [found] at related
    cases related
  | some function =>
    rw [found] at related
    cases related with
    | some routine_ok => exact ⟨function, rfl, routine_ok⟩

end Assembly

end ImpStack

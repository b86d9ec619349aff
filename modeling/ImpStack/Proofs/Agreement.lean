import ImpStack.Proofs.Generation
import ImpStack.Proofs.LoweringFaults
import ImpStack.Proofs.ScopeDecision

/-!
A program without scope errors has code exactly when each of its calls has as many arguments as its
function has parameters; the error of the others is about their first call that has not
(`Generator.generates_iff_calls_fit`). The check of scopes does not count arguments, so this is all
that is left for the generation to refuse: neither a missing slot nor an unknown function nor a
label without a place can come up behind it.
-/
namespace ImpStack

/-- A call as it stands in the text: whom it calls, with how many arguments, and where. -/
structure Call where
  callee : String
  count : Nat
  position : Position
  deriving DecidableEq, Repr

/-- The call that is visited, if it is one. -/
def Visit.call? (visit : Visit) : Option Call :=
  match visit.use with
  | .call callee count position => some ⟨callee, count, position⟩
  | .read .. => none
  | .assigned _ => none

/-- The calls in a function's body, an outer call before the calls in its arguments. -/
def Function.calls (function : Function) : List Call := function.visits.filterMap Visit.call?

/-- The calls in all functions, whether they are ever reached or not. -/
def Program.calls (program : Program) : List Call := program.functions.flatMap Function.calls

/-- The call has as many arguments as its function has parameters. -/
def Call.Fits (program : Program) (call : Call) : Prop :=
  ∃ function ∈ program.functions, function.name = call.callee ∧ function.arity = call.count

/-- What lowering refuses at a call. -/
def Call.fault? (arities : Arities) (call : Call) : Option LoweringError :=
  match arities call.callee with
  | none => some (.unknownFunction call.callee call.position)
  | some arity =>
    if arity = call.count then none
    else some (.arityMismatch call.callee arity call.count call.position)

/-! ### The faults of a program without scope errors -/

section

variable {α β ε : Type} {judge : α → Option ε}

/-- A judge that ignores what stands before it just looks for the first refusal. -/
theorem firstRefusal_eq_findSome? (before xs : List α) :
    firstRefusal (fun _ => judge) before xs = xs.findSome? judge := by
  induction xs generalizing before with
  | nil => rfl
  | cons x rest ih => cases judged : judge x <;> simp [firstRefusal, judged, ih]

/-- Searching what is picked is picking while searching. -/
theorem findSome?_filterMap {pick : β → Option α} (xs : List β) :
    (xs.filterMap pick).findSome? judge = xs.findSome? fun x => (pick x).bind judge := by
  induction xs with
  | nil => rfl
  | cons x rest ih =>
    cases picked : pick x with
    | none => simpa [picked] using ih
    | some y => simp [picked, List.findSome?_cons, ih]

/-- Searching the parts in order is searching part by part. -/
theorem findSome?_flatMap {parts : β → List α} (xs : List β) :
    (xs.flatMap parts).findSome? judge = xs.findSome? fun x => (parts x).findSome? judge := by
  induction xs with
  | nil => rfl
  | cons x rest ih =>
    rw [List.flatMap_cons, List.findSome?_append, ih, List.findSome?_cons]
    cases (parts x).findSome? judge <;> rfl

end

/-- A name that has a value has a slot. -/
theorem HasValue.hasSlot {params : List String} {before : List Visit} {block : BlockPath}
    {name : String} (valued : HasValue params before block name) : HasSlot params before name := by
  rcases valued with param | ⟨earlier, member, assigned, _⟩
  · exact .inl param
  · exact .inr ⟨earlier, member, assigned⟩

namespace Function.WellScoped

variable {functions : List String} {function : Function}

/-- Only its calls can be refused. -/
theorem fault?_eq (wellScoped : function.WellScoped functions) (arities : Arities) :
    firstRefusal (Visit.fault? arities function.paramNames) [] function.visits =
      function.calls.findSome? (Call.fault? arities) := by
  rw [calls, findSome?_filterMap, ← firstRefusal_eq_findSome? []]
  refine firstRefusal_congr [] _ fun passed visit later split => ?_
  cases visit with
  | mk block use =>
    cases use with
    | read name position inside =>
      have valued := wellScoped.reads_have_values passed _ later split name position inside rfl
      rw [List.nil_append, Visit.fault?_read, if_pos valued.hasSlot]
      rfl
    | call callee count position => rfl
    | assigned target => rfl

/-- A checked function calls only functions that there are. -/
theorem mem_functions_of_call (wellScoped : function.WellScoped functions) {call : Call}
    (member : call ∈ function.calls) : call.callee ∈ functions := by
  rcases List.mem_filterMap.mp member with ⟨visit, visited, picked⟩
  have use_eq : visit.use = .call call.callee call.count call.position := by
    unfold Visit.call? at picked
    split at picked
    · next same =>
      obtain rfl := Option.some.inj picked
      exact same
    · cases picked
    · cases picked
  exact wellScoped.calls_known visit visited _ _ _ use_eq

end Function.WellScoped

namespace Program.WellScoped

variable {program : Program}

theorem fault?_eq (wellScoped : program.WellScoped) :
    program.fault? = program.calls.findSome? (Call.fault? program.arities) := by
  rw [fault?, calls, findSome?_flatMap, ← firstRefusal_eq_findSome? []]
  refine firstRefusal_congr [] _ fun passed function later split => ?_
  exact (wellScoped.functions_scoped function (by simp [split])).fault?_eq program.arities

/-- Every call reaches a function of the program. -/
theorem function_of_call (wellScoped : program.WellScoped) {call : Call}
    (member : call ∈ program.calls) :
    ∃ function ∈ program.functions, function.name = call.callee ∧
      program.arities call.callee = some function.arity := by
  rcases List.mem_flatMap.mp member with ⟨caller, callerMember, here⟩
  have known := (wellScoped.functions_scoped caller callerMember).mem_functions_of_call here
  rcases List.mem_map.mp known with ⟨function, functionMember, named⟩
  have reached := function?_of_mem wellScoped.functions_distinct functionMember
  refine ⟨function, functionMember, named, ?_⟩
  rw [arities_eq, ← named, reached]
  rfl

/-- Names being different, a call fits by the arity of the one function of its name. -/
theorem fits_iff (wellScoped : program.WellScoped) {call : Call} {function : Function}
    (member : function ∈ program.functions) (named : function.name = call.callee) :
    call.Fits program ↔ function.arity = call.count := by
  constructor
  · rintro ⟨other, otherMember, otherNamed, fits⟩
    rw [← List.inj_on_of_nodup_map wellScoped.functions_distinct otherMember member
      (otherNamed.trans named.symm)]
    exact fits
  · intro fits
    exact ⟨function, member, named, fits⟩

theorem call_fault?_eq_none_iff (wellScoped : program.WellScoped) {call : Call}
    (member : call ∈ program.calls) :
    call.fault? program.arities = none ↔ call.Fits program := by
  obtain ⟨function, functionMember, named, arity_eq⟩ := wellScoped.function_of_call member
  rw [wellScoped.fits_iff functionMember named]
  by_cases fits : function.arity = call.count <;> simp [Call.fault?, arity_eq, fits]

/-- What it refuses is a mismatch, since every callee is known. -/
theorem call_fault?_eq_some_iff (wellScoped : program.WellScoped) {call : Call}
    (member : call ∈ program.calls) (error : LoweringError) :
    call.fault? program.arities = some error ↔
      ∃ function ∈ program.functions, function.name = call.callee ∧ function.arity ≠ call.count ∧
        error = .arityMismatch call.callee function.arity call.count call.position := by
  obtain ⟨function, functionMember, named, arity_eq⟩ := wellScoped.function_of_call member
  have fault_eq : call.fault? program.arities = if function.arity = call.count then none else
      some (.arityMismatch call.callee function.arity call.count call.position) := by
    rw [Call.fault?, arity_eq]
  rw [fault_eq]
  constructor
  · intro faulty
    by_cases fits : function.arity = call.count
    · simp [fits] at faulty
    · rw [if_neg fits] at faulty
      exact ⟨function, functionMember, named, fits, (Option.some.inj faulty).symm⟩
  · rintro ⟨other, otherMember, otherNamed, unfit, rfl⟩
    obtain rfl := List.inj_on_of_nodup_map wellScoped.functions_distinct otherMember functionMember
      (otherNamed.trans named.symm)
    rw [if_neg unfit]

/-- Nothing is refused among calls that fit. -/
theorem all_fit_iff (wellScoped : program.WellScoped) {calls : List Call}
    (subset : calls ⊆ program.calls) :
    calls.findSome? (Call.fault? program.arities) = none ↔ ∀ call ∈ calls, call.Fits program := by
  rw [List.findSome?_eq_none_iff]
  constructor
  · intro allowed call member
    exact (wellScoped.call_fault?_eq_none_iff (subset member)).mp (allowed call member)
  · intro fits call member
    exact (wellScoped.call_fault?_eq_none_iff (subset member)).mpr (fits call member)

/-- The fault of the program is the mismatch of its first call that does not fit. -/
theorem fault?_eq_some_iff (wellScoped : program.WellScoped) (error : LoweringError) :
    program.fault? = some error ↔
      ∃ before call after function, program.calls = before ++ call :: after ∧
        (∀ earlier ∈ before, earlier.Fits program) ∧
        function ∈ program.functions ∧ function.name = call.callee ∧
        function.arity ≠ call.count ∧
        error = .arityMismatch call.callee function.arity call.count call.position := by
  rw [wellScoped.fault?_eq, List.findSome?_eq_some_iff]
  constructor
  · rintro ⟨before, call, after, split, faulty, allowed⟩
    have subset : before ⊆ program.calls := by simp [split]
    have fits := (wellScoped.all_fit_iff subset).mp (List.findSome?_eq_none_iff.mpr allowed)
    rcases (wellScoped.call_fault?_eq_some_iff (by simp [split]) error).mp faulty with
      ⟨function, member, named, unfit, rfl⟩
    exact ⟨before, call, after, function, split, fits, member, named, unfit, rfl⟩
  · rintro ⟨before, call, after, function, split, fits, member, named, unfit, rfl⟩
    have subset : before ⊆ program.calls := by simp [split]
    have allowed := List.findSome?_eq_none_iff.mp ((wellScoped.all_fit_iff subset).mpr fits)
    refine ⟨before, call, after, split, ?_, allowed⟩
    exact (wellScoped.call_fault?_eq_some_iff (by simp [split]) _).mpr
      ⟨function, member, named, unfit, rfl⟩

end Program.WellScoped

/-! ### The generator on checked programs -/

namespace Accords

variable {ε δ σ : Type} {refusal : Option ε} {post : σ → Prop} {result : Except ε σ}

theorem mapError_eq_ok_iff (accords : Accords refusal post result) (convert : ε → δ) :
    (∃ after, result.mapError convert = .ok after) ↔ refusal = none := by
  rw [← accords.eq_ok_iff]
  cases result <;> simp [Except.mapError]

theorem mapError_eq_error_iff (accords : Accords refusal post result) (convert : ε → δ)
    (error : δ) :
    result.mapError convert = .error error ↔
      ∃ fault, refusal = some fault ∧ error = convert fault := by
  simp only [← accords.eq_error_iff]
  cases result <;> simp [Except.mapError, eq_comm]

end Accords

/-- A program that the check of scopes accepts has code exactly when all its calls fit. If some call
does not, the error is the mismatch of the first such call, and there is no other error. -/
theorem Generator.generates_iff_calls_fit {program : Program} (accepted : program.check = .ok ())
    (generator : Generator) :
    ((∃ assembly, (generator.generate program).1 = .ok assembly) ↔
      ∀ call ∈ program.calls, call.Fits program) ∧
    ∀ error, (generator.generate program).1 = .error error ↔
      ∃ before call after function, program.calls = before ++ call :: after ∧
        (∀ earlier ∈ before, earlier.Fits program) ∧
        function ∈ program.functions ∧ function.name = call.callee ∧
        function.arity ≠ call.count ∧
        error = .lowering
          (.arityMismatch call.callee function.arity call.count call.position) := by
  have wellScoped : program.WellScoped :=
    Program.violation?_eq_none_iff.mp (program.check_accords.eq_ok_iff.mp ⟨(), accepted⟩)
  have accords := Assembly.ofProgram_accords generator.name program
  rw [generator.generate_eq]
  constructor
  · rw [accords.mapError_eq_ok_iff, wellScoped.fault?_eq]
    exact wellScoped.all_fit_iff (List.Subset.refl _)
  · intro error
    rw [accords.mapError_eq_error_iff]
    constructor
    · rintro ⟨fault, faulty, rfl⟩
      rcases (wellScoped.fault?_eq_some_iff fault).mp faulty with
        ⟨before, call, after, function, split, fits, member, named, unfit, rfl⟩
      exact ⟨before, call, after, function, split, fits, member, named, unfit, rfl⟩
    · rintro ⟨before, call, after, function, split, fits, member, named, unfit, rfl⟩
      refine ⟨_, (wellScoped.fault?_eq_some_iff _).mpr ?_, rfl⟩
      exact ⟨before, call, after, function, split, fits, member, named, unfit, rfl⟩

/-- Two calls that do not fit, one in the arguments of the other, stand where they are never
reached. -/
def Program.misfit : Program where
  functions := [
    ⟨"pair", [⟨"a", ⟨1, 15⟩⟩, ⟨"b", ⟨1, 18⟩⟩],
      [.return_ ⟨1, 23⟩ (some (.var ⟨1, 30⟩ "a")),
        .discard ⟨1, 33⟩ (.call ⟨1, 33⟩ "pair" [.call ⟨1, 38⟩ "pair" []])], ⟨1, 1⟩⟩,
    ⟨"main", [],
      [.block ⟨2, 19⟩ [.assign ⟨2, 21⟩ "x" (.int ⟨2, 25⟩ 1)],
        .print ⟨2, 30⟩ (.call ⟨2, 36⟩ "pair" [.assign ⟨2, 41⟩ "x" (.int ⟨2, 45⟩ 2),
          .var ⟨2, 48⟩ "x"])], ⟨2, 1⟩⟩]

/-- A generator that has failed once fails again in the same way, at the outer one of two nested
calls. -/
theorem Generator.generates_iff_calls_fit_misfit :
    Program.misfit.check = .ok () ∧
      (((Generator.ofName "Main").generate .misfit).2.generate .misfit).1 =
        .error (.lowering (.arityMismatch "pair" 2 1 ⟨1, 33⟩)) := by
  have accepted : Program.misfit.check = .ok () := by decide
  refine ⟨accepted, ((Generator.generates_iff_calls_fit accepted _).2 _).mpr ?_⟩
  exact ⟨[], ⟨"pair", 1, ⟨1, 33⟩⟩, _, Program.misfit.functions[0], rfl, nofun,
    List.getElem_mem (by decide), rfl, by decide, rfl⟩

end ImpStack

import ImpStack.Proofs.Dispatch
import ImpStack.Proofs.StmtSimulation

/-!
The code of a function, and calls among the functions of a program. A call is followed from the
instruction that makes it to the one behind it; the induction is on the fuel, which falls with the
depth of calls, and the evaluation of the body is that of `StmtSimulation` in a context whose calls
are the ones of the induction hypothesis. The main result is `call_follows`.
-/
namespace ImpStack

open Lowering (defaultReturn isEntry)

/-! ### The start of a call -/

namespace Vars

/-- A name that is not among the parameters gets no argument. -/
theorem foldl_set_of_notMem {names : List String} {name : String} (fresh : name ∉ names)
    (args : List Value) (vars : Vars) :
    (names.zip args).foldl (fun vars binding => vars.set binding.1 binding.2) vars name =
      vars name := by
  induction names generalizing args vars with
  | nil => rfl
  | cons first names ih =>
    rw [List.mem_cons, not_or] at fresh
    obtain ⟨different, fresh⟩ := fresh
    cases args with
    | nil => rfl
    | cons arg args =>
      rw [List.zip_cons_cons, List.foldl_cons, ih fresh]
      simp [set, different]

/-- A parameter gets the argument at its own place, if no other parameter has its name. -/
theorem foldl_set_of_mem {names : List String} (distinct : names.Nodup) {name : String}
    (member : name ∈ names) {args : List Value} (vars : Vars)
    (count_eq : args.length = names.length) :
    (names.zip args).foldl (fun vars binding => vars.set binding.1 binding.2) vars name =
      args[names.idxOf name]? := by
  induction names generalizing args vars with
  | nil => cases member
  | cons first names ih =>
    obtain ⟨fresh, distinct⟩ := List.nodup_cons.mp distinct
    cases args with
    | nil => cases count_eq
    | cons arg args =>
      have rest_eq : args.length = names.length := Nat.succ.inj count_eq
      rw [List.zip_cons_cons, List.foldl_cons]
      by_cases same : name = first
      · subst same
        rw [foldl_set_of_notMem fresh, List.idxOf_cons_self]
        simp [set]
      · have later : name ∈ names := List.mem_of_ne_of_mem same member
        rw [ih distinct later _ rest_eq, List.idxOf_cons_ne names (Ne.symm same)]
        rfl

end Vars

/-- The parameters come first among the slots. -/
theorem Function.slots_names {function : Function} (distinct : function.paramNames.Nodup) :
    ∃ others, function.slots.names = function.paramNames ++ others := by
  have params : Slots.empty.insertAll function.paramNames = ⟨function.paramNames⟩ :=
    Slots.insertAll_of_nodup distinct
  obtain ⟨others, names_eq⟩ :=
    Slots.below_insertAll ⟨function.paramNames⟩ (Stmt.targetsOfAll function.body)
  refine ⟨others, ?_⟩
  rw [slots, Slots.insertAll_append, params]
  exact names_eq.symm

/-- The arguments lie in the slots of the parameters, and no other slot has a value. -/
theorem Holds.ofArgs {function : Function} (distinct : function.paramNames.Nodup)
    {args : List Value} (count_eq : args.length = function.paramNames.length) (size : Nat) :
    Holds function.slots (.ofArgs function.paramNames args) (.ofArgs args size) := by
  obtain ⟨others, names_eq⟩ := Function.slots_names distinct
  intro name _
  rw [Locals.get?_ofArgs, Slots.slotOf, names_eq]
  unfold Vars.ofArgs
  by_cases member : name ∈ function.paramNames
  · rw [Vars.foldl_set_of_mem distinct member _ count_eq, List.idxOf_append_of_mem member]
  · rw [Vars.foldl_set_of_notMem member, List.idxOf_append_of_notMem member]
    exact List.getElem?_eq_none (by omega)

/-! ### Calls -/

section

variable {assembly : Assembly} {arities : Arities} {fuel : Nat} {activation : Activation}

/-- A call of a function, from its first instruction to the one that returns. -/
theorem invoke_follows {context : Evaluation.Context}
    (ok : Lowering.routine arities context.function = .ok activation.routine)
    (executes : Executes assembly arities fuel activation context)
    (distinct : context.function.paramNames.Nodup) {args : List Value}
    (count_eq : args.length = context.function.paramNames.length)
    {values : List Value} (above : activation.base ≤ values.length) {log : Log} :
    Follows assembly activation.sink fuel
      (activation.machine 0 (.ofArgs args activation.routine.locals) values log.lines) log
      (Evaluation.invoke .flat context fuel args)
      (Leaves assembly activation values) := by
  obtain ⟨b, body_ok, placed, size_eq⟩ := Lowering.routine_placed ok
  have inside : 0 + b.code.length < activation.routine.code.size := by
    have pos := Lowering.defaultReturn_length_pos (isEntry context.function)
    omega
  have below : b.slots.Below context.function.slots := by
    rw [Lowering.routine_slots body_ok]
    exact .refl _
  unfold Evaluation.invoke
  rw [Evaluation.within_flat]
  refine (stmts_follows executes context.function.body body_ok placed.left inside below
    (.ofArgs distinct count_eq _) above).bind ?_
  rintro ⟨flow, vars⟩ after reached concludes
  cases flow with
  | next =>
    obtain ⟨locals, holds, rfl⟩ := concludes
    exact defaultReturn_follows placed.right above fun reached leaves => leaves
  | returned value => exact .pure concludes.shown concludes

end

/-- Behind the instruction that returns, the caller has the result on its stack. -/
theorem leaves_caller {assembly : Assembly} {activation : Activation} {routine : Routine}
    {next : Nat} {locals : Locals} {values : List Value} {result : Option Value} {after : Log}
    {reached : Machine} {fuel : Nat}
    (leaves : Leaves assembly (activation.callee routine next locals values) values result after
      reached) :
    Follows assembly activation.sink fuel reached after
      (Pure.pure (result.getD (.int 0)) : Eval Value)
      fun value after reached =>
        reached = activation.machine (next + 1) locals (value :: values) after.lines := by
  obtain ⟨offset, own, rest, rfl, silent, steps⟩ := leaves
  have height : values.length = (activation.callee routine next locals values).base := rfl
  rw [Activation.leave_eq rfl height] at steps
  exact .step_pure steps silent rfl rfl

/-- What a caller sees of a call: the arguments are replaced by the result. -/
theorem call_follows {name : String} {program : Program} {assembly : Assembly}
    (ok : Assembly.ofProgram name program = .ok assembly)
    (distinct : ∀ function ∈ program.functions, function.paramNames.Nodup) (fuel : Nat)
    (activation : Activation) (neverFails : activation.sink.NeverFails) {callee : String}
    {args values : List Value} {next : Nat} {locals : Locals} {log : Log}
    (known : program.arities callee = some args.length)
    (fetch : activation.routine.code[next]? = some (.call callee args.length))
    (above : activation.base ≤ values.length) :
    Follows assembly activation.sink fuel
      (activation.machine next locals (args.reverse ++ values) log.lines) log
      (Evaluation.callValue .flat program fuel activation.depth callee args)
      fun value after reached =>
        reached = activation.machine (next + 1) locals (value :: values) after.lines := by
  -- By induction on the fuel, which each call costs one of: what is shown of the smaller fuel is
  -- what the body of the callee needs to know about its own calls.
  induction fuel generalizing activation callee args values next locals log with
  | zero =>
    have out : Follows assembly activation.sink 0
        (activation.machine next locals (args.reverse ++ values) log.lines) log
        (Evaluation.call .flat program 0 activation.depth callee args) fun _ _ _ => False :=
      .outOfFuel rfl
    exact out.bind fun _ _ _ never => never.elim
  | succ fuel ih =>
    rw [Program.arities_eq] at known
    obtain ⟨function, found, arity_eq⟩ := Option.map_eq_some_iff.mp known
    obtain ⟨routine, reached, routine_ok⟩ := Assembly.dispatch?_of_function? ok found
    have steps : (activation.machine next locals (args.reverse ++ values) log.lines).step assembly =
        _ := Activation.step_call fetch reached above
    unfold Evaluation.callValue
    simp only [Evaluation.call_succ, found]
    by_cases full : maxCallDepth ≤ activation.depth
    · rw [if_pos full] at steps ⊢
      have stopped : Follows assembly activation.sink (fuel + 1)
          (activation.machine next locals (args.reverse ++ values) log.lines) log
          (throw (.fault .callDepthExceeded) : Eval (Option Value)) fun _ _ _ => False :=
        .fault rfl steps
      exact stopped.bind fun _ _ _ never => never.elim
    · rw [if_neg full] at steps ⊢
      have member : function ∈ program.functions :=
        List.mem_reverse.mp (List.mem_of_find?_eq_some found)
      have count_eq : args.length = function.paramNames.length := by
        rw [← arity_eq, Function.paramNames, List.length_map]
        rfl
      have executes : Executes assembly program.arities fuel
          (activation.callee routine next locals values)
          (Evaluation.inside .flat program fuel (activation.depth + 1) function) :=
        { neverFails := neverFails
          name_eq := Lowering.routine_name routine_ok
          calls := fun known fetch above =>
            ih (activation.callee routine next locals values) neverFails known fetch above }
      refine Follows.step steps (Activation.read?_eq fetch) ?_
      refine (invoke_follows routine_ok executes (distinct function member) count_eq
        (Nat.le_refl _)).bind ?_
      exact fun result after reached leaves => leaves_caller leaves

end ImpStack

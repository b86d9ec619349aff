import ImpStack.Proofs.CallSimulation
import ImpStack.Proofs.StackSafety

/-!
Compiled programs run as their trees evaluate. For every fuel there is a run that shows what the
evaluation shows (`RunsAs`): where the evaluation ends, the run stops with the same outcome; where
it wants more fuel, the run has made about as many steps. Both directions of the correctness of
compilation follow, since a run that stops has a bounded number of steps and cannot belong to
evaluations that want fuel for ever (`Assembly.ends_iff_evaluation_ends`).

Assumed is what the check of scopes grants, parameters with different names, and a sink that never
fails. What a refusing sink changes is told by `RefusedOutput`.
-/
namespace ImpStack

namespace Machine

/-- A run stops in one way only. -/
theorem run_stopped_unique {assembly : Assembly} {machine left right : Machine}
    {first second : Nat} {firstOutcome secondOutcome : Outcome}
    (firstRun : machine.run assembly first = (left, some firstOutcome))
    (secondRun : machine.run assembly second = (right, some secondOutcome)) :
    left = right ∧ firstOutcome = secondOutcome := by
  have same : machine.run assembly (first + second) = machine.run assembly (second + first) := by
    rw [Nat.add_comm]
  rw [run_add, run_add, firstRun, secondRun] at same
  simpa using same

/-- A run that has stopped takes no more steps. -/
theorem lt_of_run_stopped {assembly : Assembly} {machine left right : Machine}
    {first second : Nat} {outcome : Outcome}
    (stopped : machine.run assembly first = (left, some outcome))
    (running : machine.run assembly second = (right, none)) : second < first := by
  by_contra le
  obtain ⟨more, rfl⟩ := Nat.exists_eq_add_of_le (Nat.not_lt.mp le)
  rw [run_add, stopped] at running
  simp at running

end Machine

/-- A machine that has just started has printed nothing. -/
theorem Machine.start_sink {assembly : Assembly} {entry : String} {sink : Sink} {machine : Machine}
    (started : Machine.start assembly entry sink = .ok machine) :
    machine.sink = sink.append #[] := by
  unfold Machine.start at started
  split at started
  · cases started
  · split at started
    · obtain rfl := Except.ok.inj started
      exact (Sink.append_empty sink).symm
    · cases started

/-- A sink that never fails does not hide the outcome. -/
theorem Machine.conclude_append {sink : Sink} (neverFails : sink.NeverFails) (lines : Array String)
    (outcome : Outcome) : Machine.conclude (sink.append lines) outcome = outcome := by
  unfold Machine.conclude Sink.append
  rw [if_pos neverFails.2]

section

variable {name entry : String} {program : Program} {assembly : Assembly} {sink : Sink}
  {function : Function}

/-- The run of an entry function follows the evaluation from it. -/
theorem program_follows (ok : Assembly.ofProgram name program = .ok assembly)
    (distinct : ∀ function ∈ program.functions, function.paramNames.Nodup)
    (found : program.function? entry = some function) (noParams : function.params = [])
    (neverFails : sink.NeverFails) :
    ∃ machine, Machine.start assembly entry sink = .ok machine ∧ ∀ fuel,
      Follows assembly sink fuel machine .empty
        (Evaluation.call .flat program (fuel + 1) 0 entry [])
        fun value _ reached => reached.step assembly = .stopped (.ok value) := by
  obtain ⟨routine, reached, routine_ok⟩ := Assembly.dispatch?_of_function? ok found
  have member : function ∈ program.functions :=
    List.mem_reverse.mp (List.mem_of_find?_eq_some found)
  have noNames : function.paramNames = [] := by rw [Function.paramNames, noParams, List.map_nil]
  have noArity : routine.arity = 0 := by
    rw [Lowering.routine_arity routine_ok, Function.arity, noParams, List.length_nil]
  refine ⟨_, Activation.start_eq reached noArity, fun fuel => ?_⟩
  have executes : Executes assembly program.arities fuel (.ofEntry routine sink)
      (Evaluation.inside .flat program fuel 1 function) :=
    { neverFails := neverFails
      name_eq := Lowering.routine_name routine_ok
      calls := fun known fetch above =>
        call_follows ok distinct fuel (.ofEntry routine sink) neverFails known fetch above }
  have count_eq : ([] : List Value).length = function.paramNames.length := by
    rw [noNames, List.length_nil, List.length_nil]
  rw [Evaluation.call_succ, found]
  refine (invoke_follows routine_ok executes (distinct function member) count_eq
    (Nat.zero_le _)).extend ?_
  rintro value after last ⟨next, locals, rest, rfl, silent, steps⟩
  exact .pure rfl steps

end

/-- The run from the machine shows what the evaluations with more and more fuel show: it stops as
they end, and where one of them wants more fuel, the run has made about as many steps. -/
def RunsAs (assembly : Assembly) (sink : Sink) (machine : Machine)
    (results : Nat → EStateM.Result Halt Log (Option Value)) : Prop :=
  ∀ fuel, ∃ count reached,
    Tracks assembly sink count machine .empty reached (Evaluation.log (results fuel)) ∧
      match Evaluation.outcome? (results fuel) with
      | some outcome => reached.step assembly = .stopped outcome
      | none => fuel ≤ count + 1

namespace RunsAs

variable {assembly : Assembly} {sink : Sink} {machine reached : Machine}
  {results : Nat → EStateM.Result Halt Log (Option Value)} {outcome : Outcome}

/-- An evaluation that ends belongs to a run that stops in the same way. -/
theorem stops (runs : RunsAs assembly sink machine results) {fuel : Nat}
    (ended : Evaluation.outcome? (results fuel) = some outcome) :
    ∃ count reached, machine.run assembly count = (reached, some outcome) ∧
      reached.sink = sink.append (Evaluation.log (results fuel)).lines := by
  obtain ⟨count, reached, ⟨shown, reads, reaches, _⟩, stopped⟩ := runs fuel
  rw [ended] at stopped
  exact ⟨count + 1, reached, reaches.run_stopped stopped 0, shown⟩

/-- A run that stops belongs to an evaluation that ends, with as much fuel as the run has steps. -/
theorem ends (runs : RunsAs assembly sink machine results) {steps : Nat}
    (stopped : machine.run assembly steps = (reached, some outcome)) :
    ∃ fuel, Evaluation.outcome? (results fuel) = some outcome ∧
      reached.sink = sink.append (Evaluation.log (results fuel)).lines := by
  -- a run that has stopped has made no more steps than it was given
  obtain ⟨count, last, ⟨shown, reads, reaches, _⟩, goes⟩ := runs (steps + 1)
  refine ⟨steps + 1, ?_⟩
  cases result : Evaluation.outcome? (results (steps + 1)) with
  | none =>
    rw [result] at goes
    have fewer := Machine.lt_of_run_stopped stopped reaches.run_eq
    have enough : steps + 1 ≤ count + 1 := goes
    omega
  | some other =>
    rw [result] at goes
    obtain ⟨rfl, rfl⟩ := Machine.run_stopped_unique stopped (reaches.run_stopped goes 0)
    exact ⟨rfl, shown⟩

end RunsAs

/-- The ends that a run of a compiled program may come to: a result, or a fault for which the text
of the program is to blame. -/
def Program.MayEndWith (program : Program) : Outcome → Prop
  | .ok _ => True
  | .error (.divisionByZero name) => ∃ function ∈ program.functions, function.name = name
  | .error (.uninitializedSlot name _) => ∃ function ∈ program.functions, function.name = name
  | .error .callDepthExceeded => True
  | .error _ => False

section

variable {name entry : String} {program : Program} {assembly : Assembly} {sink : Sink}
  {function : Function}

/-- The run of a compiled entry function shows what the evaluations of its tree show. -/
theorem ofProgram_runsAs (ok : Assembly.ofProgram name program = .ok assembly)
    (distinct : ∀ function ∈ program.functions, function.paramNames.Nodup)
    (found : program.function? entry = some function) (noParams : function.params = [])
    (neverFails : sink.NeverFails) :
    ∃ machine, Machine.start assembly entry sink = .ok machine ∧
      RunsAs assembly sink machine (Evaluation.program .flat program entry) := by
  obtain ⟨machine, started, follows⟩ := program_follows ok distinct found noParams neverFails
  refine ⟨machine, started, fun fuel => ?_⟩
  cases fuel with
  | zero => exact ⟨0, machine, .refl (Machine.start_sink started), Nat.zero_le _⟩
  | succ fuel =>
    obtain ⟨count, reached, tracks⟩ := follows fuel
    refine ⟨count, reached, ?_⟩
    unfold Evaluation.program EStateM.run
    cases result : Evaluation.call .flat program (fuel + 1) 0 entry [] .empty with
    | ok value log =>
      rw [result] at tracks
      exact tracks
    | error halt log =>
      rw [result] at tracks
      cases halt with
      | fault fault => exact tracks
      | outOfFuel => exact ⟨tracks.1, Nat.succ_le_succ tracks.2⟩
      | undecided => exact tracks.2.elim

/-- A run from `entry` ends exactly as the evaluation does. -/
theorem ofProgram_ends_iff (ok : Assembly.ofProgram name program = .ok assembly)
    (distinct : ∀ function ∈ program.functions, function.paramNames.Nodup)
    (found : program.function? entry = some function) (noParams : function.params = [])
    (neverFails : sink.NeverFails) (lines : Array String) (outcome : Outcome) :
    assembly.Ends entry sink lines outcome ↔
      Evaluation.Ends .flat program entry lines outcome := by
  obtain ⟨machine, started, runs⟩ := ofProgram_runsAs ok distinct found noParams neverFails
  unfold Assembly.Ends Assembly.runEntry
  simp only [started, Prod.mk.injEq]
  constructor
  · rintro ⟨steps, shown, concluded⟩
    cases ran : machine.run assembly steps with
    | mk reached outcome? =>
      rw [ran] at shown concluded
      obtain ⟨own, rfl, rfl⟩ := Option.map_eq_some_iff.mp concluded
      obtain ⟨fuel, ended, logged⟩ := runs.ends ran
      have same : lines = (Evaluation.log (Evaluation.program .flat program entry fuel)).lines :=
        Sink.append_inj (shown.symm.trans logged)
      refine ⟨fuel, ?_, same.symm⟩
      rw [ended, logged, Machine.conclude_append neverFails]
  · rintro ⟨fuel, ended, rfl⟩
    obtain ⟨count, reached, ran, shown⟩ := runs.stops ended
    refine ⟨count, ?_⟩
    rw [ran, shown]
    exact ⟨rfl, congrArg some (Machine.conclude_append neverFails _ _)⟩

/-- No compiled program underflows its stack, leaves its code or calls what is not there. -/
theorem ofProgram_mayEndWith (ok : Assembly.ofProgram name program = .ok assembly)
    (distinct : ∀ function ∈ program.functions, function.paramNames.Nodup)
    (found : program.function? entry = some function) (noParams : function.params = [])
    (neverFails : sink.NeverFails) {lines : Array String} {outcome : Outcome}
    (ended : assembly.Ends entry sink lines outcome) : program.MayEndWith outcome := by
  obtain ⟨machine, started, runs⟩ := ofProgram_runsAs ok distinct found noParams neverFails
  obtain ⟨steps, ended⟩ := ended
  unfold Assembly.runEntry at ended
  simp only [started, Prod.mk.injEq] at ended
  obtain ⟨shown, concluded⟩ := ended
  obtain ⟨own, stopped, concluded⟩ := Option.map_eq_some_iff.mp concluded
  rw [shown, Machine.conclude_append neverFails] at concluded
  subst concluded
  obtain ⟨balanced, stops⟩ := (Machine.start_balanced ok started).run ok steps
  obtain ⟨executed, member, routine_ok⟩ := balanced.sound.origin
  have name_eq := Lowering.routine_name routine_ok
  cases stops own stopped with
  | result value => trivial
  | divisionByZero => exact ⟨executed, member, name_eq.symm⟩
  | uninitializedSlot slot => exact ⟨executed, member, name_eq.symm⟩
  | callDepthExceeded => trivial
  | sinkFull full =>
    rw [shown] at full
    simp [Sink.isFull, Sink.append, neverFails.1] at full

/-- Compiler correctness: a run of an entry function ends with an outcome and the lines it has
printed if and only if the evaluation of the tree does. -/
theorem Assembly.ends_iff_evaluation_ends (ok : Assembly.ofProgram name program = .ok assembly)
    (distinctNames : (program.functions.map Function.name).Nodup)
    (distinctParams : ∀ function ∈ program.functions, function.paramNames.Nodup)
    (member : function ∈ program.functions) (noParams : function.params = [])
    (neverFails : sink.NeverFails) (lines : Array String) (outcome : Outcome) :
    (assembly.Ends function.name sink lines outcome ↔
      Evaluation.Ends .flat program function.name lines outcome) ∧
    (assembly.Ends function.name sink lines outcome → program.MayEndWith outcome) := by
  have found := Program.function?_of_mem distinctNames member
  exact ⟨ofProgram_ends_iff ok distinctParams found noParams neverFails lines outcome,
    ofProgram_mayEndWith ok distinctParams found noParams neverFails⟩

end

/-- Halves a number until nothing is left of it. -/
def Program.halving : Program where
  functions := [
    ⟨"half", [⟨"n", ⟨1, 15⟩⟩],
      [.return_ ⟨1, 20⟩ (some (.binary ⟨1, 27⟩ (.arithmetic .div) (.var ⟨1, 27⟩ "n")
        (.int ⟨1, 31⟩ 2)))], ⟨1, 1⟩⟩,
    ⟨"main", [],
      [.assign ⟨2, 19⟩ "n" (.int ⟨2, 23⟩ 9),
        .loop ⟨2, 26⟩ (.binary ⟨2, 33⟩ (.comparison .gt) (.var ⟨2, 33⟩ "n") (.int ⟨2, 37⟩ 0))
          [.print ⟨2, 40⟩ (.assign ⟨2, 46⟩ "n" (.call ⟨2, 50⟩ "half" [.var ⟨2, 55⟩ "n"]))]],
      ⟨2, 1⟩⟩]

/-- A program with a loop, a call and a nested assignment. -/
theorem Assembly.ends_iff_evaluation_ends_halving :
    ∃ assembly, Assembly.ofProgram "Main" .halving = .ok assembly ∧
      assembly.Ends "main" .unlimited #["4", "2", "1", "0"] (.ok none) := by
  have member : Program.halving.functions[1] ∈ Program.halving.functions :=
    List.getElem_mem (by decide)
  exact ⟨_, rfl, (Assembly.ends_iff_evaluation_ends rfl (by decide) (by decide) member rfl
    ⟨rfl, rfl⟩ _ _).1.mpr ⟨6, by decide +kernel, by decide +kernel⟩⟩

end ImpStack

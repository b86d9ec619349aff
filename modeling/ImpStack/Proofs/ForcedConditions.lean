import ImpStack.Compile
import ImpStack.Proofs.Approximation
import ImpStack.Proofs.ScopeCheck
import ImpStack.Proofs.SinkLimits

/-!
A comparison that stands as a condition counts as true if and only if it has the value 1, as long as
its operands have an order. Then it makes no difference to a run whether the condition is the
comparison itself or its value (`conditions_agree_with_values`). The order is asked of the runs that
a program really makes (`Program.ComparesInOrder`): the guarded evaluation stops where a chosen
condition compares without one. Without it the two differ (`conditions_disagree_with_values`).
-/
namespace ImpStack

/-- Whenever the evaluation from `entry` comes to a chosen comparison that stands as a condition and
asks for the order of its operands, they have one. -/
def Program.ComparesInOrder (program : Program) (chosen : Position → Bool) (entry : String) :
    Prop :=
  ∀ fuel log, Evaluation.program (.guarded chosen) program entry fuel ≠ .error .undecided log

/-! ### Evaluations -/

section

variable {program : Program} {chosen : Position → Bool} {entry : String}

/-- More fuel changes nothing in an evaluation that has enough of it. -/
theorem program_guarded_fuel (program : Program) (chosen : Position → Bool) (entry : String)
    {less more : Nat} (le : less ≤ more) :
    Evaluation.program (.guarded chosen) program entry less =
        Evaluation.program (.guarded chosen) program entry more ∨
      ∃ log, Evaluation.program (.guarded chosen) program entry less = .error .outOfFuel log := by
  have guards : Guards .outOfFuel chosen chosen fun _ => false := fun _ => .inl ⟨rfl, rfl⟩
  have upTo := call_upTo guards program (.inr ⟨rfl, le⟩) 0 entry [] .empty
  rwa [program.force_none] at upTo

/-- One evaluation that ends shows that the operands always have an order. -/
theorem Program.ComparesInOrder.of_ends {fuel : Nat} {outcome : Outcome}
    (ended : Evaluation.outcome? (Evaluation.program (.guarded chosen) program entry fuel) =
      some outcome) : program.ComparesInOrder chosen entry := by
  intro other log stopped
  rcases Nat.le_total fuel other with le | le
  · obtain same | ⟨_, wants⟩ := program_guarded_fuel program chosen entry le
    · rw [same, stopped] at ended
      cases ended
    · rw [wants] at ended
      cases ended
  · obtain same | ⟨_, wants⟩ := program_guarded_fuel program chosen entry le
    · rw [← same, stopped] at ended
      cases ended
    · rw [wants] at stopped
      cases stopped

/-- With any of the chosen conditions forced, the evaluation does what the guarded one does. -/
theorem program_force_eq (inOrder : program.ComparesInOrder chosen entry)
    {forced : Position → Bool} (among : ∀ position, forced position = true →
      chosen position = true) (fuel : Nat) :
    Evaluation.program .flat (program.force forced) entry fuel =
      Evaluation.program (.guarded chosen) program entry fuel := by
  have guards : Guards .undecided chosen (fun _ => false) forced := by
    intro position
    cases isChosen : chosen position with
    | true => exact .inr ⟨rfl, rfl⟩
    | false =>
      refine .inl ⟨rfl, ?_⟩
      cases isForced : forced position with
      | true => exact (among position isForced).symm.trans isChosen
      | false => rfl
  have upTo := call_upTo guards program (.inl rfl : Feeds .undecided fuel fuel) 0 entry [] .empty
  rw [Rules.guarded_none] at upTo
  obtain same | ⟨log, stopped⟩ := upTo
  · exact same.symm
  · exact absurd stopped (inOrder fuel log)

/-- Forcing the chosen conditions does not change the evaluation. -/
theorem program_force_same (inOrder : program.ComparesInOrder chosen entry) (fuel : Nat) :
    Evaluation.program .flat (program.force chosen) entry fuel =
      Evaluation.program .flat program entry fuel := by
  have none : ∀ position : Position, (fun _ => false) position = true → chosen position = true :=
    fun _ never => by cases never
  have unforced := program_force_eq inOrder none fuel
  rw [program.force_none] at unforced
  rw [unforced, program_force_eq inOrder fun _ => id]

end

/-! ### Runs -/

section

variable {name : String} {program : Program} {left right : Assembly}

/-- Whether a run can start from `entry`, and why not. -/
theorem start_of_arities (ok : Assembly.ofProgram name program = .ok left) (entry : String)
    (sink : Sink) :
    match program.arities entry with
    | none => Machine.start left entry sink = .error (.unknownFunction entry)
    | some 0 => ∃ machine, Machine.start left entry sink = .ok machine
    | some (more + 1) =>
      Machine.start left entry sink = .error (.entryTakesArguments entry (more + 1)) := by
  rw [Program.arities_eq]
  unfold Machine.start
  cases found : program.function? entry with
  | none =>
    cases reached : left.dispatch? entry with
    | none => rfl
    | some routine =>
      obtain ⟨_, never, _⟩ := Assembly.function?_of_dispatch? ok reached
      rw [found] at never
      cases never
  | some function =>
    obtain ⟨routine, reached, routine_ok⟩ := Assembly.dispatch?_of_function? ok found
    rw [reached, Option.map_some, ← Lowering.routine_arity routine_ok]
    dsimp only
    cases routine.arity with
    | zero => exact ⟨_, rfl⟩
    | succ more => rfl

/-- A name without parameters stands for a function without parameters. -/
theorem Program.function?_of_arities {entry : String} (none : program.arities entry = some 0) :
    ∃ function, program.function? entry = some function ∧ function.params = [] := by
  rw [arities_eq] at none
  obtain ⟨function, found, arity_eq⟩ := Option.map_eq_some_iff.mp none
  exact ⟨function, found, List.eq_nil_of_length_eq_zero arity_eq⟩

/-- Two programs run alike if their functions have the same arities and they evaluate alike. -/
theorem sameRuns_of_program_eq {other : Program} (ok : Assembly.ofProgram name program = .ok left)
    (otherOk : Assembly.ofProgram name other = .ok right)
    (distinct : ∀ function ∈ program.functions, function.paramNames.Nodup)
    (otherDistinct : ∀ function ∈ other.functions, function.paramNames.Nodup)
    (arities_eq : other.arities = program.arities) {entry : String}
    (same : ∀ fuel, Evaluation.program .flat other entry fuel =
      Evaluation.program .flat program entry fuel) (sink : Sink) :
    left.SameRuns right entry sink := by
  have leftStart := start_of_arities ok entry sink
  have rightStart := start_of_arities otherOk entry sink
  rw [arities_eq] at rightStart
  -- Whether a run starts depends on the arities only. If it does, what it prints and how it ends is
  -- what the evaluations say.
  cases arity : program.arities entry with
  | none =>
    rw [arity] at leftStart rightStart
    exact .of_start_error leftStart rightStart
  | some count =>
    rw [arity] at leftStart rightStart
    cases count with
    | succ more => exact .of_start_error leftStart rightStart
    | zero =>
      obtain ⟨machine, leftStarted⟩ := leftStart
      obtain ⟨otherMachine, rightStarted⟩ := rightStart
      obtain ⟨function, found, noParams⟩ := Program.function?_of_arities arity
      obtain ⟨otherFunction, otherFound, otherNoParams⟩ :=
        Program.function?_of_arities ((congrFun arities_eq entry).trans arity)
      have neverFails := sink.free_neverFails
      refine .of_free leftStarted rightStarted ⟨fun lines => ?_, fun lines outcome => ?_⟩
      · rw [ofProgram_prints_iff ok distinct found noParams neverFails,
          ofProgram_prints_iff otherOk otherDistinct otherFound otherNoParams neverFails]
        unfold Evaluation.Prints
        simp only [same]
      · rw [ofProgram_ends_iff ok distinct found noParams neverFails,
          ofProgram_ends_iff otherOk otherDistinct otherFound otherNoParams neverFails]
        unfold Evaluation.Ends
        simp only [same]

end

/-- The negated comparison holds exactly when the comparison does not, unless the comparison asks
for an order that its operands do not have. Where a run meets no such operands in some conditions,
these can be replaced by the values of their comparisons: the program is still accepted, and every
run prints the same and ends in the same way. -/
theorem conditions_agree_with_values {name : String} {program : Program} {assembly : Assembly}
    (check_ok : program.check = .ok ()) (ok : Assembly.ofProgram name program = .ok assembly)
    (chosen : Position → Bool) :
    (∀ comparison left right,
      Value.holds comparison.negate left right = !Value.holds comparison left right ↔
        (comparison.isOrdering && Value.unordered left right) = false) ∧
    ∃ forced, (program.force chosen).check = .ok () ∧
      Assembly.ofProgram name (program.force chosen) = .ok forced ∧
      ∀ entry sink, program.ComparesInOrder chosen entry →
        assembly.SameRuns forced entry sink := by
  refine ⟨Value.holds_negate_iff, ?_⟩
  have forced_check := (program.check_force chosen).trans check_ok
  obtain ⟨forced, forced_ok⟩ := Assembly.ofProgram_force ok chosen
  obtain ⟨_, checked⟩ := Program.check_ok check_ok
  obtain ⟨_, forcedChecked⟩ := Program.check_ok forced_check
  refine ⟨forced, forced_check, forced_ok, fun entry sink inOrder => ?_⟩
  exact sameRuns_of_program_eq ok forced_ok (Program.paramNames_nodup checked)
    (Program.paramNames_nodup forcedChecked) (program.arities_force chosen)
    (program_force_same inOrder) sink

/-- Compares numbers in order, and a NaN with them only for equality. -/
def doublingSource : String :=
  "function main() \x7b n = 0.0 / 0.0; x = 0.5; " ++
    "while (x < 3) \x7b x = x * 2; if (n == x) print(n); else print(x); \x7d \x7d"

/-- A loop whose conditions compare in order, and a branch that asks for the equality of a NaN,
which is no question of order. -/
theorem conditions_agree_with_values_doubling :
    ∃ program assembly forced, Program.ofSource doublingSource = .ok program ∧
      Assembly.ofProgram "Main" program = .ok assembly ∧
      Assembly.ofProgram "Main" (program.force fun _ => true) = .ok forced ∧
      assembly.SameRuns forced "main" .unlimited := by
  have runs : (Program.ofSource doublingSource).toOption.any (fun program =>
      decide (program.check = .ok ()) && (Assembly.ofProgram "Main" program).toOption.isSome &&
        decide (Evaluation.outcome? (Evaluation.program (.guarded fun _ => true) program "main" 5) =
          some (.ok none))) = true := by decide +kernel
  cases parsed : Program.ofSource doublingSource with
  | error error =>
    rw [parsed] at runs
    cases runs
  | ok program =>
    rw [parsed] at runs
    obtain ⟨runs, ends⟩ := Bool.and_eq_true_iff.mp runs
    obtain ⟨check_ok, lowers⟩ := Bool.and_eq_true_iff.mp runs
    cases ok : Assembly.ofProgram "Main" program with
    | error error =>
      rw [ok] at lowers
      cases lowers
    | ok assembly =>
      obtain ⟨_, forced, _, forced_ok, same⟩ :=
        conditions_agree_with_values (of_decide_eq_true check_ok) ok fun _ => true
      exact ⟨program, assembly, forced, rfl, ok, forced_ok,
        same "main" .unlimited (.of_ends (of_decide_eq_true ends))⟩

/-- Compares a NaN with a number for their order. -/
def unorderedSource : String :=
  "function main() \x7b n = 0.0 / 0.0; if (n >= 1) print(1); else print(0); \x7d"

/-- The comparison has the value 0, and yet the branch is taken. -/
theorem conditions_disagree_with_values :
    (∃ left right, Value.holds .ge left right = false ∧
      Value.holds (Comparison.negate .ge) left right = false) ∧
    ∃ program assembly forced, Program.ofSource unorderedSource = .ok program ∧
      Assembly.ofSource "Main" unorderedSource = .ok assembly ∧
      Assembly.ofProgram "Main" (program.force fun _ => true) = .ok forced ∧
      assembly.Ends "main" .unlimited #["1"] (.ok none) ∧
      forced.Ends "main" .unlimited #["0"] (.ok none) := by
  have shown : (Program.ofSource unorderedSource).toOption.bind (fun program =>
      (Assembly.ofSource "Main" unorderedSource).toOption.bind fun assembly =>
        (Assembly.ofProgram "Main" (program.force fun _ => true)).toOption.map fun forced =>
          (assembly.runEntry "main" .unlimited 20, forced.runEntry "main" .unlimited 20)) =
      some ((Sink.unlimited.append #["1"], some (.ok none)),
        (Sink.unlimited.append #["0"], some (.ok none))) := by decide +kernel
  refine ⟨⟨.float (0 / 0), .int 1, by decide +kernel, by decide +kernel⟩, ?_⟩
  cases parsed : Program.ofSource unorderedSource with
  | error error =>
    rw [parsed] at shown
    cases shown
  | ok program =>
    rw [parsed] at shown
    cases ok : Assembly.ofSource "Main" unorderedSource with
    | error error =>
      rw [ok] at shown
      cases shown
    | ok assembly =>
      rw [ok] at shown
      cases forced_ok : Assembly.ofProgram "Main" (program.force fun _ => true) with
      | error error =>
        simp [Except.toOption, forced_ok] at shown
      | ok forced =>
        simp only [Except.toOption, forced_ok, Option.bind_some, Option.map_some,
          Option.some.injEq, Prod.mk.injEq] at shown
        exact ⟨program, assembly, forced, rfl, rfl, forced_ok, ⟨20, shown.1⟩, ⟨20, shown.2⟩⟩

end ImpStack

import ImpStack.Compile
import ImpStack.Proofs.BlockSimulation
import ImpStack.Proofs.Observation

/-!
An accepted program runs as if every block had variables of its own
(`Assembly.ofSource_runsInBlocks`). Compiled code has one slot for each name of a function; that two
blocks share the slot of a name cannot be seen, because no accepted program reads the name before
its own block has assigned it. All three parts come together here: the correctness of compilation,
what a run shows before it ends, and the agreement of the two ways to keep variables.
-/
namespace ImpStack

/-- An accepted source passes all three stages. -/
theorem Assembly.ofSource_eq_ok_iff {name source : String} {assembly : Assembly} :
    Assembly.ofSource name source = .ok assembly ↔
      ∃ program, Program.ofSource source = .ok program ∧ program.check = .ok () ∧
        Assembly.ofProgram name program = .ok assembly := by
  unfold Assembly.ofSource
  constructor
  · intro accepted
    obtain ⟨program, parsed, accepted⟩ := bind_eq_ok accepted
    obtain ⟨_, checked, lowered⟩ := bind_eq_ok accepted
    exact ⟨program, mapError_eq_ok parsed, mapError_eq_ok checked, mapError_eq_ok lowered⟩
  · rintro ⟨program, parsed, checked, lowered⟩
    have staged : ((Program.ofSource source).mapError CompileError.grammar >>= fun program =>
        program.check.mapError CompileError.scope >>= fun _ =>
          (Assembly.ofProgram name program).mapError CompileError.lowering) = .ok assembly := by
      rw [parsed]
      show (program.check.mapError CompileError.scope >>= fun _ => _) = _
      rw [checked, lowered]
      rfl
    exact staged

section

variable {name entry : String} {program : Program} {assembly : Assembly} {global : Scope}
  {function : Function}

/-- A checked program evaluates in the same way under both rules, and never for want of a value. -/
theorem program_blocks_eq (ok : Assembly.ofProgram name program = .ok assembly)
    (checked : ∀ function ∈ program.functions, function.check global = .ok ())
    (found : program.function? entry = some function) (noParams : function.params = [])
    (fuel : Nat) :
    Evaluation.program .blocks program entry fuel = Evaluation.program .flat program entry fuel ∧
      ∀ log called slot, Evaluation.program .flat program entry fuel ≠
        .error (.fault (.uninitializedSlot called slot)) log := by
  have known : program.arities entry = some ([] : List Value).length := by
    rw [Program.arities_eq, found, Option.map_some, Function.arity, noParams]
    rfl
  have alike := call_alike ok checked fuel 0 known .empty
  unfold Evaluation.program EStateM.run
  -- The two calls are alike, which excludes that only one of them has a value.
  cases flat : Evaluation.call .flat program fuel 0 entry [] .empty with
  | ok value after =>
    cases block : Evaluation.call .blocks program fuel 0 entry [] .empty with
    | ok other otherAfter =>
      rw [flat, block] at alike
      obtain ⟨rfl, rfl⟩ := alike
      exact ⟨rfl, fun _ _ _ never => by cases never⟩
    | error halt otherAfter =>
      rw [flat, block] at alike
      exact alike.elim
  | error halt after =>
    cases block : Evaluation.call .blocks program fuel 0 entry [] .empty with
    | ok other otherAfter =>
      rw [flat, block] at alike
      exact alike.elim
    | error otherHalt otherAfter =>
      rw [flat, block] at alike
      obtain ⟨rfl, rfl, given⟩ := alike
      refine ⟨rfl, fun log called slot same => ?_⟩
      obtain ⟨same, _⟩ := EStateM.Result.error.inj same
      exact given called slot same

end

/-- A run from `entry` is one with block scoping. -/
structure Assembly.RunsInBlocks (assembly : Assembly) (program : Program) (entry : String)
    (sink : Sink) : Prop where
  ends_iff : ∀ lines outcome, assembly.Ends entry sink lines outcome ↔
    Evaluation.Ends .blocks program entry lines outcome
  /-- Also a run without an end prints what the evaluation prints. -/
  prints_iff : ∀ lines, assembly.Prints entry sink lines ↔
    Evaluation.Prints .blocks program entry lines
  /-- The evaluation finds a value for every name that it reads. -/
  reads_defined : ∀ fuel log called slot, Evaluation.program .blocks program entry fuel ≠
    .error (.fault (.uninitializedSlot called slot)) log
  run_defined : ∀ lines called slot,
    ¬ assembly.Ends entry sink lines (.error (.uninitializedSlot called slot))
  /-- The loads yield, one after the other, the values that the evaluation reads, where a block that
  has been left holds none. -/
  loads : ∀ count, assembly.entryReads entry sink count <+:
    (Evaluation.log (Evaluation.program .blocks program entry (count + 1))).reads

/-- One slot for each name cannot be told from block scoping in an accepted program. -/
theorem Assembly.ofSource_runsInBlocks {name source entry : String} {program : Program}
    {assembly : Assembly} {function : Function} {sink : Sink}
    (accepted : Assembly.ofSource name source = .ok assembly)
    (parsed : Program.ofSource source = .ok program)
    (found : program.function? entry = some function) (noParams : function.params = [])
    (neverFails : sink.NeverFails) : assembly.RunsInBlocks program entry sink := by
  obtain ⟨other, other_parsed, check_ok, ok⟩ := Assembly.ofSource_eq_ok_iff.mp accepted
  obtain rfl := Except.ok.inj (other_parsed.symm.trans parsed)
  obtain ⟨global, checked⟩ := Program.check_ok check_ok
  have distinct := Program.paramNames_nodup checked
  -- An accepted program evaluates alike with either kind of variables and never reads an empty
  -- slot, so all that is known of the flat evaluation carries over.
  have same := program_blocks_eq ok checked found noParams
  have ends_iff : ∀ lines outcome, assembly.Ends entry sink lines outcome ↔
      Evaluation.Ends .blocks other entry lines outcome := by
    intro lines outcome
    rw [ofProgram_ends_iff ok distinct found noParams neverFails]
    unfold Evaluation.Ends
    simp only [(same _).1]
  refine ⟨ends_iff, ?_, ?_, ?_, ?_⟩
  · intro lines
    rw [ofProgram_prints_iff ok distinct found noParams neverFails]
    unfold Evaluation.Prints
    simp only [(same _).1]
  · intro fuel log called slot
    rw [(same fuel).1]
    exact (same fuel).2 log called slot
  · intro lines called slot ended
    obtain ⟨fuel, stopped, _⟩ := (ends_iff lines _).mp ended
    rw [(same fuel).1] at stopped
    cases result : Evaluation.program .flat other entry fuel with
    | ok value log => simp [result, Evaluation.outcome?] at stopped
    | error halt log =>
      cases halt with
      | fault fault =>
        simp only [result, Evaluation.outcome?, Option.some.injEq, Except.error.injEq] at stopped
        subst stopped
        exact (same fuel).2 log called slot result
      | outOfFuel => simp [result, Evaluation.outcome?] at stopped
      | undecided => simp [result, Evaluation.outcome?] at stopped
  · intro count
    rw [(same (count + 1)).1]
    exact ofProgram_reads_isPrefix ok distinct found noParams neverFails count

/-- Sibling blocks and the rounds of a loop use one name. -/
def reusingSource : String :=
  "function main() \x7b i = 0; while (i < 2) \x7b t = i + 1; print(t); i = t; \x7d " ++
    "\x7b t = 7; print(t); \x7d \x7d"

/-- A name is used in a loop and in a block beside it, and each use has its own value. -/
theorem Assembly.ofSource_runsInBlocks_reusing :
    ∃ program assembly, Program.ofSource reusingSource = .ok program ∧
      Assembly.ofSource "Main" reusingSource = .ok assembly ∧
      assembly.RunsInBlocks program "main" .unlimited ∧
      assembly.Ends "main" .unlimited #["1", "2", "7"] (.ok none) := by
  have runs : (Program.ofSource reusingSource).toOption.any (fun program =>
      let result := Evaluation.program .blocks program "main" 5
      decide (program.check = .ok ()) && (Assembly.ofProgram "Main" program).toOption.isSome &&
        (program.function? "main").any (·.params.isEmpty) &&
        decide (Evaluation.outcome? result = some (.ok none) ∧
          (Evaluation.log result).lines = #["1", "2", "7"])) = true := by decide +kernel
  cases parsed : Program.ofSource reusingSource with
  | error error =>
    rw [parsed] at runs
    cases runs
  | ok program =>
    rw [parsed] at runs
    obtain ⟨runs, evaluates⟩ := Bool.and_eq_true_iff.mp runs
    obtain ⟨runs, entry⟩ := Bool.and_eq_true_iff.mp runs
    obtain ⟨checked, lowers⟩ := Bool.and_eq_true_iff.mp runs
    cases lowered : Assembly.ofProgram "Main" program with
    | error error =>
      rw [lowered] at lowers
      cases lowers
    | ok assembly =>
      have accepted := Assembly.ofSource_eq_ok_iff.mpr
        ⟨program, parsed, of_decide_eq_true checked, lowered⟩
      obtain ⟨function, found, noParams⟩ := (Option.any_eq_true _ _).mp entry
      have blocks := Assembly.ofSource_runsInBlocks accepted parsed found
        (List.isEmpty_iff.mp noParams) (⟨rfl, rfl⟩ : Sink.unlimited.NeverFails)
      exact ⟨program, assembly, rfl, accepted, blocks,
        (blocks.ends_iff _ _).mpr ⟨5, of_decide_eq_true evaluates⟩⟩

end ImpStack

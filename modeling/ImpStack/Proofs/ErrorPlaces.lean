import ImpStack.Proofs.Agreement
import ImpStack.Proofs.BlockEquivalence
import ImpStack.Proofs.NamePlaces
import ImpStack.Proofs.PairedReading
import ImpStack.Proofs.Replay

/-!
Every error of a compilation is about a token of the source: it has the place of the token, and what
it says fits the token and those behind it (`Assembly.error_pointsInto_source`; SPEC_FULL, section
7).

Each stage has its own way to a token. An error of the grammar names a token that the parser has
seen; one of the check is the first violation of the rule of scoping, at a use with a place of its
own; and one of the lowering is a call with a wrong number of arguments.
-/
namespace ImpStack

/-- What the error says of the token at its place and of the tokens behind that one. Lowering finds
nothing but calls with the wrong number of arguments. -/
def CompileError.Concerns (token : Token) (behind : List Token) : CompileError → Prop
  | .grammar (.unexpectedToken _ found) => found = token
  | .grammar (.unexpectedEnd _ _) => token.kind = .eof
  | .grammar (.assignmentTarget _) => token.kind = .symbol .assign
  | .grammar (.callTarget _) => token.kind = .symbol .leftParen
  | .grammar (.integerRange lexeme _) => token.lexeme = lexeme
  | .grammar (.invalidToken lexeme _) => token.lexeme = lexeme
  | .scope (.redeclared name _) =>
    token.IsName name ∨
      token.kind = .keyword .function ∧ ∃ next ∈ behind.head?, Token.IsName next name
  | .scope error => Named error.name (token :: behind)
  | .lowering (.arityMismatch name _ _ _) => Named name (token :: behind)
  | .lowering _ => False

/-- The error is about one of the tokens. -/
def CompileError.PointsInto (tokens : List Token) (error : CompileError) : Prop :=
  ∃ before token behind, tokens = before ++ token :: behind ∧ error.position = token.position ∧
    error.Concerns token behind

variable {tokens : List Token} {error : CompileError}

/-! ### Errors of the grammar -/

/-- Each token of the list is paired with itself. -/
def Pairing.self (tokens : List Token) : Pairing where
  Pairs left right := left = right ∧ left ∈ tokens
  kind_eq pairs := congrArg Token.kind pairs.1.symm
  lexeme_eq pairs := congrArg Token.lexeme pairs.1.symm

/-- An error that is paired with one about a token of the list is about such a token. -/
theorem SyntaxError.Paired.pointsInto {error other : SyntaxError}
    (paired : error.Paired (.self tokens) other) :
    (CompileError.grammar error).PointsInto tokens := by
  have pointed : ∀ {token : Token}, token ∈ tokens → error.position = token.position →
      (∀ behind, (CompileError.grammar error).Concerns token behind) →
      (CompileError.grammar error).PointsInto tokens := by
    intro token member position_eq concerns
    obtain ⟨before, behind, split⟩ := List.append_of_mem member
    exact ⟨before, token, behind, split, position_eq, concerns behind⟩
  cases paired with
  | unexpectedToken _ pairs => exact pointed pairs.2 rfl fun _ => rfl
  | unexpectedEnd _ pairs kind => exact pointed pairs.2 rfl fun _ => kind
  | assignmentTarget pairs kind => exact pointed pairs.2 rfl fun _ => kind
  | callTarget pairs kind => exact pointed pairs.2 rfl fun _ => kind
  | integerRange pairs => exact pointed pairs.2 rfl fun _ => rfl
  | invalidToken pairs => exact pointed pairs.2 rfl fun _ => rfl

theorem Program.error_pointsInto {body : List Token} {finish : Position} {error : SyntaxError}
    (inside : ∀ token ∈ body, token.kind ≠ .eof)
    (failed : Program.ofTokens (body ++ [.eofAt finish]) = .error error) :
    (CompileError.grammar error).PointsInto (body ++ [.eofAt finish]) := by
  have pairs : List.Forall₂ (Pairing.self (body ++ [.eofAt finish])).Pairs body body := by
    refine List.forall₂_same.mpr fun token member => ⟨rfl, ?_⟩
    exact List.mem_append_left _ member
  have ends : (Pairing.self (body ++ [.eofAt finish])).Pairs (.eofAt finish) (.eofAt finish) :=
    ⟨rfl, by simp⟩
  have paired := Program.ofTokens_paired inside pairs ends
  rw [failed] at paired
  exact paired.pointsInto

/-! ### Errors about names -/

/-- A use at the place of the error, of the name that it is about. -/
theorem Use.StandsIn.pointsInto {use : Use} {name : String}
    (stands : use.StandsIn tokens) (mentions : use.mention? = some (name, error.position))
    (concerns : ∀ token behind, Named name (token :: behind) → error.Concerns token behind) :
    error.PointsInto tokens := by
  obtain ⟨before, token, behind, split, position_eq, named⟩ := stands _ _ mentions
  exact ⟨before, token, behind, split, position_eq.symm, concerns token behind named⟩

/-- A violation has the place of the use that violates the rule. -/
theorem Visit.violation_pointsInto {functions params : List String} {before : List Visit}
    {visit : Visit} {error : ScopeError} (stands : visit.use.StandsIn tokens)
    (violates : visit.violation? functions params before = some error) :
    (CompileError.scope error).PointsInto tokens := by
  unfold violation? at violates
  split at violates
  · next name position inside use_eq =>
    have mentions : visit.use.mention? = some (name, position) := by rw [use_eq]; rfl
    split at violates
    · cases violates
    · split at violates
      · obtain rfl := Option.some.inj violates
        exact stands.pointsInto mentions fun _ _ named => named
      · split at violates
        · obtain rfl := Option.some.inj violates
          exact stands.pointsInto mentions fun _ _ named => named
        · obtain rfl := Option.some.inj violates
          exact stands.pointsInto mentions fun _ _ named => named
  · next callee count position use_eq =>
    have mentions : visit.use.mention? = some (callee, position) := by rw [use_eq]; rfl
    split at violates
    · cases violates
    · obtain rfl := Option.some.inj violates
      exact stands.pointsInto mentions fun _ _ named => named
  · cases violates

namespace Function.StandsIn

variable {function : Function}

/-- A function that is declared again is marked at its first word. -/
theorem redeclared (stands : function.StandsIn tokens) :
    (CompileError.scope (.redeclared function.name function.position)).PointsInto tokens := by
  obtain ⟨before, keyword, name, behind, split, kind, position_eq, isName⟩ := stands.head
  exact ⟨before, keyword, name :: behind, split, position_eq.symm, .inr ⟨kind, name, rfl, isName⟩⟩

theorem violation (stands : function.StandsIn tokens) {functions : List String}
    {error : ScopeError} (violation : function.FirstViolation functions error) :
    (CompileError.scope error).PointsInto tokens := by
  cases violation with
  | @param _ param _ split _ _ =>
    obtain ⟨token, member, isName, position_eq⟩ := stands.params param (by simp [split])
    obtain ⟨before, behind, at_token⟩ := List.append_of_mem member
    exact ⟨before, token, behind, at_token, position_eq.symm, .inl isName⟩
  | @body _ visit _ _ _ split _ violates =>
    exact Visit.violation_pointsInto (stands.uses visit (by simp [split])) violates

end Function.StandsIn

namespace Program

variable {program : Program}

theorem violation_pointsInto (stand : ∀ function ∈ program.functions, function.StandsIn tokens)
    {error : ScopeError} (violation : program.FirstViolation error) :
    (CompileError.scope error).PointsInto tokens := by
  cases violation with
  | @function _ function _ split _ _ => exact (stand function (by simp [split])).redeclared
  | @within _ function _ _ _ split _ violation =>
    exact (stand function (by simp [split])).violation violation

/-- A call of a program is a use in one of its functions. -/
theorem call_standsIn (stand : ∀ function ∈ program.functions, function.StandsIn tokens)
    {call : Call} (member : call ∈ program.calls) :
    ∃ use : Use, use.mention? = some (call.callee, call.position) ∧ use.StandsIn tokens := by
  obtain ⟨function, among, here⟩ := List.mem_flatMap.mp member
  obtain ⟨visit, visited, picked⟩ := List.mem_filterMap.mp here
  refine ⟨visit.use, ?_, (stand function among).uses visit visited⟩
  unfold Visit.call? at picked
  split at picked
  · next use_eq =>
    obtain rfl := Option.some.inj picked
    rw [use_eq]
    rfl
  · cases picked
  · cases picked

/-- In a program that keeps to the rule, lowering finds calls at fault and nothing else. -/
theorem fault_pointsInto (stand : ∀ function ∈ program.functions, function.StandsIn tokens)
    (wellScoped : program.WellScoped) {error : LoweringError}
    (faulty : program.fault? = some error) :
    (CompileError.lowering error).PointsInto tokens := by
  obtain ⟨before, call, after, function, split, _, _, _, _, rfl⟩ :=
    (wellScoped.fault?_eq_some_iff error).mp faulty
  have among : call ∈ program.calls := by simp [split]
  obtain ⟨use, mentions, stands⟩ := call_standsIn stand among
  exact stands.pointsInto mentions fun _ _ named => named

end Program

/-! ### Errors of a compilation -/

/-- A computation in two steps fails in the first one or in the second one. -/
theorem bind_eq_error {ε α β : Type} {step : Except ε α} {next : α → Except ε β} {error : ε}
    (failed : (step >>= next) = .error error) :
    step = .error error ∨ ∃ value, step = .ok value ∧ next value = .error error := by
  cases step with
  | error first => exact .inl (congrArg Except.error (Except.error.inj failed))
  | ok value => exact .inr ⟨value, rfl, failed⟩

theorem mapError_eq_error {ε δ α : Type} {step : Except ε α} {convert : ε → δ} {error : δ}
    (failed : step.mapError convert = .error error) :
    ∃ cause, step = .error cause ∧ error = convert cause := by
  cases step with
  | error cause => exact ⟨cause, rfl, (Except.error.inj failed).symm⟩
  | ok value => cases failed

/-- Every error of a compilation has the place of a token that it is about, and the generator has no
error without a place. -/
theorem Assembly.error_pointsInto_source {name source : String}
    (failed : Assembly.ofSource name source = .error error) :
    error.PointsInto (Token.listOf source) ∧
      ∀ generator program fault, (Generator.generate generator program).1 = .error fault →
        ∃ cause, fault = .lowering cause := by
  refine ⟨?_, fun generator program fault faulty => ?_⟩
  · obtain ⟨body, finish, listed, inside⟩ := Token.exists_listFrom_eq 0 .start source.toList
    have listOf_eq : Token.listOf source = body ++ [.eofAt finish] := listed
    unfold Assembly.ofSource Program.ofSource at failed
    rw [listOf_eq] at failed ⊢
    -- The stages come one after the other, and what the earlier ones accepted says where the names
    -- of the program stand.
    rcases bind_eq_error failed with unread | ⟨program, read, failed⟩
    · obtain ⟨cause, misfit, rfl⟩ := mapError_eq_error unread
      exact Program.error_pointsInto inside misfit
    · have text := (Program.ofTokens_eq_ok_iff inside rfl program).mp (mapError_eq_ok read)
      have stand : ∀ function ∈ program.functions, function.StandsIn (body ++ [.eofAt finish]) :=
        fun function member => (text.standsIn function member).within [] _
      rcases bind_eq_error failed with refused | ⟨_, checked, failed⟩
      · obtain ⟨cause, violation, rfl⟩ := mapError_eq_error refused
        rw [program.check_accords.eq_error_iff, Program.violation?_eq_some_iff] at violation
        exact Program.violation_pointsInto stand violation
      · obtain ⟨cause, faulty, rfl⟩ := mapError_eq_error failed
        have accepted := program.check_accords.eq_ok_iff.mp ⟨_, mapError_eq_ok checked⟩
        rw [Program.violation?_eq_none_iff] at accepted
        rw [(Assembly.ofProgram_accords name program).eq_error_iff] at faulty
        exact Program.fault_pointsInto stand accepted faulty
  · rw [generator.generate_eq] at faulty
    obtain ⟨cause, _, rfl⟩ := mapError_eq_error faulty
    exact ⟨cause, rfl⟩

/-- A name without a value, in parentheses. -/
def groupedSource : String := "function main() \x7b print(((x)) + 1); \x7d"

theorem Assembly.error_pointsInto_source_grouped :
    Assembly.ofSource "Main" groupedSource =
        .error (.scope (.undeclaredVariable "x" ⟨1, 25⟩)) ∧
      (CompileError.scope (.undeclaredVariable "x" ⟨1, 25⟩)).PointsInto
        (Token.listOf groupedSource) := by
  have failed : Assembly.ofSource "Main" groupedSource =
      .error (.scope (.undeclaredVariable "x" ⟨1, 25⟩)) := by decide +kernel
  exact ⟨failed, (error_pointsInto_source failed).1⟩

end ImpStack

import ImpStack.Proofs.ErrorPlaces
import ImpStack.Proofs.ForeseenPrograms
import ImpStack.Proofs.LongestToken
import ImpStack.Proofs.Numerals

/-!
Where a text stops being the beginning of a program (SPEC_FULL, section 4.2). Without the rule for
callees the parser accepts exactly the tokens that the prospect of a program takes up to the end of
the input (`Program.ofTokensBy_any_iff`), and what a prospect has taken can be completed
(`Program.exists_continuation`). So an error about an unexpected token is about the first token that
cannot be right (`Program.unexpected_at_first_impossible_token`).
-/
namespace ImpStack

/-! ### Floats of a text have a value -/

/-- A float that is read from a text has a value. -/
theorem LongestTokens.not_unreadable {keywordWins : List Char → Prop} {before rest : List Char}
    {tokens : List Token} (read : LongestTokens keywordWins before rest tokens) :
    ∀ token ∈ tokens, ¬ token.Unreadable := by
  induction read with
  | finish before => simp [Token.Unreadable, Token.eofAt]
  | skip _ _ _ ih => exact ih
  | @token before part rest pattern kind tokens declares longest _ ih =>
    refine List.forall_mem_cons.mpr ⟨?_, ih⟩
    rintro ⟨rfl, absent⟩
    obtain rfl : pattern = .float := by
      cases pattern with
      | float => rfl
      | _ => cases declares
    obtain ⟨decimal, written⟩ := Pattern.exists_writtenAs longest.is_match
    simp only [String.toList_ofList, written.ofNumeral?_eq] at absent
    cases absent
  | invalid _ _ ih => exact List.forall_mem_cons.mpr ⟨by simp [Token.Unreadable], ih⟩

/-! ### Tokens up to the end of the input -/

namespace Tokens

variable {tokens before after : Tokens} {passed : List Token}

/-- The tokens ahead and the end of the input. -/
def toEnd (tokens : Tokens) : List Token := tokens.ahead ++ [.eofAt tokens.finish]

theorem toEnd_eq_cons (tokens : Tokens) : ∃ later, tokens.toEnd = tokens.current :: later := by
  unfold toEnd current
  cases tokens.ahead with
  | nil => exact ⟨[], rfl⟩
  | cons token rest => exact ⟨rest ++ [.eofAt tokens.finish], rfl⟩

theorem Passes.toEnd_eq (passes : before.Passes passed after) :
    before.toEnd = passed ++ after.toEnd := by
  simp [toEnd, passes.ahead_eq, passes.finish_eq]

/-- Of a list that ends in an end of the input, nothing is behind that end. -/
theorem toEnd_ofList {body : List Token} {finish : Position}
    (inside : ∀ token ∈ body, token.kind ≠ .eof) :
    (ofList (body ++ [.eofAt finish])).toEnd = body ++ [.eofAt finish] := by
  rw [toEnd, ahead_ofList inside rfl, finish_ofList inside rfl]
  rfl

theorem current_ofList (tokens : Tokens) (following : List Token) :
    (ofList (tokens.current :: following)).current = tokens.current := by
  unfold current
  cases ahead : tokens.ahead with
  | nil => rfl
  | cons token rest =>
    have real : token.isEof = false := by
      have inside := tokens.not_eof token (by simp [ahead])
      simp [Token.isEof, inside]
    simp [ofList, real]

end Tokens

namespace Parser

variable {α : Type} {rule : CalleeRule} {least : Nat} {prospect : Prospect} {post : α → Prospect}
  {parser : Parser α} {before after : Tokens} {value : α}

/-! ### The parser and the prospect of a program -/

/-- A parser that succeeds has consumed at least as many tokens as it promises. -/
theorem Meets.shorter (meets : Meets rule least prospect post parser before)
    (yields : Yields parser before value after) :
    least + after.ahead.length ≤ before.ahead.length := by
  obtain ⟨passed, passes, enough, -⟩ := meets.agrees yields
  rw [passes.length_eq]
  omega

/-- The functions of a program go on up to the end of the input. -/
theorem functionsIn_ends (turns : Nat) {functions : List Function} {before : Tokens}
    (enough : before.ahead.length + 1 ≤ turns)
    (yields : Yields (By.functionsIn rule turns) before functions after) :
    after.current.kind = .eof := by
  induction turns generalizing before functions with
  | zero => exact absurd enough (by simp)
  | succ turns ih =>
    rw [By.functionsIn, yields_peek_bind_iff] at yields
    split at yields
    · next ended =>
      obtain ⟨rfl, rfl⟩ := yields_pure_iff.mp yields
      exact ended
    · split at yields
      · next kind =>
        obtain ⟨first, middle, firstYields, yields⟩ := yields_bind_iff.mp yields
        obtain ⟨others, last, restYields, yields⟩ := yields_bind_iff.mp yields
        obtain ⟨rfl, rfl⟩ := yields_pure_iff.mp yields
        have shorter := (function_meets kind).shorter firstYields
        exact ih (by omega) restYields
      · exact absurd yields not_yields_unexpected

end Parser

/-- Without the rule for callees, a prospect that takes all tokens leaves no room for an error. -/
theorem Refuses.run_eq_none {prospect : Prospect} {passed : List Token} {next : Token}
    {error : SyntaxError} (refuses : Refuses .any prospect passed next error) :
    prospect.run (passed ++ [next]) = none := by
  rw [Prospect.run_append]
  cases refuses with
  | unexpected expected runs refused =>
    rw [runs, Option.bind_some, Prospect.run_cons, refused]
    rfl
  | consumed refused other =>
    rw [refused]
    rfl
  | callee position required => cases required

namespace Program

variable {rule : CalleeRule} {tokens passed following : List Token} {program : Program}

/-- What the parser accepts, with or without the rule for callees, the prospect of a program
takes. -/
theorem run_of_ofTokensBy (ok : ofTokensBy rule tokens = .ok program) :
    (Prospect.start.run (Tokens.ofList tokens).toEnd).isSome := by
  obtain ⟨after, yields⟩ : ∃ after,
      Parser.Yields (Parser.By.program rule) (.ofList tokens) program after :=
    ⟨_, Prod.ext ok rfl⟩
  obtain ⟨functions, last, functionsYields, rest⟩ :=
    Parser.yields_bind_iff.mp (Parser.yields_get_bind_iff.mp yields)
  obtain ⟨-, rfl⟩ := Parser.yields_pure_iff.mp rest
  have ended := Parser.functionsIn_ends _ (Nat.le_refl _) functionsYields
  obtain ⟨passed, passes, -, reached, runs, leaves⟩ := Parser.program_meets.agrees yields
  have taken : Prospect.start.step after.current = some .start := by
    simp [Prospect.step, Prospect.start, Prospect.stepAlong, ended]
  have onlyEnd : after.toEnd = [after.current] := by
    simp [Tokens.toEnd, Tokens.current, Tokens.current_eof_iff.mp ended]
  rw [passes.toEnd_eq, onlyEnd, Prospect.run_append, runs, Option.bind_some, Prospect.run_cons,
    leaves, taken]
  rfl

/-- Without the rule for callees the parser accepts what the prospect of a program takes, and
nothing else. -/
theorem ofTokensBy_any_iff :
    (∃ program, ofTokensBy .any tokens = .ok program) ↔
      (Prospect.start.run (Tokens.ofList tokens).toEnd).isSome := by
  constructor
  · rintro ⟨program, ok⟩
    exact run_of_ofTokensBy ok
  · intro taken
    unfold ofTokensBy
    cases ran : (Parser.By.program .any).runOn (.ofList tokens) with
    | mk result after =>
      cases result with
      | ok program => exact ⟨program, rfl⟩
      | error error =>
        obtain ⟨passed, passes, refuses⟩ := Parser.program_meets.agrees ran
        obtain ⟨later, ahead⟩ := after.toEnd_eq_cons
        rw [passes.toEnd_eq, ahead, List.append_cons, Prospect.run_append, refuses.run_eq_none]
          at taken
        cases taken

/-- Behind tokens that the prospect of a program takes, no token that it then refuses stands in a
program. -/
theorem ofTokensBy_ne_ok {reached : Prospect} {after : Tokens}
    (inside : ∀ token ∈ passed, token.kind ≠ .eof)
    (runs : Prospect.start.run passed = some reached)
    (refused : reached.step after.current = none) :
    ofTokensBy rule (passed ++ after.current :: following) ≠ .ok program := by
  intro ok
  have taken := run_of_ofTokensBy ok
  have passes := Tokens.passes_ofList inside after.current following
  obtain ⟨later, ahead⟩ := (Tokens.ofList (after.current :: following)).toEnd_eq_cons
  rw [passes.toEnd_eq, ahead, Tokens.current_ofList, Prospect.run_append, runs, Option.bind_some,
    Prospect.run_cons, refused] at taken
  cases taken

/-- What the prospect of a program has taken can be continued to a program. -/
theorem exists_continuation {reached : Prospect} (inside : ∀ token ∈ passed, token.kind ≠ .eof)
    (runs : Prospect.start.run passed = some reached) :
    ∃ continuation program, ofTokensBy .any (passed ++ continuation) = .ok program := by
  refine ⟨Goal.completion reached.goals, ofTokensBy_any_iff.mpr ?_⟩
  have orderly : Goal.Orderly reached.goals := .of_run runs trivial
  have real : ∀ token ∈ passed ++ reached.goals.flatMap Goal.shortest, token.kind ≠ .eof := by
    intro token member
    rcases List.mem_append.mp member with early | late
    · exact inside token early
    · obtain ⟨goal, -, among⟩ := List.mem_flatMap.mp late
      exact Goal.not_eof_of_mem_shortest among
  have eq : passed ++ Goal.completion reached.goals =
      passed ++ reached.goals.flatMap Goal.shortest ++ [.eofAt .start] := by
    rw [List.append_assoc]
    rfl
  rw [eq, Tokens.toEnd_ofList real, ← eq, Prospect.run_append, runs]
  exact Prospect.run_completion orderly reached.isName

/-- If reading a text fails because a token does not fit, or because the text ends, the error is
about the token that the parser stands before. The tokens in front of it can be continued to a
program in which anything may be called. Together with it they begin no program, neither one of the
language nor one in which anything may be called. -/
theorem unexpected_at_first_impossible_token (source : String) {error : SyntaxError}
    {after : Tokens}
    (fails : Parser.program.runOn (.ofList (Token.listOf source)) = (.error error, after))
    (unexpected : error.isUnexpected) :
    ∃ before later expected, Token.listOf source = before ++ after.current :: later ∧
      (Tokens.ofList (Token.listOf source)).Passes before after ∧
      error = .ofToken expected after.current ∧
      (∃ continuation program, ofTokensBy .any (before ++ continuation) = .ok program) ∧
      ∀ following program,
        ofTokens (before ++ after.current :: following) ≠ .ok program ∧
          ofTokensBy .any (before ++ after.current :: following) ≠ .ok program := by
  rw [← Parser.By.program_named] at fails
  obtain ⟨before, passes, refuses⟩ := Parser.program_meets.agrees fails
  have inside : ∀ token ∈ before, token.kind ≠ .eof := fun token => passes.not_eof
  obtain ⟨later, split⟩ : ∃ later, Token.listOf source = before ++ after.current :: later := by
    obtain ⟨body, finish, listed, real⟩ := Token.exists_listFrom_eq 0 .start source.toList
    obtain ⟨later, ahead⟩ := after.toEnd_eq_cons
    have listOf_eq : Token.listOf source = body ++ [.eofAt finish] := listed
    have whole := passes.toEnd_eq
    rw [listOf_eq, Tokens.toEnd_ofList real, ← listOf_eq, ahead] at whole
    exact ⟨later, whole⟩
  cases refuses with
  | unexpected expected runs refused =>
    refine ⟨before, later, expected, split, passes, rfl, exists_continuation inside runs, ?_⟩
    intro following program
    rw [← ofTokensBy_named]
    exact ⟨ofTokensBy_ne_ok inside runs refused, ofTokensBy_ne_ok inside runs refused⟩
  | consumed refused other =>
    obtain ⟨token, member, unreadable⟩ := other unexpected
    have listed : token ∈ Token.listOf source := split ▸ List.mem_append_left _ member
    exact absurd unreadable ((LongestTokens.listOf source).not_unreadable token listed)
  | callee position required => cases unexpected

/-- A call of a number, whose arguments are not closed. -/
def openCall : String := "function main() \x7b 1(2 ; \x7d"

theorem unexpected_at_first_impossible_token_openCall :
    Program.ofSource openCall =
        .error (.unexpectedToken .argsClose ⟨.symbol .semicolon, ";", ⟨1, 23⟩⟩) ∧
      ∃ before later,
        Token.listOf openCall = before ++ ⟨.symbol .semicolon, ";", ⟨1, 23⟩⟩ :: later ∧
        (∃ continuation program, ofTokensBy .any (before ++ continuation) = .ok program) ∧
        ∀ following program,
          ofTokens (before ++ ⟨.symbol .semicolon, ";", ⟨1, 23⟩⟩ :: following) ≠ .ok program ∧
            ofTokensBy .any (before ++ ⟨.symbol .semicolon, ";", ⟨1, 23⟩⟩ :: following) ≠
              .ok program := by
  let after : Tokens :=
    ⟨[⟨.symbol .semicolon, ";", ⟨1, 23⟩⟩, ⟨.symbol .rightBrace, "\x7d", ⟨1, 25⟩⟩], ⟨1, 26⟩,
      by decide⟩
  have listed : Token.listOf openCall =
      [⟨.keyword .function, "function", ⟨1, 1⟩⟩, ⟨.identifier, "main", ⟨1, 10⟩⟩,
        ⟨.symbol .leftParen, "(", ⟨1, 14⟩⟩, ⟨.symbol .rightParen, ")", ⟨1, 15⟩⟩,
        ⟨.symbol .leftBrace, "\x7b", ⟨1, 17⟩⟩, ⟨.intLiteral, "1", ⟨1, 19⟩⟩,
        ⟨.symbol .leftParen, "(", ⟨1, 20⟩⟩, ⟨.intLiteral, "2", ⟨1, 21⟩⟩,
        ⟨.symbol .semicolon, ";", ⟨1, 23⟩⟩, ⟨.symbol .rightBrace, "\x7d", ⟨1, 25⟩⟩,
        .eofAt ⟨1, 26⟩] := by
    decide +kernel
  have fails : Parser.program.runOn (.ofList (Token.listOf openCall)) =
      (.error (.unexpectedToken .argsClose ⟨.symbol .semicolon, ";", ⟨1, 23⟩⟩), after) := by
    rw [listed]
    rfl
  obtain ⟨before, later, expected, split, -, -, continues, stops⟩ :=
    unexpected_at_first_impossible_token openCall fails rfl
  exact ⟨congrArg Prod.fst fails, before, later, split, continues, stops⟩

end Program

end ImpStack

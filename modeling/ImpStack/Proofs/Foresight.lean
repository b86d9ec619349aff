import ImpStack.Proofs.CalleeRule
import ImpStack.Proofs.Prospects

/-!
What a parser does is decided by the prospect before it (`Parser.Meets`). A parser that succeeds has
consumed tokens that the prospect takes and leaves the prospect that its goals ask for. A parser
that fails has stopped at a token that the prospect refuses or has consumed such a token, unless the
rule for callees is what stops it (`Refuses`).

The rules of `Parser.Meets`, one for each primitive parser and one for parsers in a row, are what
the parsers of the language are put together with.
-/
namespace ImpStack

/-- The token is a float that has no value. -/
def Token.Unreadable (token : Token) : Prop :=
  token.kind = .floatLiteral ∧ Binary32.ofNumeral? token.lexeme.toList = none

/-- Whether the error says that a token stands where another one is expected. -/
def SyntaxError.isUnexpected : SyntaxError → Bool
  | unexpectedToken .. => true
  | unexpectedEnd .. => true
  | invalidToken .. => true
  | assignmentTarget _ => false
  | callTarget _ => false
  | integerRange .. => false

/-- Whether the expression is a lone name. -/
def Expr.isName : Expr → Bool
  | .var .. => true
  | _ => false

@[simp]
theorem Expr.isName_moveTo (e : Expr) (position : Position) :
    (e.moveTo position).isName = e.isName := by
  cases e <;> rfl

/-- How a failure shows in the prospect: the parser has consumed the tokens `passed` and stands
before `next`. -/
inductive Refuses (rule : CalleeRule) (prospect : Prospect) (passed : List Token) (next : Token) :
    SyntaxError → Prop where
  | unexpected (expected : Expectation) {reached : Prospect}
      (runs : prospect.run passed = some reached) (refused : reached.step next = none) :
      Refuses rule prospect passed next (.ofToken expected next)
  /-- A token that has been consumed does not fit by its value or its place. -/
  | consumed {error : SyntaxError} (refused : prospect.run passed = none)
      (other : error.isUnexpected → ∃ token ∈ passed, token.Unreadable) :
      Refuses rule prospect passed next error
  | callee (position : Position) (required : rule = .named) :
      Refuses rule prospect passed next (.callTarget position)

namespace Parser

variable {α β : Type} {rule : CalleeRule} {least more : Nat} {prospect other : Prospect}
  {post : α → Prospect} {before : Tokens}

/-- What a parser has done agrees with the prospect before it. Where it has succeeded, it has
consumed at least `least` tokens, and the prospect that it leaves is `post`. -/
def Agrees (rule : CalleeRule) (least : Nat) (prospect : Prospect) (post : α → Prospect)
    (before : Tokens) : Except SyntaxError α × Tokens → Prop
  | (.ok value, after) => ∃ passed, before.Passes passed after ∧ least ≤ passed.length ∧
      ∃ reached, prospect.run passed = some reached ∧
        reached.step after.current = (post value).step after.current
  | (.error error, after) => ∃ passed, before.Passes passed after ∧
      Refuses rule prospect passed after.current error

/-- The parser agrees with the prospect before it. -/
def Meets (rule : CalleeRule) (least : Nat) (prospect : Prospect) (post : α → Prospect)
    (parser : Parser α) (before : Tokens) : Prop :=
  Agrees rule least prospect post before (parser.runOn before)

/-- Prospects that do the same with the next token do the same with all that follow. -/
theorem run_congr {passed : List Token} {after : Tokens} (passes : before.Passes passed after)
    (same : prospect.step before.current = other.step before.current) (nonempty : passed ≠ []) :
    prospect.run passed = other.run passed := by
  cases passed with
  | nil => exact absurd rfl nonempty
  | cons token tokens =>
    rw [passes.current_eq] at same
    rw [Prospect.run_cons, Prospect.run_cons, same]

/-- Only what the prospect makes of the next token matters. -/
theorem Agrees.congr {outcome : Except SyntaxError α × Tokens}
    (same : prospect.step before.current = other.step before.current)
    (agrees : Agrees rule least other post before outcome) :
    Agrees rule least prospect post before outcome := by
  obtain ⟨result, after⟩ := outcome
  cases result with
  | ok value =>
    obtain ⟨passed, passes, enough, reached, runs, leaves⟩ := agrees
    refine ⟨passed, passes, enough, ?_⟩
    -- The prospects step alike on one token. If tokens were passed it was the first of them,
    -- otherwise it still stands there.
    by_cases empty : passed = []
    · subst empty
      cases runs
      rw [passes.eq_of_nil] at same
      exact ⟨prospect, rfl, same.trans leaves⟩
    · exact ⟨reached, (run_congr passes same empty).trans runs, leaves⟩
  | error error =>
    obtain ⟨passed, passes, refuses⟩ := agrees
    refine ⟨passed, passes, ?_⟩
    cases refuses with
    | unexpected expected runs refused =>
      by_cases empty : passed = []
      · subst empty
        cases runs
        rw [passes.eq_of_nil] at same
        exact .unexpected expected rfl (same.trans refused)
      · exact .unexpected expected ((run_congr passes same empty).trans runs) refused
    | consumed refused other =>
      have nonempty : passed ≠ [] := by
        rintro rfl
        cases refused
      exact .consumed ((run_congr passes same nonempty).trans refused) other
    | callee position required => exact .callee position required

/-- Tokens that the prospect takes, in front. -/
theorem Agrees.prepend {outcome : Except SyntaxError α × Tokens} {first : List Token}
    {middle : Tokens} (passes : before.Passes first middle)
    (runs : prospect.run first = some other)
    (agrees : Agrees rule least other post middle outcome) :
    Agrees rule (first.length + least) prospect post before outcome := by
  have run_eq : ∀ later, prospect.run (first ++ later) = other.run later := by
    intro later
    rw [Prospect.run_append, runs]
    rfl
  obtain ⟨result, after⟩ := outcome
  cases result with
  | ok value =>
    obtain ⟨passed, passes', enough, reached, runs', leaves⟩ := agrees
    refine ⟨first ++ passed, passes.trans passes', ?_, reached, (run_eq passed).trans runs', leaves⟩
    rw [List.length_append]
    omega
  | error error =>
    obtain ⟨passed, passes', refuses⟩ := agrees
    refine ⟨first ++ passed, passes.trans passes', ?_⟩
    cases refuses with
    | unexpected expected runs' refused =>
      exact .unexpected expected ((run_eq passed).trans runs') refused
    | consumed refused other =>
      refine .consumed ((run_eq passed).trans refused) fun unexpected => ?_
      obtain ⟨token, member, unreadable⟩ := other unexpected
      exact ⟨token, List.mem_append_right first member, unreadable⟩
    | callee position required => exact .callee position required

/-- What has consumed many tokens has consumed at least a few. -/
theorem Agrees.mono {outcome : Except SyntaxError α × Tokens} (le : least ≤ more)
    (agrees : Agrees rule more prospect post before outcome) :
    Agrees rule least prospect post before outcome := by
  obtain ⟨result, after⟩ := outcome
  cases result with
  | ok value =>
    obtain ⟨passed, passes, enough, leaves⟩ := agrees
    exact ⟨passed, passes, Nat.le_trans le enough, leaves⟩
  | error error => exact agrees

namespace Meets

variable {last : β → Prospect} {parser : Parser α} {next : α → Parser β}

theorem agrees {outcome : Except SyntaxError α × Tokens}
    (meets : Meets rule least prospect post parser before)
    (ran : parser.runOn before = outcome) : Agrees rule least prospect post before outcome :=
  ran ▸ meets

theorem congr (same : prospect.step before.current = other.step before.current)
    (meets : Meets rule least other post parser before) :
    Meets rule least prospect post parser before :=
  Agrees.congr same meets

/-- A parser that consumes nothing leaves the prospect as it was, up to its next move. -/
theorem pure {value : α}
    (same : prospect.step before.current = (post value).step before.current) :
    Meets rule 0 prospect post (Pure.pure value) before :=
  ⟨[], .refl before, Nat.le_refl 0, prospect, rfl, same⟩

/-- A parser that finds another token than it looks for stops at a refused one. -/
theorem unexpected {expected : Expectation} (refused : prospect.step before.current = none) :
    Meets rule least prospect post (Parser.unexpected expected) before :=
  ⟨[], .refl before, .unexpected expected rfl refused⟩

theorem callee {position : Position} (required : rule = .named) :
    Meets rule least prospect post (throw (.callTarget position)) before :=
  ⟨[], .refl before, .callee position required⟩

/-- The second parser finds the prospect that the first one leaves, and fewer tokens. -/
theorem bind (first : Meets rule more prospect post parser before)
    (rest : ∀ value after, more + after.ahead.length ≤ before.ahead.length →
      Meets rule (least - more) (post value) last (next value) after) :
    Meets rule least prospect last (parser >>= next) before := by
  unfold Meets at first ⊢
  rw [runOn_bind]
  cases ran : parser.runOn before with
  | mk result middle =>
    rw [ran] at first
    cases result with
    | error error => exact first
    | ok value =>
      obtain ⟨passed, passes, enough, reached, runs, leaves⟩ := first
      have shorter : more + middle.ahead.length ≤ before.ahead.length := by
        rw [passes.length_eq]
        omega
      have agrees := Agrees.congr leaves (rest value middle shorter)
      exact (agrees.prepend passes runs).mono (by omega)

theorem get {next : Tokens → Parser β}
    (rest : Meets rule least prospect last (next before) before) :
    Meets rule least prospect last (MonadState.get >>= next) before :=
  rest

theorem peek {next : Token → Parser β}
    (rest : Meets rule least prospect last (next before.current) before) :
    Meets rule least prospect last (Parser.peek >>= next) before :=
  rest

/-- A token that the prospect takes is consumed. -/
theorem advance {next : Token → Parser β} {kind : Kind} (same : before.current.kind = kind)
    (real : kind ≠ .eof) (taken : prospect.step before.current = some other)
    (rest : before.advance.ahead.length < before.ahead.length →
      Meets rule (least - 1) other last (next before.current) before.advance) :
    Meets rule least prospect last (Parser.advance >>= next) before := by
  have passes := Tokens.passes_current same real
  have runs : prospect.run [before.current] = some other := by
    rw [Prospect.run_cons, taken]
    rfl
  have agrees := Agrees.prepend passes runs (rest (passes.length_lt (by simp)))
  rw [List.length_singleton] at agrees
  exact agrees.mono (by omega)

/-- A token that the prospect refuses is consumed before the error. -/
theorem refuse {next : Token → Parser β} {kind : Kind} {error : SyntaxError}
    (same : before.current.kind = kind) (real : kind ≠ .eof)
    (refused : prospect.step before.current = none) (fails : next before.current = throw error)
    (unreadable : error.isUnexpected → before.current.Unreadable) :
    Meets rule least prospect last (Parser.advance >>= next) before := by
  have runs : prospect.run [before.current] = none := by
    rw [Prospect.run_cons, refused]
    rfl
  have ran : (Parser.advance >>= next).runOn before = (.error error, before.advance) := by
    show (next before.current).runOn before.advance = _
    rw [fails]
    rfl
  unfold Meets
  rw [ran]
  refine ⟨[before.current], Tokens.passes_current same real, .consumed runs ?_⟩
  intro unexpected
  exact ⟨_, List.mem_singleton_self _, unreadable unexpected⟩

/-- A token of the expected kind is taken, any other is refused. -/
theorem expect {next : Token → Parser β} {kind : Kind} {expected : Expectation} (real : kind ≠ .eof)
    (taken : before.current.kind = kind → prospect.step before.current = some other)
    (refused : before.current.kind ≠ kind → prospect.step before.current = none)
    (rest : before.advance.ahead.length < before.ahead.length →
      Meets rule (least - 1) other last (next before.current) before.advance) :
    Meets rule least prospect last (Parser.expect kind expected >>= next) before := by
  have run_eq := runOn_expect kind expected before
  by_cases same : before.current.kind = kind
  · have advanced := Meets.advance same real (taken same) rest
    unfold Meets at advanced ⊢
    rw [runOn_bind] at advanced ⊢
    rw [run_eq, if_pos same]
    exact advanced
  · unfold Meets
    rw [runOn_bind, run_eq, if_neg same]
    exact ⟨[], .refl before, .unexpected expected rfl (refused same)⟩

variable {isName : Bool} {rest : List Goal}

/-- The goal of a sign, and then the goals below. -/
theorem sign {next : Token → Parser β} {sign : Symbol} {expected : Expectation}
    (behind : before.advance.ahead.length < before.ahead.length →
      Meets rule (least - 1) ⟨false, rest⟩ last (next before.current) before.advance) :
    Meets rule least ⟨isName, .sign sign :: rest⟩ last
      (Parser.expect (.symbol sign) expected >>= next) before :=
  .expect (by simp) (fun same => Prospect.step_take (if_pos same))
    (fun differs => Prospect.step_refuse (if_neg differs)) behind

/-- The goal of a name, and then the goals below. -/
theorem name {next : Token → Parser β} {expected : Expectation}
    (behind : before.advance.ahead.length < before.ahead.length →
      Meets rule (least - 1) ⟨false, rest⟩ last (next before.current) before.advance) :
    Meets rule least ⟨isName, .name :: rest⟩ last (Parser.expect .identifier expected >>= next)
      before :=
  .expect (by simp) (fun same => Prospect.step_take (if_pos same))
    (fun differs => Prospect.step_refuse (if_neg differs)) behind

/-- The parenthesis behind an expression keeps a name a name. -/
theorem groupClose {next : Token → Parser β} {expected : Expectation}
    (behind : before.advance.ahead.length < before.ahead.length →
      Meets rule (least - 1) ⟨isName, rest⟩ last (next before.current) before.advance) :
    Meets rule least ⟨isName, .groupClose :: rest⟩ last
      (Parser.expect (.symbol .rightParen) expected >>= next) before :=
  .expect (by simp) (fun same => Prospect.step_take (if_pos same))
    (fun differs => Prospect.step_refuse (if_neg differs)) behind

/-- Whether a sign comes next decides between two ways on. -/
theorem accept {next : Bool → Parser β} {sign : Symbol} {left : Prospect}
    (taken : before.current.kind = .symbol sign → prospect.step before.current = some other)
    (passed : before.current.kind ≠ .symbol sign →
      prospect.step before.current = left.step before.current)
    (accepted : before.advance.ahead.length < before.ahead.length →
      Meets rule (least - 1) other last (next true) before.advance)
    (refused : Meets rule least left last (next false) before) :
    Meets rule least prospect last (Parser.accept sign >>= next) before := by
  have run_eq := runOn_accept sign before
  by_cases same : before.current.kind = .symbol sign
  · have advanced : Meets rule least prospect last (Parser.advance >>= fun _ => next true) before :=
      .advance same (by simp) (taken same) accepted
    unfold Meets at advanced ⊢
    rw [runOn_bind] at advanced ⊢
    rw [run_eq, if_pos same]
    exact advanced
  · have ahead := Agrees.congr (passed same) refused
    unfold Meets
    rw [runOn_bind, run_eq, if_neg same]
    exact ahead

end Meets

end Parser

end ImpStack

import ImpStack.Syntax.Parser

/-!
What a parser that succeeds has done: its result, the tokens that it has passed and the tokens that
it leaves (`Parser.Yields`, `Tokens.Passes`). One rule for every primitive parser and for every way
to put parsers together.
-/
namespace ImpStack

namespace Tokens

variable {before middle after other : Tokens} {phrase first second : List Token} {token : Token}

theorem ext (ahead_eq : before.ahead = after.ahead) (finish_eq : before.finish = after.finish) :
    before = after := by
  cases before
  cases after
  cases ahead_eq
  cases finish_eq
  rfl

/-- Between `before` and `after` exactly the tokens of the phrase have been consumed. -/
structure Passes (before : Tokens) (phrase : List Token) (after : Tokens) : Prop where
  ahead_eq : before.ahead = phrase ++ after.ahead
  finish_eq : before.finish = after.finish

namespace Passes

theorem refl (tokens : Tokens) : tokens.Passes [] tokens := ⟨rfl, rfl⟩

theorem eq_of_nil (passes : before.Passes [] after) : before = after :=
  ext passes.ahead_eq passes.finish_eq

theorem trans (left : before.Passes first middle) (right : middle.Passes second after) :
    before.Passes (first ++ second) after where
  ahead_eq := by rw [left.ahead_eq, right.ahead_eq, List.append_assoc]
  finish_eq := left.finish_eq.trans right.finish_eq

theorem congr (passes : before.Passes first after) (same : first = second) :
    before.Passes second after := same ▸ passes

/-- What is passed in a row is passed one part after the other. -/
theorem split (passes : before.Passes (first ++ second) after) :
    ∃ middle, before.Passes first middle ∧ middle.Passes second after := by
  have real : ∀ token ∈ second ++ after.ahead, token.kind ≠ .eof := by
    intro token member
    apply before.not_eof
    rw [passes.ahead_eq, List.append_assoc]
    exact List.mem_append_right _ member
  refine ⟨⟨second ++ after.ahead, after.finish, real⟩, ⟨?_, passes.finish_eq⟩, rfl, rfl⟩
  rw [passes.ahead_eq, List.append_assoc]

theorem splitFirst (passes : before.Passes (token :: second) after) :
    ∃ middle, before.Passes [token] middle ∧ middle.Passes second after := by
  rw [← List.singleton_append] at passes
  exact passes.split

theorem unique (left : before.Passes phrase after) (right : before.Passes phrase other) :
    after = other := by
  apply ext
  · exact List.append_cancel_left (left.ahead_eq.symm.trans right.ahead_eq)
  · exact left.finish_eq.symm.trans right.finish_eq

theorem length_eq (passes : before.Passes phrase after) :
    before.ahead.length = phrase.length + after.ahead.length := by
  rw [passes.ahead_eq, List.length_append]

theorem length_lt (passes : before.Passes phrase after) (nonempty : phrase ≠ []) :
    after.ahead.length < before.ahead.length := by
  have positive := List.length_pos_iff.mpr nonempty
  rw [passes.length_eq]
  omega

/-- The first token passed is the current one. -/
theorem current_eq (passes : before.Passes (token :: phrase) after) : before.current = token := by
  simp [current, passes.ahead_eq]

theorem advance_eq (passes : before.Passes [token] after) : before.advance = after := by
  apply ext
  · simp [advance, passes.ahead_eq]
  · exact passes.finish_eq

/-- The end of the input is never passed. -/
theorem not_eof (passes : before.Passes phrase after) (member : token ∈ phrase) :
    token.kind ≠ .eof := by
  apply before.not_eof
  rw [passes.ahead_eq]
  exact List.mem_append_left _ member

end Passes

/-- Unless it is the end of the input, the current token can be passed. -/
theorem passes_current {kind : Kind} (same : before.current.kind = kind) (real : kind ≠ .eof) :
    before.Passes [before.current] before.advance := by
  cases ahead : before.ahead with
  | nil =>
    rw [← same] at real
    exact absurd (by simp [current, ahead, Token.eofAt]) real
  | cons token rest => exact ⟨by simp [current, advance, ahead], rfl⟩

/-- Tokens that are no end of the input can be passed. -/
theorem passes_ofList (inside : ∀ token ∈ phrase, token.kind ≠ .eof) (token : Token)
    (following : List Token) :
    (ofList (phrase ++ token :: following)).Passes phrase (ofList (token :: following)) where
  ahead_eq := by
    have taken : ∀ token ∈ phrase, (!token.isEof) = true := by
      intro token member
      simp [Token.isEof, inside token member]
    exact List.takeWhile_append_of_pos taken
  finish_eq := by
    have missed : phrase.find? Token.isEof = none := by
      rw [List.find?_eq_none]
      intro token member
      simp [Token.isEof, inside token member]
    simp only [ofList, List.find?_append, missed, Option.none_or, List.getLast?_append,
      List.getLast?_cons, Option.some_or]

end Tokens

namespace Parser

variable {α β : Type} {before middle after : Tokens}

/-! ### Runs of the primitive parsers -/

/-- Where the first parser fails, the second one does not run. -/
theorem runOn_bind (parser : Parser α) (next : α → Parser β) (before : Tokens) :
    runOn (parser >>= next) before =
      match parser.runOn before with
      | (.ok first, middle) => (next first).runOn middle
      | (.error error, middle) => (.error error, middle) := by
  show Id.run (ExceptT.bindCont next (parser.runOn before).1 (parser.runOn before).2) = _
  cases parser.runOn before with
  | mk result middle => cases result <;> rfl

theorem runOn_peek_bind (next : Token → Parser β) (before : Tokens) :
    (peek >>= next).runOn before = (next before.current).runOn before := rfl

/-- A token of the kind is consumed, any other is an error that consumes nothing. -/
theorem runOn_expect (kind : Kind) (expected : Expectation) (before : Tokens) :
    (expect kind expected).runOn before = if before.current.kind = kind then
      (.ok before.current, before.advance) else
      (.error (.ofToken expected before.current), before) := by
  show Id.run (StateT.run (ExceptT.run (if before.current.kind = kind then advance
    else unexpected expected)) before) = _
  split <;> rfl

theorem runOn_accept (sign : Symbol) (before : Tokens) :
    (accept sign).runOn before = if before.current.kind = .symbol sign then
      (.ok true, before.advance) else (.ok false, before) := by
  show Id.run (StateT.run (ExceptT.run (if before.current.kind = .symbol sign then _
    else _)) before) = _
  split <;> rfl

/-! ### Parsers that succeed -/

/-- The parser succeeds with the result and leaves the tokens `after`. -/
def Yields (parser : Parser α) (before : Tokens) (result : α) (after : Tokens) : Prop :=
  parser.runOn before = (.ok result, after)

theorem yields_pure_iff {value result : α} :
    Yields (pure value) before result after ↔ result = value ∧ after = before := by
  constructor
  · intro yields
    cases yields
    exact ⟨rfl, rfl⟩
  · rintro ⟨rfl, rfl⟩
    rfl

/-- Two parsers succeed in a row if there is something between them. -/
theorem yields_bind_iff {parser : Parser α} {next : α → Parser β} {result : β} :
    Yields (parser >>= next) before result after ↔
      ∃ first middle, Yields parser before first middle ∧
        Yields (next first) middle result after := by
  unfold Yields
  rw [runOn_bind]
  cases parser.runOn before with
  | mk outcome middle =>
    cases outcome with
    | error error => simp
    | ok first =>
      constructor
      · intro rest
        exact ⟨first, middle, rfl, rest⟩
      · rintro ⟨_, _, same, rest⟩
        cases same
        exact rest

theorem not_yields_throw {error : SyntaxError} {result : α} :
    ¬ Yields (throw error) before result after := by
  intro yields
  cases yields

theorem not_yields_unexpected {expected : Expectation} {result : α} :
    ¬ Yields (unexpected expected) before result after := by
  intro yields
  cases yields

/-- What comes behind a first parser that succeeds. -/
theorem yields_bind_of_runOn {parser : Parser α} {next : α → Parser β} {first : α} {result : β}
    (ran : parser.runOn before = (.ok first, middle)) :
    Yields (parser >>= next) before result after ↔ Yields (next first) middle result after := by
  rw [yields_bind_iff]
  constructor
  · rintro ⟨_, _, yields, rest⟩
    cases ran.symm.trans yields
    exact rest
  · intro rest
    exact ⟨first, middle, ran, rest⟩

@[simp]
theorem yields_get_bind_iff {next : Tokens → Parser β} {result : β} :
    Yields (get >>= next) before result after ↔ Yields (next before) before result after :=
  yields_bind_of_runOn rfl

@[simp]
theorem yields_peek_bind_iff {next : Token → Parser β} {result : β} :
    Yields (peek >>= next) before result after ↔
      Yields (next before.current) before result after :=
  yields_bind_of_runOn rfl

@[simp]
theorem yields_advance_bind_iff {next : Token → Parser β} {result : β} :
    Yields (advance >>= next) before result after ↔
      Yields (next before.current) before.advance result after :=
  yields_bind_of_runOn rfl

/-- A parser behind a token of the kind. -/
@[simp]
theorem yields_expect_bind_iff {kind : Kind} {expected : Expectation} {next : Token → Parser β}
    {result : β} :
    Yields (expect kind expected >>= next) before result after ↔
      before.current.kind = kind ∧ Yields (next before.current) before.advance result after := by
  have run_eq := runOn_expect kind expected before
  by_cases same : before.current.kind = kind
  · rw [if_pos same] at run_eq
    rw [yields_bind_of_runOn run_eq]
    exact (and_iff_right same).symm
  · rw [if_neg same] at run_eq
    refine iff_of_false ?_ fun both => same both.1
    rw [yields_bind_iff]
    rintro ⟨_, _, yields, _⟩
    cases run_eq.symm.trans yields

/-- A parser behind a sign that may be missing. -/
theorem yields_accept_bind_iff {sign : Symbol} {next : Bool → Parser β} {result : β} :
    Yields (accept sign >>= next) before result after ↔
      if before.current.kind = .symbol sign then Yields (next true) before.advance result after
      else Yields (next false) before result after := by
  have run_eq := runOn_accept sign before
  by_cases same : before.current.kind = .symbol sign
  · rw [if_pos same] at run_eq ⊢
    exact yields_bind_of_runOn run_eq
  · rw [if_neg same] at run_eq ⊢
    exact yields_bind_of_runOn run_eq

end Parser

end ImpStack

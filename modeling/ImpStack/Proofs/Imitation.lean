import ImpStack.Proofs.CursorBound
import ImpStack.Syntax.Descent

/-!
When a parser with an index does what a parser on the remaining tokens does (`Descent.Imitates`).
One rule for every primitive parser and for every way to put parsers together; what the two must
agree on is the answer and the number of tokens that are consumed.

The two loops of the parser with an index stop a turn that consumes nothing. Their rules
(`Imitates.commaSeparated`, `Imitates.whileDo`) show that this never happens, by induction on the
turns that are left.
-/
namespace ImpStack

/-- The token is `seen`, or both are ends of the input at the same place. -/
structure Token.Resembles (token seen : Token) : Prop where
  kind_eq : token.kind = seen.kind
  position_eq : token.position = seen.position
  eq_of_ne : seen.kind ≠ .eof → token = seen

/-- An error at an end of the input has the place of the end alone. -/
theorem SyntaxError.ofToken_congr {token seen : Token} (alike : token.Resembles seen)
    (expected : Expectation) : ofToken expected token = ofToken expected seen := by
  by_cases ended : seen.kind = .eof
  · simp [ofToken, alike.kind_eq, ended, alike.position_eq]
  · rw [alike.eq_of_ne ended]

namespace Tape

variable {tape : Tape} {before after : Tokens} {passed : List Token}

/-- The tokens in front of the next end of the input are those of `tokens`. -/
structure Shows (tape : Tape) (tokens : Tokens) : Prop where
  ends : ∃ finish following, finish.kind = .eof ∧ finish.position = tokens.finish ∧
    tape.tokens.drop tape.index = tokens.ahead ++ finish :: following

theorem forward_forward (tape : Tape) (first second : Nat) :
    (tape.forward first).forward second = tape.forward (first + second) := by
  simp [forward, Nat.add_assoc]

namespace Shows

theorem forward (shows : tape.Shows before) (passes : before.Passes passed after) :
    (tape.forward passed.length).Shows after := by
  obtain ⟨finish, following, ended, place, stands⟩ := shows.ends
  refine ⟨finish, following, ended, place.trans passes.finish_eq, ?_⟩
  show tape.tokens.drop (tape.index + passed.length) = _
  rw [← List.drop_drop, stands, passes.ahead_eq, List.append_assoc, List.drop_left]

/-- The tokens that are left, and the end of the input. -/
theorem left_eq (shows : tape.Shows before) : tape.left = before.ahead.length + 1 := by
  obtain ⟨finish, following, ended, -, stands⟩ := shows.ends
  have real : ∀ token ∈ before.ahead, (!token.isEof) = true := by
    intro token member
    simp [Token.isEof, before.not_eof token member]
  rw [left, stands, List.takeWhile_append_of_pos real, List.takeWhile_cons_of_neg]
  · simp
  · simp [Token.isEof, ended]

theorem current (shows : tape.Shows before) :
    ∃ token, tape.tokens[tape.index]? = some token ∧ token.Resembles before.current := by
  obtain ⟨finish, following, ended, place, stands⟩ := shows.ends
  have here : tape.tokens[tape.index]? = (before.ahead ++ finish :: following)[0]? := by
    rw [← stands, List.getElem?_drop, Nat.add_zero]
  rw [here]
  cases ahead : before.ahead with
  | nil =>
    refine ⟨finish, rfl, ?_⟩
    simp only [Tokens.current, ahead, List.headD_nil]
    exact ⟨ended, place, fun real => absurd rfl real⟩
  | cons token rest =>
    refine ⟨token, rfl, ?_⟩
    simp only [Tokens.current, ahead, List.headD_cons]
    exact ⟨rfl, rfl, fun _ => rfl⟩

end Shows

end Tape

namespace Descent

variable {α β : Type} {least more : Nat} {before : Tokens} {tape : Tape}

/-! ### Runs of the primitive parsers -/

/-- Where the first part stops, nothing else runs. -/
theorem runOn_bind (descent : Descent α) (next : α → Descent β) (tape : Tape) :
    runOn (descent >>= next) tape =
      match descent.runOn tape with
      | (.ok value, reached) => (next value).runOn reached
      | (.error stop, reached) => (.error stop, reached) := by
  show Id.run (ExceptT.bindCont next (descent.runOn tape).1 (descent.runOn tape).2) = _
  cases descent.runOn tape with
  | mk answer reached => cases answer <;> rfl

theorem runOn_bind_ok {descent : Descent α} {value : α} {reached : Tape} (next : α → Descent β)
    (ran : descent.runOn tape = (.ok value, reached)) :
    (descent >>= next).runOn tape = (next value).runOn reached := by
  rw [runOn_bind, ran]

theorem runOn_get (tape : Tape) : (get : Descent Tape).runOn tape = (.ok tape, tape) := rfl

theorem runOn_tokenAt {index : Nat} {token : Token} (here : tape.tokens[index]? = some token) :
    (tokenAt index).runOn tape = (.ok token, tape) := by
  rw [tokenAt, runOn_bind_ok _ (runOn_get _), here]
  rfl

/-- A tape that shows tokens has a current one, so that the index is inside of its list. -/
theorem runOn_peek (shows : tape.Shows before) :
    ∃ token, token.Resembles before.current ∧ peek.runOn tape = (.ok token, tape) := by
  obtain ⟨token, here, alike⟩ := shows.current
  refine ⟨token, alike, ?_⟩
  rw [peek, runOn_bind_ok _ (runOn_get _)]
  exact runOn_tokenAt here

theorem runOn_check (shows : tape.Shows before) (kind : Kind) :
    (check kind).runOn tape = (.ok (decide (before.current.kind = kind)), tape) := by
  obtain ⟨token, alike, ran⟩ := runOn_peek shows
  rw [check, runOn_bind_ok _ ran, alike.kind_eq]
  rfl

theorem runOn_unexpected (shows : tape.Shows before) (expected : Expectation) :
    (unexpected expected : Descent α).runOn tape =
      (.error (.misfit (.ofToken expected before.current)), tape) := by
  obtain ⟨token, alike, ran⟩ := runOn_peek shows
  rw [unexpected, runOn_bind_ok _ ran, SyntaxError.ofToken_congr alike]
  rfl

/-- A token that is no end of the input is consumed, and it is the one that is returned. -/
theorem runOn_advance (shows : tape.Shows before) (real : before.current.kind ≠ .eof) :
    advance.runOn tape = (.ok before.current, tape.forward 1) := by
  obtain ⟨token, here, alike⟩ := shows.current
  obtain rfl := alike.eq_of_ne real
  have written : (set (tape.forward 1) : Descent PUnit).runOn tape =
      (.ok PUnit.unit, tape.forward 1) := rfl
  rw [advance, atEnd, runOn_bind_ok _ (runOn_check shows .eof), if_neg (by simp [real]),
    runOn_bind_ok _ (runOn_get _), runOn_bind_ok _ written, previous, runOn_bind_ok _ (runOn_get _)]
  exact runOn_tokenAt here

/-! ### Parsers that do the same -/

/-- Wherever the tape shows these tokens, the two parsers give the same answer and consume the same
tokens; where they succeed, at least `least` of them. -/
def Imitates (least : Nat) (descent : Descent α) (parser : Parser α) (before : Tokens) : Prop :=
  ∀ tape : Tape, tape.Shows before →
    (descent.runOn tape).1 = (parser.runOn before).1.mapError .misfit ∧
    ∃ passed, before.Passes passed (parser.runOn before).2 ∧
      (descent.runOn tape).2 = tape.forward passed.length ∧
      ∀ value, (parser.runOn before).1 = .ok value → least ≤ passed.length

/-- Wherever these tokens are shown, the parser only looks and says `answer`. -/
def Tells (going : Descent Bool) (answer : Bool) (before : Tokens) : Prop :=
  ∀ tape : Tape, tape.Shows before → going.runOn tape = (.ok answer, tape)

namespace Imitates

variable {descent : Descent α} {parser : Parser α}

/-- Parsers that give the same answer and leave all tokens. -/
theorem of_answer {answer : Except SyntaxError α}
    (ran : ∀ tape : Tape, tape.Shows before →
      descent.runOn tape = (answer.mapError .misfit, tape))
    (same : parser.runOn before = (answer, before))
    (least_le : ∀ value, answer = .ok value → least ≤ 0) :
    Imitates least descent parser before := by
  intro tape shows
  rw [ran tape shows, same]
  exact ⟨rfl, [], .refl before, rfl, least_le⟩

theorem pure (value : α) : Imitates 0 (Pure.pure value) (Pure.pure value) before :=
  of_answer (fun _ _ => rfl) rfl fun _ _ => Nat.le_refl 0

theorem throw (error : SyntaxError) :
    Imitates least (MonadExcept.throw (.misfit error) : Descent α)
      (MonadExcept.throw error : Parser α) before := by
  refine of_answer (fun _ _ => rfl) rfl fun value ok => ?_
  cases ok

theorem unexpected (expected : Expectation) :
    Imitates least (Descent.unexpected expected : Descent α) (Parser.unexpected expected)
      before := by
  refine of_answer (fun tape shows => runOn_unexpected shows expected) rfl fun value ok => ?_
  cases ok

/-- The parser on the right may be another one that runs in the same way. -/
theorem congr_right {other : Parser α} (imitates : Imitates least descent other before)
    (same : parser.runOn before = other.runOn before) :
    Imitates least descent parser before := by
  intro tape shows
  rw [same]
  exact imitates tape shows

theorem mono {fewer : Nat} (imitates : Imitates least descent parser before) (le : fewer ≤ least) :
    Imitates fewer descent parser before := by
  intro tape shows
  obtain ⟨answer_eq, passed, passes, reached, enough⟩ := imitates tape shows
  exact ⟨answer_eq, passed, passes, reached, fun value ok => Nat.le_trans le (enough value ok)⟩

/-- Two parsers in a row. What each of them consumes adds up. -/
theorem bind {next : α → Descent β} {other : α → Parser β}
    (first : Imitates more descent parser before)
    (rest : ∀ value after, more + after.ahead.length ≤ before.ahead.length →
      Imitates (least - more) (next value) (other value) after) :
    Imitates least (descent >>= next) (parser >>= other) before := by
  intro tape shows
  obtain ⟨answer_eq, passed, passes, reached, enough⟩ := first tape shows
  rw [runOn_bind, Parser.runOn_bind]
  cases ran : parser.runOn before with
  | mk answer middle =>
    rw [ran] at answer_eq passes enough
    cases literal : descent.runOn tape with
    | mk literalAnswer literalTape =>
      rw [literal] at answer_eq reached
      obtain rfl : literalTape = tape.forward passed.length := reached
      obtain rfl : literalAnswer = answer.mapError .misfit := answer_eq
      cases answer with
      | error error =>
        refine ⟨rfl, passed, passes, rfl, fun value ok => ?_⟩
        cases ok
      | ok value =>
        have consumed : more ≤ passed.length := enough value rfl
        have lengths : before.ahead.length = passed.length + middle.ahead.length :=
          passes.length_eq
        have shorter : more + middle.ahead.length ≤ before.ahead.length := by omega
        obtain ⟨laterAnswer, later, laterPasses, laterReached, laterEnough⟩ :=
          rest value middle shorter _ (shows.forward passes)
        refine ⟨laterAnswer, passed ++ later, passes.trans laterPasses, ?_, fun result ok => ?_⟩
        · rw [List.length_append, ← Tape.forward_forward]
          exact laterReached
        · have := laterEnough result ok
          rw [List.length_append]
          omega

theorem map (convert : α → β) (imitates : Imitates least descent parser before) :
    Imitates least (convert <$> descent) (convert <$> parser) before := by
  rw [map_eq_pure_bind, map_eq_pure_bind]
  exact imitates.bind fun value _ _ => (Imitates.pure (convert value)).mono (by omega)

/-! ### Reading without consuming -/

/-- The parser on the left looks at the current token. -/
theorem peek_left {next : Token → Descent β} {parser : Parser β}
    (rest : ∀ token, token.Resembles before.current → Imitates least (next token) parser before) :
    Imitates least (Descent.peek >>= next) parser before := by
  intro tape shows
  obtain ⟨token, alike, ran⟩ := runOn_peek shows
  rw [runOn_bind_ok next ran]
  exact rest token alike tape shows

theorem peek_right {descent : Descent β} {other : Token → Parser β}
    (rest : Imitates least descent (other before.current) before) :
    Imitates least descent (Parser.peek >>= other) before :=
  rest.congr_right rfl

theorem get_right {descent : Descent β} {other : Tokens → Parser β}
    (rest : Imitates least descent (other before) before) :
    Imitates least descent (get >>= other) before :=
  rest.congr_right rfl

/-- Both parsers look at the current token. They see the same one unless the input ends. -/
theorem peek {next : Token → Descent β} {other : Token → Parser β}
    (rest : before.current.kind ≠ .eof →
      Imitates least (next before.current) (other before.current) before)
    (ended : before.current.kind = .eof → ∀ token, token.Resembles before.current →
      Imitates least (next token) (other before.current) before) :
    Imitates least (Descent.peek >>= next) (Parser.peek >>= other) before := by
  refine peek_right (peek_left fun token alike => ?_)
  by_cases ends : before.current.kind = .eof
  · exact ended ends token alike
  · rw [alike.eq_of_ne ends]
    exact rest ends

/-- A check on the left is a case distinction on the right. -/
theorem check {kind : Kind} {next : Bool → Descent β} {parser : Parser β}
    (holds : before.current.kind = kind → Imitates least (next true) parser before)
    (fails : before.current.kind ≠ kind → Imitates least (next false) parser before) :
    Imitates least (Descent.check kind >>= next) parser before := by
  intro tape shows
  rw [runOn_bind_ok next (runOn_check shows kind)]
  by_cases same : before.current.kind = kind
  · simp only [same, decide_true]
    exact holds same tape shows
  · simp only [same, decide_false]
    exact fails same tape shows

theorem left {next : Nat → Descent β} {parser : Parser β}
    (rest : Imitates least (next (before.ahead.length + 1)) parser before) :
    Imitates least (Descent.left >>= next) parser before := by
  intro tape shows
  have ran : Descent.left.runOn tape = (.ok tape.left, tape) := rfl
  rw [runOn_bind_ok next ran, shows.left_eq]
  exact rest tape shows

/-! ### Consuming -/

theorem advance {next : Token → Descent β} {other : Token → Parser β}
    (real : before.current.kind ≠ .eof)
    (rest : before.advance.ahead.length < before.ahead.length →
      Imitates (least - 1) (next before.current) (other before.current) before.advance) :
    Imitates least (Descent.advance >>= next) (Parser.advance >>= other) before := by
  intro tape shows
  have passes := Tokens.passes_current rfl real
  have ran : (Parser.advance >>= other).runOn before =
      (other before.current).runOn before.advance := rfl
  rw [runOn_bind_ok next (runOn_advance shows real), ran]
  obtain ⟨answer_eq, passed, laterPasses, reached, enough⟩ :=
    rest (passes.length_lt (by simp)) _ (shows.forward passes)
  refine ⟨answer_eq, _, passes.trans laterPasses, ?_, fun value ok => ?_⟩
  · rw [List.length_append, ← Tape.forward_forward]
    exact reached
  · have := enough value ok
    rw [List.length_append, List.length_singleton]
    omega

theorem advance_only (real : before.current.kind ≠ .eof) :
    Imitates 1 Descent.advance Parser.advance before := by
  rw [← bind_pure Descent.advance, ← bind_pure Parser.advance]
  exact advance real fun _ => .pure _

/-- Both parsers consume a token of the kind, or fail at any other. -/
theorem expect {kind : Kind} (real : kind ≠ .eof) (expected : Expectation) :
    Imitates 1 (Descent.expect kind expected) (Parser.expect kind expected) before := by
  refine peek_right (check (fun same => ?_) fun different => ?_)
  · rw [if_pos rfl, if_pos same]
    exact advance_only (same ▸ real)
  · rw [if_neg Bool.false_ne_true, if_neg different]
    exact unexpected expected

/-- Where the parser on the left accepts the current token, it goes on as if it had advanced. -/
theorem accept {kind : Kind} {next : Bool → Descent β} {parser : Parser β}
    (accepted : before.current.kind = kind →
      Imitates least (Descent.advance >>= fun _ => next true) parser before)
    (refused : before.current.kind ≠ kind → Imitates least (next false) parser before) :
    Imitates least (Descent.accept kind >>= next) parser before := by
  unfold Descent.accept
  rw [bind_assoc]
  refine check (fun same => ?_) fun different => ?_
  · rw [if_pos rfl, bind_assoc]
    exact accepted same
  · rw [if_neg Bool.false_ne_true, pure_bind]
    exact refused different

theorem accept_only (sign : Symbol) :
    Imitates 0 (Descent.accept (.symbol sign)) (Parser.accept sign) before := by
  refine peek_right (check (fun same => ?_) fun different => ?_)
  · rw [if_pos rfl, if_pos same]
    exact advance (by simp [same]) fun _ => .pure true
  · rw [if_neg Bool.false_ne_true, if_neg different]
    exact .pure false

/-! ### Loops -/

/-- A turn that consumes a token is no idle one. -/
theorem progress (imitates : Imitates 1 descent parser before) :
    Imitates 1 (Descent.progress descent) parser before := by
  intro tape shows
  obtain ⟨answer_eq, passed, passes, reached, enough⟩ := imitates tape shows
  rw [Descent.progress, runOn_bind_ok _ (runOn_get _)]
  cases ran : (parser.runOn before).1 with
  | error error =>
    rw [ran] at answer_eq
    have failed : descent.runOn tape = (.error (.misfit error), tape.forward passed.length) :=
      Prod.ext answer_eq reached
    rw [runOn_bind, failed]
    exact ⟨rfl, passed, passes, rfl, fun value ok => by cases ok⟩
  | ok value =>
    rw [ran] at answer_eq
    have ended : descent.runOn tape = (.ok value, tape.forward passed.length) :=
      Prod.ext answer_eq reached
    have consumed : 1 ≤ passed.length := enough value ran
    have ahead : tape.index < (tape.forward passed.length).index :=
      Nat.lt_add_of_pos_right consumed
    rw [runOn_bind_ok _ ended, runOn_bind_ok _ (runOn_get _), if_pos ahead]
    exact ⟨rfl, passed, passes, rfl, fun _ _ => consumed⟩

/-- Turns that consume tokens come to an end before there are more of them than tokens. `others`
does as much, with less fuel in every turn; `Enough` says that its fuel lasts. -/
theorem commaSeparated {item : Descent α} {others : Nat → Parser (List α)}
    (Enough : Nat → Tokens → Prop)
    (step : ∀ fuel before, Enough fuel before → ∃ fewer other,
      others fuel = (do
        let first ← other
        if ← Parser.accept .comma then return first :: (← others fewer) else return [first]) ∧
      Imitates 1 item other before ∧
      ∀ after : Tokens, after.ahead.length < before.ahead.length → Enough fewer after)
    (turns : Nat) (items : List α) {fuel : Nat} {before : Tokens} (enough : Enough fuel before)
    (lt : before.ahead.length < turns) :
    Imitates 1 (Descent.commaSeparated item turns items) ((items ++ ·) <$> others fuel) before := by
  induction turns generalizing items fuel before with
  | zero => exact absurd lt (Nat.not_lt_zero _)
  | succ turns ih =>
    obtain ⟨fewer, other, others_eq, itemImitates, later⟩ := step fuel before enough
    have turn_eq : ((items ++ ·) <$> others fuel) = ((do
        let last ← other
        let more ← Parser.accept .comma
        return (last, more)) >>= fun turn =>
          if turn.2 then ((items ++ [turn.1] ++ ·) <$> others fewer)
          else Pure.pure (items ++ [turn.1])) := by
      rw [others_eq]
      simp only [map_eq_pure_bind, bind_assoc, pure_bind]
      congr
      funext first
      congr
      funext more
      cases more <;> simp
    -- a turn is an item and the comma behind it, and the comma decides whether there is another
    rw [turn_eq, Descent.commaSeparated]
    have turn : Imitates 1
        (do let last ← item; let more ← Descent.accept (.symbol .comma); return (last, more))
        (do let last ← other; let more ← Parser.accept .comma; return (last, more)) before :=
      itemImitates.bind fun last _ _ => (accept_only .comma).bind fun more _ _ => .pure (last, more)
    refine turn.progress.bind fun made after shorter => ?_
    obtain ⟨last, more⟩ := made
    cases more with
    | true =>
      simp only [if_true]
      exact (ih _ (later after (by omega)) (by omega)).mono (by omega)
    | false => exact .pure _

/-- As for `commaSeparated`. Behind the loop `finish` goes on, as `others` does when it ends. -/
theorem whileDo {σ τ : Type} {going : Descent Bool} {turn : σ → Descent σ}
    {finish : σ → Descent τ} (others : Nat → σ → Parser τ) (Enough : Nat → Tokens → Prop)
    (step : ∀ fuel state before, Enough fuel before →
      (Tells going false before ∧ Imitates 0 (finish state) (others fuel state) before) ∨
      (Tells going true before ∧ ∃ fewer other,
        (others fuel state).runOn before = (other >>= others fewer).runOn before ∧
        Imitates 1 (turn state) other before ∧
        ∀ after : Tokens, after.ahead.length < before.ahead.length → Enough fewer after))
    (turns : Nat) (state : σ) {fuel : Nat} {before : Tokens} (enough : Enough fuel before)
    (lt : before.ahead.length < turns) :
    Imitates 0 (Descent.whileDo going turn turns state >>= finish) (others fuel state) before := by
  induction turns generalizing state fuel before with
  | zero => exact absurd lt (Nat.not_lt_zero _)
  | succ turns ih =>
    rw [Descent.whileDo, bind_assoc]
    obtain ⟨tells, finishes⟩ | ⟨tells, fewer, other, same, turnImitates, later⟩ :=
      step fuel state before enough
    · intro tape shows
      rw [runOn_bind_ok _ (tells tape shows)]
      simp only [Bool.false_eq_true, if_false, pure_bind]
      exact finishes tape shows
    · -- The turn leaves fewer tokens, so that the turns that are left suffice for the rest.
      intro tape shows
      rw [runOn_bind_ok _ (tells tape shows)]
      simp only [if_true, bind_assoc]
      refine congr_right ?_ same tape shows
      refine bind turnImitates.progress fun next after shorter => ?_
      exact ih next (later after (by omega)) (by omega)

end Imitates

end Descent

end ImpStack

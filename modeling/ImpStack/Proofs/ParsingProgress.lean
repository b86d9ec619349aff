import ImpStack.Proofs.ImitatedParsers

/-!
Calls of the parser on one list of tokens, one after another, go forward and stay inside the list
(`Tape.calls_advance`). What makes a call stop is a token that does not fit, never the index, a loop
or the depth: all these are ways to stop of their own, and none of them is ever taken.

A call does what the reader does (`Reader.call_tape`), whose index is inside of its list by
construction; from that, one call advances wherever it starts (`Tape.Sound.advances`).
-/
namespace ImpStack

open ImpStack.Parser (Entry Tree)

namespace Reader

variable {reader : Reader}

/-- The reader without the proofs that its index is inside of its list. -/
def tape (reader : Reader) : Tape := ⟨reader.tokens, reader.index⟩

/-- Both begin before the first token. -/
theorem tape_ofList (tokens : List Token) : (ofList tokens).tape = .ofList tokens := by
  unfold ofList tape Tape.ofList
  split <;> rfl

/-- The tape shows the tokens that the reader has left. -/
theorem shows_rest (reader : Reader) : reader.tape.Shows reader.rest := by
  have last : (reader.tokens.drop reader.index).getLast? = reader.tokens.getLast? := by
    rw [List.getLast?_drop, if_neg (Nat.not_le_of_lt reader.index_lt)]
  have ends := reader.ends
  rw [← last, Option.any_eq_true] at ends
  obtain ⟨closing, closing_eq, closingEof⟩ := ends
  -- An end of the input stands ahead, so the first of them is found.
  obtain ⟨finish, found⟩ : ∃ finish, (reader.tokens.drop reader.index).find? Token.isEof =
      some finish := by
    rw [← Option.isSome_iff_exists, List.find?_isSome]
    exact ⟨closing, List.mem_of_getLast? closing_eq, closingEof⟩
  obtain ⟨finishEof, real, following, split, noEof⟩ := List.find?_eq_some_iff_append.mp found
  refine ⟨finish, following, by simpa [Token.isEof] using finishEof, ?_, ?_⟩
  · simp only [rest, Tokens.ofList, found]
  · have ahead_eq : (reader.tokens.drop reader.index).takeWhile (!·.isEof) = real := by
      rw [split, List.takeWhile_append_of_pos noEof,
        List.takeWhile_cons_of_neg (by simp [finishEof]), List.append_nil]
    show reader.tokens.drop reader.index =
      (reader.tokens.drop reader.index).takeWhile (!·.isEof) ++ finish :: following
    rw [ahead_eq, split]

/-- To skip tokens is to move the index. -/
theorem skip_tape {passed : List Token} {left : Tokens}
    (passes : reader.rest.Passes passed left) :
    (reader.skip passed.length).tape = reader.tape.forward passed.length := by
  obtain ⟨token, following, stands⟩ := stands_of_passes passes
  have index_eq := index_skip (fun _ => passes.not_eof) stands
  show Tape.mk _ _ = Tape.mk _ _
  rw [tokens_skip, index_eq]
  rfl

/-- A call answers and stops where the reader does, and what it has consumed is enough. -/
theorem call_tape (reader : Reader) (entry : Entry) :
    reader.tape.call entry =
      ((reader.read entry).1.mapError .misfit, (reader.read entry).2.tape) ∧
    ∀ tree, (reader.read entry).1 = .ok tree →
      reader.index + entry.least ≤ (reader.read entry).2.index := by
  obtain ⟨answer_eq, passed, passes, reached, enough⟩ :=
    entry.imitates reader.rest reader.tape reader.shows_rest
  have moved : (reader.read entry).2.tape = reader.tape.forward passed.length := by
    rw [read_eq_skip passes, skip_tape passes]
  refine ⟨Prod.ext answer_eq (reached.trans moved.symm), fun tree ok => ?_⟩
  have index_eq : (reader.read entry).2.index = reader.index + passed.length :=
    congrArg Tape.index moved
  have := enough tree ok
  omega

/-- Several calls answer and stop where the reader does. -/
theorem callAll_tape (reader : Reader) (entries : List Entry) :
    reader.tape.callAll entries =
      ((reader.readAll entries).1.map (Except.mapError .misfit),
        (reader.readAll entries).2.tape) := by
  induction entries generalizing reader with
  | nil => rfl
  | cons entry entries ih =>
    rw [Tape.callAll, (call_tape reader entry).1]
    simp only [ih, readAll_cons, List.map_cons]

end Reader

namespace Tape

/-- The last token is an end of the input, and the index is inside of the list. -/
structure Sound (tape : Tape) : Prop where
  ends : tape.tokens.getLast?.any Token.isEof = true
  index_lt : tape.index < tape.tokens.length

/-- The call goes forward, and what stops it is a token that does not fit. -/
structure Advances (tape : Tape) (entry : Entry) : Prop where
  sound : tape.Sound
  tokens_eq : (tape.call entry).2.tokens = tape.tokens
  reached_lt : (tape.call entry).2.index < tape.tokens.length
  index_le : tape.index ≤ (tape.call entry).2.index
  /-- No end of the input is passed. -/
  reached_le : ∀ finish token, tape.index ≤ finish → tape.tokens[finish]? = some token →
    token.kind = .eof → (tape.call entry).2.index ≤ finish
  consumes : ∀ tree, (tape.call entry).1 = .ok tree →
    entry = .function ∨ entry = .statement ∨ entry = .expression →
    tape.index < (tape.call entry).2.index
  /-- The index has not left the list, no turn of a loop was idle, there were no more turns and no
  more calls inside each other than tokens, and no binary operator was missing. -/
  misfit : ∀ stop, (tape.call entry).1 = .error stop → ∃ error, stop = .misfit error

/-- One call, wherever it starts inside of the list. -/
theorem Sound.advances {tape : Tape} (sound : tape.Sound) (entry : Entry) :
    tape.Advances entry := by
  -- A sound tape is that of a reader, on which no call gets stuck. What the reader does is known of
  -- the total parsers.
  obtain ⟨reader, rfl⟩ : ∃ reader : Reader, reader.tape = tape :=
    ⟨⟨tape.tokens, tape.index, sound.ends, sound.index_lt⟩, rfl⟩
  obtain ⟨call_eq, consumes⟩ := reader.call_tape entry
  have tokens_eq : (reader.read entry).2.tokens = reader.tokens := reader.tokens_read entry
  constructor
  case sound => exact sound
  case tokens_eq =>
    rw [call_eq]
    exact tokens_eq
  case reached_lt =>
    rw [call_eq]
    have inside := (reader.read entry).2.index_lt
    rw [tokens_eq] at inside
    exact inside
  case index_le =>
    rw [call_eq]
    exact reader.index_le_readAll [entry]
  case reached_le =>
    intro finish token le stands ended
    rw [call_eq]
    exact Reader.index_readAll_le [entry] le stands ended
  case consumes =>
    intro tree ok kinds
    have least_eq : entry.least = 1 := by
      rcases kinds with rfl | rfl | rfl <;> rfl
    rw [call_eq] at ok ⊢
    cases answer : (reader.read entry).1 with
    | ok other =>
      have consumed := consumes other answer
      rw [least_eq] at consumed
      exact consumed
    | error error =>
      rw [answer] at ok
      cases ok
  case misfit =>
    intro stop failed
    rw [call_eq] at failed
    cases answer : (reader.read entry).1 with
    | ok tree =>
      rw [answer] at failed
      cases failed
    | error error =>
      rw [answer] at failed
      cases failed
      exact ⟨error, rfl⟩

/-- Every call on a list of tokens, whatever has been called before and with what outcome, goes
forward, and so does every call that starts where another one stands. The answers are those of the
reader. -/
theorem calls_advance :
    (∀ (tokens : List Token) (earlier : List Entry) (entry : Entry),
      ((ofList tokens).callAll earlier).2.Advances entry) ∧
    (∀ tape : Tape, tape.Sound → ∀ entry, tape.Advances entry) ∧
    ∀ (tokens : List Token) (entries : List Entry), (ofList tokens).callAll entries =
      (((Reader.ofList tokens).readAll entries).1.map (Except.mapError .misfit),
        ((Reader.ofList tokens).readAll entries).2.tape) := by
  refine ⟨fun tokens earlier entry => ?_, fun tape sound entry => sound.advances entry,
    fun tokens entries => ?_⟩
  · rw [← Reader.tape_ofList, Reader.callAll_tape]
    have sound : ((Reader.ofList tokens).readAll earlier).2.tape.Sound :=
      ⟨Reader.ends _, Reader.index_lt _⟩
    exact sound.advances entry
  · rw [← Reader.tape_ofList, Reader.callAll_tape]

/-- Two names with an end of the input between them, and none behind them. -/
def parted : List Token :=
  [⟨.identifier, "x", ⟨1, 1⟩⟩, ⟨.eof, "", ⟨1, 2⟩⟩, ⟨.identifier, "y", ⟨1, 3⟩⟩]

/-- The first call reads the first name. The next one fails at the end of the input, and so does
every later one. -/
theorem calls_advance_parted :
    ((ofList parted).callAll [.expression, .statement]).2.index = 1 ∧
    (Tape.mk (ofList parted).tokens 1).Sound ∧
    (Tape.mk (ofList parted).tokens 1).Advances .statement ∧
    ((ofList parted).callAll [.expression, .statement]).2.Advances .program := by
  have sound : (Tape.mk (ofList parted).tokens 1).Sound := ⟨by decide, by decide⟩
  exact ⟨rfl, sound, calls_advance.2.1 _ sound .statement,
    calls_advance.1 parted [.expression, .statement] .program⟩

end Tape

end ImpStack

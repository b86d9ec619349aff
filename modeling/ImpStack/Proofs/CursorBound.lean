import ImpStack.Proofs.Lookahead
import ImpStack.Syntax.Reader

/-!
A reader looks no further than its cursor. What it answers, and where it stops, do not change with
the tokens behind the one that it stops before; in particular nothing behind an end of the input
matters (`Reader.looks_no_further_than_cursor`).

One call goes the same way wherever the tokens that it consumes stand before the same token
(`Reader.read_stops`); several calls do, by induction, as long as the lists agree up to where the
last of them stops (`Reader.outcome_eq`).
-/
namespace ImpStack

/-- Each parser that can be called looks no further than where it stops. -/
theorem Parser.Entry.confined (entry : Parser.Entry) : Parser.Confined entry.parser := by
  have built : ∀ {α : Type} {parser : Parser α} (build : α → Parser.Tree),
      Parser.Confined parser → Parser.Confined (build <$> parser) := by
    intro α parser build confined
    rw [map_eq_pure_bind]
    exact confined.bind fun tree => .pure (build tree)
  cases entry with
  | program => exact built _ program_confined
  | function => exact built _ function_confined
  | blockBody => exact built _ blockBody_confined
  | statement => exact built _ statement_confined
  | expression => exact built _ expression_confined

namespace Reader

open ImpStack.Parser (Entry Tree)

variable {reader other : Reader} {passed phrase following : List Token} {token : Token}

/-! ### The tokens behind the cursor -/

theorem drop_eq_cons (reader : Reader) :
    reader.tokens.drop reader.index = reader.current :: reader.tokens.drop (reader.index + 1) :=
  List.drop_eq_getElem_cons reader.index_lt

theorem current_eq (stands : reader.tokens.drop reader.index = token :: following) :
    reader.current = token := by
  rw [drop_eq_cons] at stands
  exact (List.cons.inj stands).1

/-- What a parser sees as the current token of a reader. Of an end of the input it sees the
place. -/
theorem current_rest (reader : Reader) : reader.rest.current =
    if reader.current.isEof then .eofAt reader.current.position else reader.current := by
  unfold rest
  rw [drop_eq_cons]
  cases ended : reader.current.isEof <;> simp [Tokens.ofList, Tokens.current, ended]

/-- A reader stays before an end of the input. -/
theorem advance_of_eof (ended : reader.current.kind = .eof) : reader.advance = reader :=
  dif_pos (by simp [Token.isEof, ended])

theorem advance_of_ne (real : reader.current.kind ≠ .eof) :
    reader.advance.tokens = reader.tokens ∧ reader.advance.index = reader.index + 1 := by
  have going : ¬ reader.current.isEof = true := by simp [Token.isEof, real]
  rw [advance, dif_neg going]
  exact ⟨rfl, rfl⟩

theorem tokens_skip (reader : Reader) (count : Nat) :
    (reader.skip count).tokens = reader.tokens := by
  induction count generalizing reader with
  | zero => rfl
  | succ count ih =>
    rw [skip, ih]
    by_cases ended : reader.current.kind = .eof
    · rw [advance_of_eof ended]
    · exact (advance_of_ne ended).1

/-- Skipping goes past tokens that are no end of the input one by one. -/
theorem index_skip (real : ∀ token ∈ passed, token.kind ≠ .eof)
    (stands : reader.tokens.drop reader.index = passed ++ following) :
    (reader.skip passed.length).index = reader.index + passed.length := by
  induction passed generalizing reader with
  | nil => rfl
  | cons first passed ih =>
    obtain rfl := current_eq stands
    obtain ⟨tokens_eq, index_eq⟩ := advance_of_ne (real _ List.mem_cons_self)
    have behind : reader.advance.tokens.drop reader.advance.index = passed ++ following := by
      rw [drop_eq_cons] at stands
      rw [tokens_eq, index_eq]
      exact (List.cons.inj stands).2
    rw [List.length_cons, skip, ih (fun token member => real token (List.mem_cons_of_mem _ member))
      behind, index_eq]
    omega

/-- The tokens that a parser consumes stand behind the cursor, with another token behind them. -/
theorem stands_of_passes {left : Tokens} (passes : reader.rest.Passes passed left) :
    ∃ token following, reader.tokens.drop reader.index = passed ++ token :: following := by
  have ahead : (reader.tokens.drop reader.index).takeWhile (!·.isEof) = passed ++ left.ahead :=
    passes.ahead_eq
  obtain ⟨behind, split⟩ : ∃ behind, reader.tokens.drop reader.index = passed ++ behind := by
    refine ⟨left.ahead ++ (reader.tokens.drop reader.index).dropWhile (!·.isEof), ?_⟩
    rw [← List.append_assoc, ← ahead, List.takeWhile_append_dropWhile]
  cases behind with
  | cons token following => exact ⟨token, following, split⟩
  | nil =>
    -- The last token is an end of the input, which is not consumed.
    have last : (reader.tokens.drop reader.index).getLast? = reader.tokens.getLast? := by
      rw [List.getLast?_drop, if_neg (Nat.not_le_of_lt reader.index_lt)]
    have ends := reader.ends
    rw [← last, split, List.append_nil, Option.any_eq_true] at ends
    obtain ⟨token, token_eq, ended⟩ := ends
    exact absurd (by simpa [Token.isEof] using ended)
      (passes.not_eof (List.mem_of_getLast? token_eq))

/-- Behind the tokens that are skipped stand the ones that followed them. -/
theorem drop_skip (real : ∀ token ∈ passed, token.kind ≠ .eof)
    (stands : reader.tokens.drop reader.index = passed ++ following) :
    (reader.skip passed.length).tokens.drop (reader.skip passed.length).index = following := by
  rw [tokens_skip, index_skip real stands, ← List.drop_drop, stands, List.drop_left]

theorem passes_skip (real : ∀ token ∈ passed, token.kind ≠ .eof)
    (stands : reader.tokens.drop reader.index = passed ++ token :: following) :
    reader.rest.Passes passed (reader.skip passed.length).rest := by
  rw [rest, rest, drop_skip real stands, stands]
  exact Tokens.passes_ofList real token following

/-! ### What a parser reads -/

/-- A reader moves on by as many tokens as its parser has consumed. -/
theorem read_eq_skip {entry : Entry}
    (passes : reader.rest.Passes passed (entry.parser.runOn reader.rest).2) :
    (reader.read entry).2 = reader.skip passed.length := by
  have consumed : reader.rest.ahead.length - (entry.parser.runOn reader.rest).2.ahead.length =
      passed.length := by
    rw [passes.length_eq]
    omega
  rw [← consumed]
  rfl

/-- A parser consumes tokens up to another one. Wherever the same tokens stand in front of that one,
it gives the same answer and consumes them. -/
theorem read_stops (reader : Reader) (entry : Entry) :
    ∃ passed token following, (∀ token ∈ passed, token.kind ≠ .eof) ∧
      reader.tokens.drop reader.index = passed ++ token :: following ∧
      (reader.read entry).2.index = reader.index + passed.length ∧
      ∀ (other : Reader) (others : List Token),
        other.tokens.drop other.index = passed ++ token :: others →
          (other.read entry).1 = (reader.read entry).1 ∧
            (other.read entry).2.index = other.index + passed.length := by
  obtain ⟨passed, passes, alike⟩ := entry.confined reader.rest
  obtain ⟨token, following, stands⟩ := stands_of_passes passes
  have real : ∀ token ∈ passed, token.kind ≠ .eof := fun token => passes.not_eof
  refine ⟨passed, token, following, real, stands, ?_, fun other others otherStands => ?_⟩
  · rw [read_eq_skip passes]
    exact index_skip real stands
  · have otherPasses := passes_skip real otherStands
    have same : (other.skip passed.length).rest.current =
        (entry.parser.runOn reader.rest).2.current := by
      rw [passes.unique (passes_skip real stands), current_rest, current_rest,
        current_eq (drop_skip real otherStands), current_eq (drop_skip real stands)]
    obtain ⟨answer_eq, left_eq⟩ := Prod.mk.inj (alike other.rest _ otherPasses same)
    refine ⟨answer_eq, ?_⟩
    rw [read_eq_skip (left_eq ▸ otherPasses)]
    exact index_skip real otherStands

theorem tokens_read (reader : Reader) (entry : Entry) :
    (reader.read entry).2.tokens = reader.tokens := tokens_skip _ _

theorem readAll_cons (reader : Reader) (entry : Entry) (entries : List Entry) :
    reader.readAll (entry :: entries) =
      ((reader.read entry).1 :: ((reader.read entry).2.readAll entries).1,
        ((reader.read entry).2.readAll entries).2) := rfl

/-- No call goes back. -/
theorem index_le_readAll (reader : Reader) (entries : List Entry) :
    reader.index ≤ (reader.readAll entries).2.index := by
  induction entries generalizing reader with
  | nil => exact Nat.le_refl _
  | cons entry entries ih =>
    obtain ⟨passed, _, _, _, _, reached, _⟩ := read_stops reader entry
    have later := ih (reader.read entry).2
    rw [reached] at later
    exact Nat.le_trans (Nat.le_add_right _ _) later

/-- No reader goes past an end of the input. -/
theorem index_readAll_le {bound : Nat} (entries : List Entry) (le : reader.index ≤ bound)
    (stands : reader.tokens[bound]? = some token) (ended : token.kind = .eof) :
    (reader.readAll entries).2.index ≤ bound := by
  induction entries generalizing reader with
  | nil => exact le
  | cons entry entries ih =>
    obtain ⟨passed, next, following, real, behind, reached, _⟩ := read_stops reader entry
    have short : reader.index + passed.length ≤ bound := by
      apply Nat.le_of_not_lt
      intro past
      have found : (reader.tokens.drop reader.index)[bound - reader.index]? = some token := by
        rw [List.getElem?_drop, Nat.add_sub_cancel' le]
        exact stands
      rw [behind, List.getElem?_append_left (by omega)] at found
      exact real token (List.mem_of_getElem? found) ended
    rw [readAll_cons]
    refine ih (reached ▸ short) ?_
    rw [tokens_read]
    exact stands

/-- Tokens up to a bound are the same in lists that agree up to it. -/
theorem stands_of_agree {first second : List Token} {start bound : Nat}
    (agree : second.take (bound + 1) = first.take (bound + 1))
    (stands : first.drop start = passed ++ token :: following)
    (le : start + passed.length ≤ bound) :
    ∃ others, second.drop start = passed ++ token :: others := by
  have part : ∀ list : List Token, (list.drop start).take (passed.length + 1) =
      ((list.take (bound + 1)).take (start + (passed.length + 1))).drop start := by
    intro list
    rw [List.take_take, Nat.min_eq_left (by omega), List.take_drop]
  have front : (second.drop start).take (passed.length + 1) = passed ++ [token] := by
    rw [part second, agree, ← part first, stands, List.append_cons]
    exact List.take_left' (by simp)
  refine ⟨(second.drop start).drop (passed.length + 1), ?_⟩
  rw [List.append_cons, ← front, List.take_append_drop]

/-- Readers whose tokens agree up to the one at which the first of them stops go the same way. -/
theorem outcome_eq {bound : Nat} (entries : List Entry) (same : other.index = reader.index)
    (agree : other.tokens.take (bound + 1) = reader.tokens.take (bound + 1))
    (inside : (reader.readAll entries).2.index ≤ bound) :
    other.outcome entries = reader.outcome entries := by
  induction entries generalizing reader other with
  | nil => exact congrArg (Prod.mk []) same
  | cons entry entries ih =>
    obtain ⟨passed, token, following, real, stands, reached, alike⟩ := read_stops reader entry
    have later : (reader.read entry).2.index ≤ bound :=
      Nat.le_trans (index_le_readAll _ entries) inside
    obtain ⟨others, otherStands⟩ := stands_of_agree agree stands (by omega)
    obtain ⟨answer_eq, otherReached⟩ := alike other others (same ▸ otherStands)
    have agreeBehind : (other.read entry).2.tokens.take (bound + 1) =
        (reader.read entry).2.tokens.take (bound + 1) := by
      rw [tokens_read, tokens_read, agree]
    have later_eq := ih (by omega) agreeBehind inside
    unfold outcome at later_eq ⊢
    obtain ⟨answers_eq, last_eq⟩ := Prod.mk.inj later_eq
    rw [readAll_cons, readAll_cons, answer_eq, answers_eq, last_eq]

/-! ### Lists of tokens -/

theorem index_ofList (tokens : List Token) : (ofList tokens).index = 0 := by
  unfold ofList
  split <;> rfl

/-- The list of a reader begins with the given tokens. An end of the input may be added. -/
theorem tokens_ofList (tokens : List Token) :
    ∃ closing, (ofList tokens).tokens = tokens ++ closing := by
  unfold ofList
  split
  · exact ⟨[], (List.append_nil tokens).symm⟩
  · exact ⟨_, rfl⟩

/-- Lists that agree up to an index do so also with their ends behind them. -/
theorem take_tokens_ofList {first second : List Token} {bound : Nat}
    (agree : ∀ index ≤ bound, first[index]? = second[index]?) :
    (ofList second).tokens.take (bound + 1) = (ofList first).tokens.take (bound + 1) := by
  have take_eq : second.take (bound + 1) = first.take (bound + 1) := by
    apply List.ext_getElem?
    intro index
    rw [List.getElem?_take, List.getElem?_take]
    split
    · exact (agree index (by omega)).symm
    · rfl
  by_cases inside : bound < first.length
  · have lengths := congrArg List.length take_eq
    rw [List.length_take, List.length_take] at lengths
    obtain ⟨closing, firstTokens⟩ := tokens_ofList first
    obtain ⟨otherClosing, secondTokens⟩ := tokens_ofList second
    rw [firstTokens, secondTokens, List.take_append_of_le_length (by omega),
      List.take_append_of_le_length (by omega), take_eq]
  · have lengths := congrArg List.length take_eq
    rw [List.length_take, List.length_take] at lengths
    have same : second = first := by
      rwa [List.take_of_length_le (by omega), List.take_of_length_le (by omega)] at take_eq
    rw [same]

/-- A reader looks no further than its cursor. Where two lists agree up to an index and the parsers
stop at it or before it on the first, they give the same answers on the second, errors included, and
stop at the same index. Nothing behind an end of the input matters. And a phrase that is followed by
the same token is read in the same way wherever it stands and whatever follows. -/
theorem looks_no_further_than_cursor :
    (∀ (first second : List Token) (bound : Nat) (entries : List Entry),
      (∀ index ≤ bound, first[index]? = second[index]?) →
      ((ofList first).outcome entries).2 ≤ bound →
      (ofList second).outcome entries = (ofList first).outcome entries) ∧
    (∀ (before after others : List Token) (finish : Token) (entries : List Entry),
      finish.kind = .eof →
      (ofList (before ++ finish :: others)).outcome entries =
        (ofList (before ++ finish :: after)).outcome entries) ∧
    (∀ (reader other : Reader) (phrase following others : List Token) (next : Token)
      (entry : Entry),
      reader.tokens.drop reader.index = phrase ++ next :: following →
      other.tokens.drop other.index = phrase ++ next :: others →
      (reader.read entry).2.index = reader.index + phrase.length →
      (other.read entry).1 = (reader.read entry).1 ∧
        (other.read entry).2.index = other.index + phrase.length) := by
  have agreeing : ∀ (first second : List Token) (bound : Nat) (entries : List Entry),
      (∀ index ≤ bound, first[index]? = second[index]?) →
      ((ofList first).outcome entries).2 ≤ bound →
      (ofList second).outcome entries = (ofList first).outcome entries := by
    intro first second bound entries agree inside
    have same : (ofList second).index = (ofList first).index := by
      rw [index_ofList, index_ofList]
    exact outcome_eq entries same (take_tokens_ofList agree) inside
  refine ⟨agreeing, ?_, ?_⟩
  · intro before after others finish entries ended
    have agree : ∀ index ≤ before.length,
        (before ++ finish :: after)[index]? = (before ++ finish :: others)[index]? := by
      intro index le
      have short : index < (before ++ [finish]).length := by
        rw [List.length_append, List.length_singleton]
        omega
      rw [List.append_cons before finish after, List.append_cons before finish others,
        List.getElem?_append_left short, List.getElem?_append_left short]
    obtain ⟨closing, tokens_eq⟩ := tokens_ofList (before ++ finish :: after)
    have stands : (ofList (before ++ finish :: after)).tokens[before.length]? = some finish := by
      rw [tokens_eq]
      simp
    -- No call moves the cursor past the end of input, so the lists agree as far as it is looked.
    refine agreeing _ _ before.length entries agree (index_readAll_le entries ?_ stands ended)
    rw [index_ofList]
    exact Nat.zero_le _
  · intro reader other phrase following others next entry here there stops
    obtain ⟨passed, token, behind, _, stands, reached, alike⟩ := read_stops reader entry
    have lengths : passed.length = phrase.length := by omega
    obtain ⟨rfl, behind_eq⟩ := List.append_inj (stands.symm.trans here) lengths
    obtain ⟨rfl, rfl⟩ := List.cons.inj behind_eq
    exact alike other others there

/-- A statement, and behind it a sign with which no expression begins. -/
def strayParen (following : List Token) : List Token :=
  [⟨.identifier, "x", ⟨1, 1⟩⟩, ⟨.symbol .assign, "=", ⟨1, 3⟩⟩, ⟨.intLiteral, "1", ⟨1, 5⟩⟩,
    ⟨.symbol .semicolon, ";", ⟨1, 6⟩⟩, ⟨.symbol .rightParen, ")", ⟨1, 8⟩⟩] ++ following

theorem looks_no_further_than_cursor_strayParen :
    let name : Token := ⟨.identifier, "y", ⟨1, 9⟩⟩
    let finish : Token := .eofAt ⟨1, 10⟩
    let reader := (ofList (strayParen [])).skip 2
    let other := ofList ((strayParen [name]).drop 2)
    ((∀ index ≤ 4, (strayParen [])[index]? = (strayParen [finish, name])[index]?) ∧
      ((ofList (strayParen [])).outcome [.statement, .expression]).2 ≤ 4 ∧
      (ofList (strayParen [finish, name])).outcome [.statement, .expression] =
        (ofList (strayParen [])).outcome [.statement, .expression]) ∧
    (finish.kind = .eof ∧
      (ofList (strayParen [] ++ finish :: [name])).outcome [.blockBody, .program] =
        (ofList (strayParen [] ++ finish :: [])).outcome [.blockBody, .program]) ∧
    ((reader.read .expression).2.index = reader.index + 1 ∧
      (other.read .expression).1 = (reader.read .expression).1 ∧
      (other.read .expression).2.index = other.index + 1) := by
  intro name finish reader other
  refine ⟨⟨by decide, by decide, ?_⟩, ⟨rfl, ?_⟩, by decide, ?_⟩
  · exact looks_no_further_than_cursor.1 _ _ 4 _ (by decide) (by decide)
  · exact looks_no_further_than_cursor.2.1 _ _ _ _ _ rfl
  · exact looks_no_further_than_cursor.2.2 reader other [⟨.intLiteral, "1", ⟨1, 5⟩⟩] _ _
      ⟨.symbol .semicolon, ";", ⟨1, 6⟩⟩ .expression rfl rfl (by decide)

end Reader

end ImpStack

import ImpStack.Token.Lexer

/-!
Tokens from the spans that a scanner of bytes reports. The scanner knows what it has recognised and
between which bytes; a cursor that follows it knows lines and columns and stops between characters
only. What the scanner fails to recognise may begin or end inside a character and may go on over
several characters, blanks among them.

Embeds the tokenizer of SPEC_FULL, section 4.1: `nextToken` is its `next_token`, `resume` what that
does when no character waits to be delivered, `all` its `all`. The scanner is a generated one and
stays a parameter, the list of its reports, about which nothing is assumed here.
-/
namespace ImpStack

/-- One report of the scanner: the kind of token that stands from the byte `start` up to the byte
`stop`, or none if it knows no token there. -/
structure RawSpan where
  kind? : Option Kind
  start : Nat
  stop : Nat
  deriving DecidableEq, Repr

namespace Cursor

/-- An invalid token for every character in front of the byte offset `stop` that is no blank,
looking forward from `offset`, and the cursor behind these characters. -/
def invalidsTo (stop : Nat) : List Char → (offset : Nat) → Position → List Token × Cursor
  | [], offset, position => ([], ⟨[], offset, position⟩)
  | c :: rest, offset, position =>
    if offset < stop then
      let (tokens, there) := invalidsTo stop rest (offset + c.utf8Size) (position.after c)
      if Text.isBlank c then (tokens, there)
      else (⟨.invalid, String.singleton c, position⟩ :: tokens, there)
    else ([], ⟨c :: rest, offset, position⟩)

end Cursor

/-- The state between two tokens. -/
structure Tokenizer where
  source : String
  /-- What the scanner has still to report. -/
  raws : List RawSpan
  cursor : Cursor
  /-- Invalid characters that have been read and not been delivered. -/
  pending : List Token
  deriving DecidableEq, Repr

namespace Tokenizer

/-- A tokenizer at the start of a text of which the scanner will make the reports. -/
def ofScan (source : String) (raws : List RawSpan) : Tokenizer :=
  ⟨source, raws, .ofText source, []⟩

/-- The next token when none is pending. A report that ends at or before the cursor repeats a part
of a character that has been delivered whole. -/
def resume (source : String) : List RawSpan → Cursor → Token × Tokenizer
  | [], cursor =>
    let there := cursor.advanceTo source.utf8ByteSize
    (.eofAt there.position, ⟨source, [], there, []⟩)
  | raw :: raws, cursor =>
    match raw.kind? with
    | some kind =>
      let here := cursor.advanceTo raw.start
      (⟨kind, String.Pos.Raw.extract source ⟨raw.start⟩ ⟨raw.stop⟩, here.position⟩,
        ⟨source, raws, here.advanceTo raw.stop, []⟩)
    | none =>
      if raw.stop ≤ cursor.offset then resume source raws cursor
      else
        let here := cursor.advanceTo raw.start
        match Cursor.invalidsTo raw.stop here.rest here.offset here.position with
        | ([], there) => resume source raws there
        | (token :: pending, there) => (token, ⟨source, raws, there, pending⟩)

/-- The next token; at the end of the input the end is delivered again and again. -/
def nextToken (tokenizer : Tokenizer) : Token × Tokenizer :=
  match tokenizer.pending with
  | token :: pending => (token, { tokenizer with pending := pending })
  | [] => resume tokenizer.source tokenizer.raws tokenizer.cursor

/-- A token that is not the end of the input uses up a report; this is why `all` comes to an end. -/
theorem resume_raws {source : String} {raws : List RawSpan} {cursor : Cursor}
    (goes : (resume source raws cursor).1.isEof = false) :
    (resume source raws cursor).2.raws.length < raws.length := by
  induction raws generalizing cursor with
  | nil => simp [resume, Token.eofAt, Token.isEof] at goes
  | cons raw raws ih =>
    simp only [resume] at goes ⊢
    split at goes
    · simp
    · split at goes
      · next repeated =>
        rw [if_pos repeated]
        exact Nat.lt_succ_of_lt (ih goes)
      · next new =>
        rw [if_neg new]
        split at goes
        · exact Nat.lt_succ_of_lt (ih goes)
        · simp

/-- All tokens up to the end of the input. -/
def all (tokenizer : Tokenizer) : List Token :=
  if tokenizer.nextToken.1.isEof then [tokenizer.nextToken.1]
  else tokenizer.nextToken.1 :: all tokenizer.nextToken.2
termination_by (tokenizer.raws.length, tokenizer.pending.length)
decreasing_by
  rename_i goes
  rw [Bool.not_eq_true] at goes
  unfold nextToken at goes ⊢
  split at goes
  · next waiting => simp [waiting, Prod.lex_def]
  · exact Prod.Lex.left _ _ (resume_raws goes)

end Tokenizer

end ImpStack

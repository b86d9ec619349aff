import ImpStack.Source.Cursor
import ImpStack.Token.Basic
import ImpStack.Token.Pattern

/-!
From text to tokens, all at once (`Token.listOf`) or one at a time (`TokenStream`). Lexing never
fails: a character that starts no token becomes a token of kind `invalid`.

Embeds the tokenizer of SPEC_FULL, section 4.1, as what it yields for a text: patterns are matched
at the front of the rest, character by character. The tokenizer as it works, on the reports of a
scanner and with a cursor behind it, is `Tokenizer`.
-/
namespace ImpStack

/-- What stands at the front of a text: the kind of its token, or none for blanks and comments, and
the number of its characters. -/
structure Piece where
  kind? : Option Kind
  length : Nat
  deriving DecidableEq, Repr

/-- The piece at the front of a text that is not empty. Where no pattern matches it is one invalid
character. -/
def Piece.front (text : List Char) : Piece :=
  match Pattern.longestMatch text with
  | some (pattern, length) => ⟨pattern.kind?, length⟩
  | none => ⟨some .invalid, 1⟩

namespace Token

/-- The tokens of the text, which starts at `position`, behind its first `skip` characters. -/
def listFrom : (skip : Nat) → Position → List Char → List Token
  | _, position, [] => [eofAt position]
  | skip + 1, position, c :: rest => listFrom skip (position.after c) rest
  | 0, position, c :: rest =>
    let piece := Piece.front (c :: rest)
    let following := listFrom (piece.length - 1) (position.after c) rest
    match piece.kind? with
    | none => following
    | some kind =>
      ⟨kind, String.ofList ((c :: rest).take piece.length), position⟩ :: following

/-- All tokens of `source`; the last one is the end of the input, just behind the last
character. -/
def listOf (source : String) : List Token := listFrom 0 .start source.toList

end Token

/-- How many characters of the text, behind its first `skip` ones, stand before its next token, the
skipped ones counted. -/
def separatorLength : (skip : Nat) → List Char → Nat
  | _, [] => 0
  | skip + 1, _ :: rest => separatorLength skip rest + 1
  | 0, c :: rest =>
    let piece := Piece.front (c :: rest)
    match piece.kind? with
    | none => separatorLength (piece.length - 1) rest + 1
    | some _ => 0

/-- A text that is read token by token. -/
structure TokenStream where
  cursor : Cursor
  /-- Whether `next?` has delivered the end of the input. -/
  finished : Bool
  deriving DecidableEq, Repr

namespace TokenStream

def ofText (source : String) : TokenStream := ⟨.ofText source, false⟩

/-- The next token; at the end of the input the end is delivered again and again. -/
def nextToken (stream : TokenStream) : Token × TokenStream :=
  let here := stream.cursor.advanceBy (separatorLength 0 stream.cursor.rest)
  match here.rest with
  | [] => (.eofAt here.position, { stream with cursor := here })
  | text =>
    let piece := Piece.front text
    let kind := piece.kind?.getD .invalid
    (⟨kind, String.ofList (text.take piece.length), here.position⟩,
      { stream with cursor := here.advanceBy piece.length })

/-- The next token up to and including the end of the input, and then none. -/
def next? (stream : TokenStream) : Option Token × TokenStream :=
  if stream.finished then (none, stream)
  else
    let (token, stream) := stream.nextToken
    (some token, { stream with finished := token.isEof })

/-- The tokens that have not been delivered yet; the last one is the end of the input. -/
def remaining (stream : TokenStream) : List Token :=
  Token.listFrom 0 stream.cursor.position stream.cursor.rest

end TokenStream

end ImpStack

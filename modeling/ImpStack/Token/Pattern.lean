import ImpStack.Text.Blank
import ImpStack.Text.LeadByte
import ImpStack.Token.Kind

/-!
What may stand at the front of a text. Of all patterns the one that matches the most characters
wins, and of those that match equally much the first in the table, so that a keyword wins over an
identifier.

Embeds the patterns that the raw token classes declare (SPEC_FULL, section 4.1) as the generated
scanner reads them. The scanner itself is not under the sources: what it is documented to do is
here, and where its matching of keywords departs from that `keywordLength` says how.
-/
namespace ImpStack

/-- The patterns: separators, comments, numbers, identifiers, and one for each keyword and each
symbol. -/
inductive Pattern where
  | blanks | comment | float | int | word
  | keyword (name : Keyword)
  | symbol (sign : Symbol)
  deriving DecidableEq, Repr

namespace Pattern

/-- What an identifier may start with. -/
def isWordStart (c : Char) : Bool := c = '_' || Text.isLetter c

/-- What may go on in an identifier. -/
def isWordPart (c : Char) : Bool := isWordStart c || Text.isDecimalDigit c

/-- The number of characters at the front of `text` that satisfy `holds`. -/
def runLength (holds : Char → Bool) (text : List Char) : Nat := (text.takeWhile holds).length

/-- The length of `spelling` if `text` starts with it. -/
def spelledLength (spelling : String) (text : List Char) : Nat :=
  if spelling.toList.isPrefixOf text then spelling.length else 0

/-- Digits, a point and digits again. -/
def floatLength (text : List Char) : Nat :=
  let whole := runLength Char.isDigit text
  match text.drop whole with
  | '.' :: rest =>
    let fraction := runLength Char.isDigit rest
    if whole = 0 ∨ fraction = 0 then 0 else whole + 1 + fraction
  | _ => 0

/-- A keyword ends where no identifier goes on. Already the first byte of the next character decides
that: if it is also the first byte of a letter, the word is an identifier, even when the whole
character turns out to be none. -/
def keywordLength (spelling : String) (text : List Char) : Nat :=
  let following := (text.drop spelling.length).head?
  if spelling.toList.isPrefixOf text && !following.any Text.beginsLikeLetter then spelling.length
  else 0

/-- How many characters of `text` the pattern matches at most; no pattern matches the empty text,
so zero stands for no match. -/
def longest : Pattern → List Char → Nat
  | .blanks, text => runLength Text.isBlank text
  | .comment, '/' :: '/' :: rest => 2 + runLength (· ≠ '\n') rest
  | .comment, _ => 0
  | .float, text => floatLength text
  | .int, text => runLength Char.isDigit text
  | .word, c :: rest => if isWordStart c then 1 + runLength isWordPart rest else 0
  | .word, [] => 0
  | .keyword name, text => keywordLength name.spelling text
  | .symbol sign, text => spelledLength sign.spelling text

/-- All patterns; the first of equally long matches wins. -/
def table : List Pattern :=
  [blanks, comment, float, int] ++ Keyword.all.map keyword ++ [word] ++ Symbol.all.map symbol

/-- The kind of token that the pattern stands for; blanks and comments are none. -/
def kind? : Pattern → Option Kind
  | .blanks => none
  | .comment => none
  | .float => some .floatLiteral
  | .int => some .intLiteral
  | .word => some .identifier
  | .keyword name => some (.keyword name)
  | .symbol sign => some (.symbol sign)

/-- The longer of the match found so far and that of `pattern`. -/
def better (text : List Char) (best : Option (Pattern × Nat)) (pattern : Pattern) :
    Option (Pattern × Nat) :=
  if (best.elim 0 Prod.snd) < pattern.longest text then some (pattern, pattern.longest text)
  else best

/-- The winning pattern at the front of `text` and the length of its match, which is not zero. -/
def longestMatch (text : List Char) : Option (Pattern × Nat) :=
  table.foldl (better text) none

end Pattern

end ImpStack

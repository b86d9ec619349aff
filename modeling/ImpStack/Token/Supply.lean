import ImpStack.Token.Tokenizer

/-!
Tokens on demand. From one supply tokens are drawn one at a time, in two ways that may alternate,
and in the end all that are left at once. The one way (`next_token`) goes on delivering the end of
the input, the other one, iteration, stops behind it (SPEC_FULL, section 4.1).
-/
namespace ImpStack

/-- A tokenizer from which tokens are drawn in both ways. -/
structure TokenIterator where
  tokenizer : Tokenizer
  /-- Whether `next?` has delivered the end of the input. -/
  finished : Bool
  deriving DecidableEq, Repr

namespace TokenIterator

def ofScan (source : String) (raws : List RawSpan) : TokenIterator := ⟨.ofScan source raws, false⟩

/-- The next token; at the end of the input the end is delivered again and again. -/
def nextToken (iterator : TokenIterator) : Token × TokenIterator :=
  let (token, tokenizer) := iterator.tokenizer.nextToken
  (token, { iterator with tokenizer })

/-- The next token up to and including the end of the input, and then none. -/
def next? (iterator : TokenIterator) : Option Token × TokenIterator :=
  if iterator.finished then (none, iterator)
  else
    let (token, iterator) := iterator.nextToken
    (some token, { iterator with finished := token.isEof })

/-- The tokens that have not been delivered yet; the last one is the end of the input. -/
def remaining (iterator : TokenIterator) : List Token := iterator.tokenizer.all

end TokenIterator

/-- The ways to draw a single token. -/
inductive Draw where
  | nextToken
  | next
  deriving DecidableEq, Repr

/-- What tokens are drawn from. -/
class TokenSupply (σ : Type) where
  nextToken : σ → Token × σ
  next? : σ → Option Token × σ
  remaining : σ → List Token

instance : TokenSupply TokenStream where
  nextToken := TokenStream.nextToken
  next? := TokenStream.next?
  remaining := TokenStream.remaining

instance : TokenSupply TokenIterator where
  nextToken := TokenIterator.nextToken
  next? := TokenIterator.next?
  remaining := TokenIterator.remaining

namespace TokenSupply

variable {σ : Type} [TokenSupply σ]

/-- The answer to one draw, and the supply behind it. -/
def draw (supply : σ) : Draw → Option Token × σ
  | .nextToken =>
    let (token, supply) := nextToken supply
    (some token, supply)
  | .next => next? supply

/-- The answers to several draws one after another, and the supply that they leave. -/
def drawAll (supply : σ) : List Draw → List (Option Token) × σ
  | [] => ([], supply)
  | first :: later =>
    let (answer, supply) := draw supply first
    let (answers, supply) := drawAll supply later
    (answer :: answers, supply)

theorem drawAll_cons (supply : σ) (first : Draw) (draws : List Draw) :
    drawAll supply (first :: draws) =
      ((draw supply first).1 :: (drawAll (draw supply first).2 draws).1,
        (drawAll (draw supply first).2 draws).2) := rfl

theorem length_drawAll (supply : σ) (draws : List Draw) :
    (drawAll supply draws).1.length = draws.length := by
  induction draws generalizing supply with
  | nil => rfl
  | cons first draws ih => simp [drawAll_cons, ih]

end TokenSupply

end ImpStack

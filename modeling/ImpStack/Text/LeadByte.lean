import ImpStack.Text.DecimalDigit
import ImpStack.Text.Letter

/-!
The first byte of a character in UTF-8. It does not fall as code points grow, so the first bytes of
a run of code points are a run as well.
-/
namespace ImpStack.Text

/-- The first byte of a code point in UTF-8. -/
def leadByte (codePoint : Nat) : Nat :=
  if codePoint < 0x80 then codePoint
  else if codePoint < 0x800 then 0xC0 + codePoint / 0x40
  else if codePoint < 0x10000 then 0xE0 + codePoint / 0x1000
  else 0xF0 + codePoint / 0x40000

/-- Whether the character begins with the same byte as some letter or digit beyond ASCII. -/
def beginsLikeLetter (c : Char) : Bool :=
  0x80 ≤ c.toNat && (Letter.ranges ++ DecimalDigit.ranges).any fun range =>
    leadByte range.1 ≤ leadByte c.toNat && leadByte c.toNat ≤ leadByte range.2

end ImpStack.Text

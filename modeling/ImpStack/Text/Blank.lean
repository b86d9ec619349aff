/-!
Separators between tokens: the set of SPEC_FULL, section 4.1, which is tested by `is_blank`. Wider
than the blanks of ASCII, and narrower than the separators of Unicode by the three that forbid a
line break.
-/
namespace ImpStack.Text

/-- White space that may stand between two tokens. The no-break spaces U+00A0, U+2007 and U+202F
do not separate. -/
def isBlank (c : Char) : Bool :=
  c = ' ' || ('\t' ≤ c && c ≤ '\r') || ('\x1c' ≤ c && c ≤ '\x1f') || c = '\u1680' ||
    ('\u2000' ≤ c && c ≤ '\u2006') || ('\u2008' ≤ c && c ≤ '\u200a') ||
    c = '\u2028' || c = '\u2029' || c = '\u205f' || c = '\u3000'

end ImpStack.Text

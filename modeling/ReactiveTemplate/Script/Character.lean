/-
Character classes of the script.

* `isSpace`, `isLineEnd` — what separates tokens, and what ends a comment on a line;
* `isBreakingSpace`, `isLineBreak` — the spaces and line ends that a statement without a semicolon
  may end at;
* `isNameStart`, `isNamePart` — what a name may start with and go on with;
* `isDecimal`, `isHex`, `isOctal` — digits.
-/

set_option relaxedAutoImplicit false
set_option autoImplicit false

namespace ReactiveTemplate.Script

/-- The four line terminators. -/
def isLineEnd (c : Char) : Bool :=
  c == '\n' || c == '\r' || c == '\u2028' || c == '\u2029'

/-- The line terminators that may stand for a semicolon. A carriage return alone does not. -/
def isLineBreak (c : Char) : Bool :=
  c == '\n' || c == '\u2028' || c == '\u2029'

/-- Characters that separate tokens: the separators of Unicode, the ASCII spaces and the byte order
mark. -/
def isSpace (c : Char) : Bool :=
  let n := c.toNat
  (0x9 ≤ n && n ≤ 0xD) || n == 0x20 || n == 0xA0 || n == 0x1680 || (0x2000 ≤ n && n ≤ 0x200A) ||
    n == 0x2028 || n == 0x2029 || n == 0x202F || n == 0x205F || n == 0x3000 || n == 0xFEFF

/-- The zero-width space and the word joiner, which neither separate tokens nor belong to names. -/
def isInvisible (c : Char) : Bool :=
  c == '\u200b' || c == '\u2060'

/-- Spaces at which a line may be broken: all but the no-break spaces and the byte order mark. -/
def isBreakingSpace (c : Char) : Bool :=
  let n := c.toNat
  (0x9 ≤ n && n ≤ 0xD) || n == 0x20 || n == 0x1680 || (0x2000 ≤ n && n ≤ 0x2006) ||
    (0x2008 ≤ n && n ≤ 0x200A) || n == 0x2028 || n == 0x2029 || n == 0x205F || n == 0x3000

/-- Decimal digits. -/
def isDecimal (c : Char) : Bool :=
  '0' ≤ c && c ≤ '9'

/-- Hexadecimal digits of either case. -/
def isHex (c : Char) : Bool :=
  isDecimal c || ('a' ≤ c && c ≤ 'f') || ('A' ≤ c && c ≤ 'F')

/-- Octal digits. -/
def isOctal (c : Char) : Bool :=
  '0' ≤ c && c ≤ '7'

/-- Letters of either case, and every character beyond ASCII. -/
def isLetter (c : Char) : Bool :=
  ('a' ≤ c && c ≤ 'z') || ('A' ≤ c && c ≤ 'Z') || 0x80 ≤ c.toNat

/-- What a name may start with: letters, `$`, `_` and every character from the last of ASCII on that
can be seen. -/
def isNameStart (c : Char) : Bool :=
  ('a' ≤ c && c ≤ 'z') || ('A' ≤ c && c ≤ 'Z') || c == '$' || c == '_' ||
    (0x7F ≤ c.toNat && !isSpace c && !isInvisible c)

/-- What a name may go on with. -/
def isNamePart (c : Char) : Bool :=
  isNameStart c || isDecimal c

end ReactiveTemplate.Script

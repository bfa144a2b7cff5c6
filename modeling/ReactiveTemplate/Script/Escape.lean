/-
Escape sequences of the script.

* `unicodeEscapeLength` — escapes of a code point, which names and literals may hold;
* `escapeLength` — all escapes of a literal.
-/

import ReactiveTemplate.Script.Character

set_option relaxedAutoImplicit false
set_option autoImplicit false

namespace ReactiveTemplate.Script

/-- The value of a hexadecimal digit. -/
def hexValue (c : Char) : Nat :=
  if isDecimal c then c.toNat - 0x30
  else if 'a' ≤ c then c.toNat - 0x61 + 10
  else c.toNat - 0x41 + 10

/-- The length of the hexadecimal digits, at least one, and the brace that close an escape in
braces. The digits make a code point at most; `value` is what those before make. -/
def bracedEscapeLength (value : Option Nat) : List Char → Option Nat
  | '}' :: _ => if value.isSome then some 1 else none
  | c :: cs =>
    let more := value.getD 0 * 16 + hexValue c
    if isHex c && more ≤ 0x10FFFF then (bracedEscapeLength (some more) cs).map (· + 1) else none
  | [] => none

/-- The length of the escape of a code point that a text starts with: four digits, or any number of
them in braces. -/
def unicodeEscapeLength : List Char → Option Nat
  | '\\' :: 'u' :: '{' :: cs => (bracedEscapeLength none cs).map (· + 3)
  | '\\' :: 'u' :: a :: b :: c :: d :: _ =>
    if isHex a && isHex b && isHex c && isHex d then some 6 else none
  | _ => none

/-- The length of the escape sequence that a text starts with. -/
def escapeLength : List Char → Option Nat
  | '\\' :: 'u' :: cs => unicodeEscapeLength ('\\' :: 'u' :: cs)
  | '\\' :: 'x' :: a :: b :: _ => if isHex a && isHex b then some 4 else none
  | '\\' :: '\r' :: '\n' :: _ => some 3
  | '\\' :: c :: cs =>
    if c == 'x' then none
    else if isOctal c then some (2 + ((cs.take 2).takeWhile isOctal).length)
    else some 2
  | _ => none

end ReactiveTemplate.Script

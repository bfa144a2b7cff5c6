/-
String literals of the generated script.

A literal stands in double quotes. The double quote, the backslash and the characters below
`U+0020` are escaped, five of them by a short escape; all else stands as it is.

* `Text.literalChar`, `Text.literal` — one character of a literal, and the whole literal.
-/

import ReactiveTemplate.Text.Quoted

set_option relaxedAutoImplicit false
set_option autoImplicit false

namespace ReactiveTemplate.Text

/-- One character inside a literal. -/
def literalChar (c : Char) : List Char :=
  if c = '"' then ['\\', '"']
  else if c = '\\' then ['\\', '\\']
  else if c = '\n' then ['\\', 'n']
  else if c = '\r' then ['\\', 'r']
  else if c = '\t' then ['\\', 't']
  else if c = '\x08' then ['\\', 'b']
  else if c = '\x0c' then ['\\', 'f']
  else if c.toNat < 0x20 then '\\' :: 'u' :: hexDigits 4 c.toNat
  else [c]

/-- The characters of the literal that denotes a text. -/
def literalChars (cs : List Char) : List Char :=
  '"' :: (cs.flatMap literalChar ++ ['"'])

/-- The literal that denotes a text. -/
def literal (s : String) : String :=
  String.ofList (literalChars s.toList)

end ReactiveTemplate.Text

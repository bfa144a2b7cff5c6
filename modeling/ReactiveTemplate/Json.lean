/-
JSON values and their text.

* `Json` — the values; members of an object keep their order;
* `Json.pretty` — the text with one member or element a line, indented by two blanks a level, in
  ASCII: every other character is escaped by its UTF-16 units.
-/

import ReactiveTemplate.Text.Quoted

set_option relaxedAutoImplicit false
set_option autoImplicit false

namespace ReactiveTemplate

/-- A JSON value without fractions. -/
inductive Json where
  | null
  | bool (b : Bool)
  | number (n : Int)
  | string (s : String)
  | array (elements : List Json)
  | object (members : List (String × Json))

namespace Json

/-- The array of the strings of a list. -/
def strings (names : List String) : Json :=
  .array (names.map .string)

/-- The escape of one UTF-16 unit. -/
def unitEscape (n : Nat) : List Char :=
  '\\' :: 'u' :: Text.hexDigits 4 n

/-- One character of a string in ASCII. -/
def asciiChar (c : Char) : List Char :=
  let n := c.toNat
  if c = '"' then ['\\', '"']
  else if c = '\\' then ['\\', '\\']
  else if c = '\n' then ['\\', 'n']
  else if c = '\r' then ['\\', 'r']
  else if c = '\t' then ['\\', 't']
  else if c = '\x08' then ['\\', 'b']
  else if c = '\x0c' then ['\\', 'f']
  else if 0x20 ≤ n ∧ n < 0x7F then [c]
  else if n < 0x10000 then unitEscape n
  else unitEscape (0xD800 + (n - 0x10000) / 0x400) ++ unitEscape (0xDC00 + (n - 0x10000) % 0x400)

/-- A string with its quotes, in ASCII. -/
def asciiString (s : String) : String :=
  String.ofList ('"' :: (s.toList.flatMap asciiChar ++ ['"']))

/-- A line end and the blanks of a level. -/
def lineBreak (level : Nat) : String :=
  "\n" ++ String.ofList (List.replicate (2 * level) ' ')

mutual

/-- The text of a value at a level. -/
def prettyAt (level : Nat) : Json → String
  | null => "null"
  | bool b => if b then "true" else "false"
  | number n => toString n
  | string s => asciiString s
  | array [] => "[]"
  | array (x :: xs) =>
    "[" ++ lineBreak (level + 1) ++ prettyElements (level + 1) (x :: xs) ++ lineBreak level ++ "]"
  | object [] => "\x7b\x7d"
  | object (m :: ms) =>
    "\x7b" ++ lineBreak (level + 1) ++ prettyMembers (level + 1) (m :: ms) ++ lineBreak level ++
      "\x7d"

/-- The texts of elements, separated by commas. -/
def prettyElements (level : Nat) : List Json → String
  | [] => ""
  | [x] => prettyAt level x
  | x :: xs => prettyAt level x ++ "," ++ lineBreak level ++ prettyElements level xs

/-- The texts of members, separated by commas. -/
def prettyMembers (level : Nat) : List (String × Json) → String
  | [] => ""
  | [(k, x)] => asciiString k ++ ": " ++ prettyAt level x
  | (k, x) :: ms =>
    asciiString k ++ ": " ++ prettyAt level x ++ "," ++ lineBreak level ++ prettyMembers level ms

end

/-- The text of a value. -/
def pretty (x : Json) : String :=
  prettyAt 0 x

end Json

end ReactiveTemplate

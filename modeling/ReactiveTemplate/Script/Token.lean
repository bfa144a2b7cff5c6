/-
Tokens of the script.

The next token is read off the characters at a cursor whenever the grammar asks for it. A slash is
read as a punctuator here; whether it opens a regular expression is for the grammar to say.

* `Token`, `Token.ofChars` — the tokens, and the one a text starts with, with its length;
* `wordLength`, `numberLength`, `regexPatternLength` — the longest word, number or pattern of a
  regular expression that a text starts with;
* `isReserved` — words that cannot be used as names.
-/

import ReactiveTemplate.Script.Escape

set_option relaxedAutoImplicit false
set_option autoImplicit false

namespace ReactiveTemplate.Script

/-! ### Words -/

/-- How many characters of a text go on a word, the first `escaped` of them because they belong to
an escape that is open. -/
def wordPartLength : Nat → List Char → Nat
  | _, [] => 0
  | escaped + 1, _ :: cs => wordPartLength escaped cs + 1
  | 0, c :: cs =>
    if isNamePart c then wordPartLength 0 cs + 1
    else
      match unicodeEscapeLength (c :: cs) with
      | some n => wordPartLength (n - 1) cs + 1
      | none => 0

/-- The length of the word that a text starts with; zero when it starts with none. -/
def wordLength : List Char → Nat
  | c :: cs => if isNameStart c || c == '\\' then wordPartLength 0 (c :: cs) else 0
  | [] => 0

/-- Words that cannot be used as names. -/
def reservedWords : List String :=
  ["break", "case", "catch", "class", "const", "continue", "debugger", "default", "delete", "do",
    "else", "enum", "export", "extends", "false", "finally", "for", "function", "if", "import", "in",
    "instanceof", "new", "null", "return", "super", "switch", "this", "throw", "true", "try",
    "typeof", "var", "void", "while", "with"]

/-- Whether a word cannot be used as a name. -/
def isReserved (w : String) : Bool :=
  reservedWords.contains w

/-! ### Numbers -/

/-- The length of a run of digits in which single underscores may separate digits. -/
def digitsLength (digit : Char → Bool) : List Char → Nat
  | c :: '_' :: d :: cs =>
    if digit c && digit d then digitsLength digit (d :: cs) + 2
    else if digit c then 1 else 0
  | c :: cs => if digit c then digitsLength digit cs + 1 else 0
  | [] => 0

/-- The length of an exponent, such as `e-7`; zero when there is none. -/
def exponentLength : List Char → Nat
  | e :: cs =>
    if e == 'e' || e == 'E' then
      match cs with
      | s :: ds =>
        if s == '+' || s == '-' then
          let n := digitsLength isDecimal ds
          if n = 0 then 0 else n + 2
        else
          let n := digitsLength isDecimal cs
          if n = 0 then 0 else n + 1
      | [] => 0
    else 0
  | [] => 0

/-- One more when the rest starts with the mark of a big integer. -/
def withBigMark (n : Nat) (rest : List Char) : Nat :=
  if rest.head? = some 'n' then n + 1 else n

/-- The length of a number with a radix mark, such as `0xff`; zero when there is none. -/
def radixLength : List Char → Nat
  | '0' :: r :: cs =>
    let digit : Option (Char → Bool) :=
      if r == 'x' || r == 'X' then some isHex
      else if r == 'b' || r == 'B' then some fun c => c == '0' || c == '1'
      else if r == 'o' || r == 'O' then some fun c => '0' ≤ c && c ≤ '7'
      else none
    match digit with
    | some p =>
      let n := digitsLength p cs
      if n = 0 then 0 else withBigMark (n + 2) (cs.drop n)
    | none => 0
  | _ => 0

/-- The length of digits with a fraction and an exponent behind them as far as there are; zero when
there are no digits. Without these the mark of a big integer may follow when `big`. -/
def fractionLength (big : Bool) (whole : Nat) (cs : List Char) : Nat :=
  match cs.drop whole with
  | '.' :: ds =>
    let fraction := digitsLength isDecimal ds
    if whole = 0 ∧ fraction = 0 then 0
    else
      let n := whole + 1 + fraction
      n + exponentLength (cs.drop n)
  | rest =>
    if whole = 0 then 0
    else
      let e := exponentLength rest
      if e ≠ 0 then whole + e else if big then withBigMark whole rest else whole

/-- The length of the number without a radix mark that a text starts with; zero when it starts with
none. Digits that start with a needless zero are octal, if they can be. -/
def decimalLength (cs : List Char) : Nat :=
  match cs with
  | '0' :: c :: _ =>
    if isDecimal c then
      let digits := cs.takeWhile isDecimal
      if digits.all isOctal then digits.length else fractionLength false digits.length cs
    else fractionLength true 1 cs
  | _ => fractionLength true (digitsLength isDecimal cs) cs

/-- The length of the number that a text starts with; zero when it starts with none. -/
def numberLength (cs : List Char) : Nat :=
  let radix := radixLength cs
  if radix ≠ 0 then radix else decimalLength cs

/-! ### Regular expressions -/

/-- The length of the pattern of a regular expression up to its closing slash. `inClass` tells that
a character class is open. There is none when the line ends first. -/
def regexPatternLength : Bool → List Char → Option Nat
  | _, [] => none
  | inClass, '\\' :: c :: cs =>
    if isLineEnd c then none else (regexPatternLength inClass cs).map (· + 2)
  | inClass, c :: cs =>
    if isLineEnd c || c == '\\' then none
    else if c == '[' then (regexPatternLength true cs).map (· + 1)
    else if c == ']' then (regexPatternLength false cs).map (· + 1)
    else if c == '/' && !inClass then some 0
    else (regexPatternLength inClass cs).map (· + 1)

/-- The flags of a regular expression are small letters. -/
def isRegexFlag (c : Char) : Bool :=
  'a' ≤ c && c ≤ 'z'

/-! ### Tokens -/

/-- All punctuators, each before every other that it starts with. -/
def punctuators : List (String × List Char) :=
  [">>>=", "...", "===", "!==", "**=", "<<=", ">>=", ">>>", "&&=", "||=", "??=", "=>", "==", "!=",
    "<=", ">=", "&&", "||", "??", "?.", "++", "--", "+=", "-=", "*=", "/=", "%=", "&=", "|=", "^=",
    "**", "<<", ">>", "\x7b", "\x7d", "(", ")", "[", "]", ";", ",", "<", ">", "+", "-", "*", "/",
    "%", "&", "|", "^", "!", "~", "?", ":", "=", "."].map fun s => (s, s.toList)

/-- The longest punctuator that a text starts with. A question mark and a point before a digit are
two punctuators. -/
def punctuator? (cs : List Char) : Option (String × Nat) :=
  match cs with
  | '?' :: '.' :: d :: _ =>
    if isDecimal d then some ("?", 1) else some ("?.", 2)
  | _ => (punctuators.find? fun p => p.2.isPrefixOf cs).map fun p => (p.1, p.2.length)

/-- A token of the script. -/
inductive Token where
  /-- A name or keyword. -/
  | word (text : String)
  /-- A name behind a number sign. -/
  | privateName
  | number
  | punctuator (text : String)
  /-- A quote that opens a string. -/
  | quote (mark : Char)
  /-- The quote that opens a template. -/
  | backtick
  /-- The end of the text. -/
  | finish
  /-- A character that starts no token. -/
  | stray
  deriving DecidableEq, Repr

/-- The token of a number: no name and no digit may follow it directly. -/
def numberToken (behind : List Char) : Token :=
  if behind.head?.any fun c => isNamePart c || c == '\\' then .stray else .number

/-- The token that a text starts with, and its length in characters. Of a string or template it is
the opening quote only. -/
def Token.ofChars (cs : List Char) : Token × Nat :=
  match cs with
  | [] => (.finish, 0)
  | c :: rest =>
    let w := wordLength cs
    if w ≠ 0 then (.word (String.ofList (cs.take w)), w)
    else
      let n := numberLength cs
      if n ≠ 0 then (numberToken (cs.drop n), n)
      else if c == '"' || c == '\'' then (.quote c, 1)
      else if c == '\x60' then (.backtick, 1)
      else if c == '#' then
        let k := wordLength rest
        if k ≠ 0 then (.privateName, k + 1) else (.stray, 1)
      else
        match punctuator? cs with
        | some (text, k) => (.punctuator text, k)
        | none => (.stray, 1)

end ReactiveTemplate.Script

/-
The frame of the script's grammar.

A parser reads a part of the script at a cursor and moves the cursor behind it, or fails. The rules
of the grammar call each other in circles, so each rule is written against a record of parsers for
the parts that may hold a part of its own kind again, and `Grammar` is that record. The circle is
closed where the grammar is complete, by giving the rules records of growing depth.

* `Place` — what the surroundings of a part say about it;
* `Parser` — parsers, with alternatives tried in order from the same cursor;
* `Grammar` — the parsers that rules call for nested parts;
* `punctuator`, `keyword`, `nodeFrom`, … — what rules are made of;
* `repeatUntil`, `iterate`, `separated` — repetition, bounded by the characters that are left.
-/

import ReactiveTemplate.Script.LineEnd
import ReactiveTemplate.Script.Node
import ReactiveTemplate.Script.Token

set_option relaxedAutoImplicit false
set_option autoImplicit false

namespace ReactiveTemplate.Script

/-- What the surroundings of a part say about it. -/
structure Place where
  /-- The word `in` is an operator. -/
  inOperator : Bool
  /-- The statement may end with the part, without a semicolon. -/
  lineEnds : Bool
  deriving DecidableEq, Repr

/-- In a statement or a field of a class. -/
def Place.statement : Place := ⟨true, true⟩

/-- Between two tokens that belong together, such as parentheses. -/
def Place.enclosed : Place := ⟨true, false⟩

/-- In the head of a loop, before the word or semicolon that tells what loop it is. -/
def Place.head : Place := ⟨false, false⟩

/-- Parsers of a part of the script. -/
abbrev Parser := ReaderT Place (StateT Cursor Option)

/-- Reads a part at a given place. -/
def within {α : Type} (place : Place) (p : Parser α) : Parser α :=
  fun _ => p place

/-- The parsers that a rule calls for parts which may nest. -/
structure Grammar where
  /-- An expression, or several separated by commas. -/
  expression : Parser Node
  /-- An expression without a comma of its own. -/
  assignment : Parser Node
  /-- An expression without a comma of its own, or an array or object that covers a pattern. -/
  cover : Parser Node
  /-- Operands joined by binary operators of at least the given level. -/
  binary : Nat → Parser Node
  /-- An operand with its prefix operators. -/
  unary : Parser Node
  /-- A value with the accesses and calls applied to it. -/
  access : Parser Node
  /-- What follows `new`: a value with accesses, but no calls. -/
  callee : Parser Node
  /-- What a declaration may bind. -/
  pattern : Parser Node
  /-- A statement. -/
  statement : Parser Node

/-- The grammar whose parsers all fail. -/
def Grammar.empty : Grammar :=
  ⟨failure, failure, failure, fun _ => failure, failure, failure, failure, failure, failure⟩

/-! ### Single tokens -/

/-- The next token and its length. -/
def peekSized : Parser (Token × Nat) := do
  return Token.ofChars (← get).rest

/-- The next token. -/
def peek : Parser Token := do
  return (← peekSized).1

/-- The token behind the next one. -/
def peekSecond : Parser Token := do
  let cursor ← get
  return (Token.ofChars (cursor.take (Token.ofChars cursor.rest).2).rest).1

/-- Whether a line ended before the next token. -/
def newlineAhead : Parser Bool := do
  return (← get).newline

/-- Whether a line ends behind the next token. -/
def newlineBehindNext : Parser Bool := do
  let cursor ← get
  return (cursor.take (Token.ofChars cursor.rest).2).newline

/-- Whether the statement ends before the next token without a semicolon. `operator` tells whether
an operator could go on with it. -/
def atStatementEnd (operator : Bool) : Parser Bool := do
  return (← read).lineEnds && (← get).endsStatement operator

/-- Whether the statement ends behind the next token without a semicolon, the token being a value. -/
def endsBehindNext : Parser Bool := do
  let cursor ← get
  let next := cursor.take (Token.ofChars cursor.rest).2
  return (← read).lineEnds && next.endsStatement true

/-- Moves past the next token. -/
def advance : Parser Unit := do
  let (_, n) ← peekSized
  modify (Cursor.take n)

/-- Goes on only if a condition holds. -/
def require (b : Bool) : Parser Unit :=
  if b then pure () else failure

/-- Whether the next token is a punctuator. -/
def atPunctuator (text : String) : Parser Bool := do
  return (← peek) == .punctuator text

/-- Whether the next token is a word. -/
def atWord (text : String) : Parser Bool := do
  return (← peek) == .word text

/-- Takes a punctuator. -/
def punctuator (text : String) : Parser Unit := do
  require (← atPunctuator text)
  advance

/-- Takes a keyword. -/
def keyword (text : String) : Parser Unit := do
  require (← atWord text)
  advance

/-- Takes a punctuator if it is next, and tells whether it was. -/
def tryPunctuator (text : String) : Parser Bool := do
  if ← atPunctuator text then
    advance
    return true
  else
    return false

/-- Takes a keyword if it is next, and tells whether it was. -/
def tryKeyword (text : String) : Parser Bool := do
  if ← atWord text then
    advance
    return true
  else
    return false

/-- Whether nothing goes on with a statement: its line, its block or the text ends before the next
token. -/
def atLineStart : Parser Bool := do
  match ← peek with
  | .punctuator "\x7d" | .finish => return true
  | _ => newlineAhead

/-- Ends a statement: by a semicolon, or where none is needed. `operator` tells whether an operator
could go on with it. -/
def semicolon (operator : Bool) : Parser Unit := do
  if !(← atStatementEnd operator) then
    if !(← tryPunctuator ";") then
      require (← atLineStart)

/-! ### Nodes -/

/-- Byte offset of the next token. -/
def here : Parser Nat := do
  return (← get).pos

/-- A node from a byte offset to the end of the last token taken. -/
def nodeFrom (kind : Kind) (start : Nat) (children : List Node) : Parser Node := do
  return .mk kind .plain start (← get).stop 0 children

/-- A leaf made of the next token. -/
def leaf (kind : Kind) : Parser Node := do
  let start ← here
  advance
  nodeFrom kind start []

/-- A name as a leaf of a given kind. -/
def nameLeaf (kind : Kind) : Parser Node := do
  match ← peek with
  | .word w =>
    require (!isReserved w)
    leaf kind
  | _ => failure

/-- A name that reads or binds a variable. -/
def identifier : Parser Node :=
  nameLeaf .identifier

/-! ### Repetition -/

/-- As many repetitions as there may be tokens left. -/
def roundsLeft : Parser Nat := do
  return (← get).rest.length + 1

/-- Repeats a parser until a condition holds, at most `n` times. -/
def repeatAtMost {α : Type} (done : Parser Bool) (p : Parser α) : Nat → Parser (List α)
  | 0 => failure
  | n + 1 => do
    if ← done then
      return []
    else
      let x ← p
      let xs ← repeatAtMost done p n
      return x :: xs

/-- Repeats a parser until a condition holds. -/
def repeatUntil {α : Type} (done : Parser Bool) (p : Parser α) : Parser (List α) := do
  repeatAtMost done p (← roundsLeft)

/-- Extends a value step by step while there is a step, at most `n` times. -/
def iterateAtMost {α : Type} (step : α → Parser (Option α)) : Nat → α → Parser α
  | 0, x => pure x
  | n + 1, x => do
    match ← step x with
    | some y => iterateAtMost step n y
    | none => return x

/-- Extends a value step by step while there is a step. -/
def iterate {α : Type} (step : α → Parser (Option α)) (x : α) : Parser α := do
  iterateAtMost step (← roundsLeft) x

/-- Parts separated by commas up to a closing punctuator, which is taken; a comma may stand before
it. -/
def separated (close : String) (p : Parser Node) : Parser (List Node) := do
  let items ← repeatUntil (atPunctuator close) do
    let x ← p
    if ← atPunctuator close then
      return x
    else
      punctuator ","
      return x
  punctuator close
  return items

/-- Parts separated by commas up to a closing punctuator, which is taken; parts may be left out. -/
def separatedWithHoles (close : String) (p : Parser Node) : Parser (List Node) := do
  let items ← repeatUntil (atPunctuator close) do
    if ← tryPunctuator "," then
      return []
    else
      let x ← p
      if ← atPunctuator close then
        return [x]
      else
        punctuator ","
        return [x]
  punctuator close
  return items.flatten

end ReactiveTemplate.Script

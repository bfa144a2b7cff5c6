/-
Where a statement ends without a semicolon.

Behind a token that may be the last one of a statement, the text is searched for a reason to end
the statement there: a closing brace, the end of the text, or a line end that nothing follows which
goes on with the statement. Comments on the way are passed over. A line that ends in a comment, or
inside one, counts only if no operator could have gone on with the statement; the search that starts
behind the comment finds the line end in the other cases.

* `opensStatement` — whether a line opens with what cannot go on with a statement;
* `LineSearch`, `findsEnd` — the search from one place on;
* `Cursor.endsStatement` — whether the statement ends behind the last token.
-/

import ReactiveTemplate.Script.Cursor

set_option relaxedAutoImplicit false
set_option autoImplicit false

namespace ReactiveTemplate.Script

/-- Characters that go on with a statement when a line opens with one. -/
def goingOn : List Char :=
  ['\x60', ',', ':', ';', '*', '%', '>', '<', '=', '[', '(', '?', '^', '|', '&', '/']

/-- Whether a line that opens with an `i` and the given characters opens with something else than
the operators `in` and `instanceof`. -/
def opensWithOtherWord : List Char → Bool
  | 'n' :: cs =>
    let more := "stanceof".toList
    if !(cs.head?.any isLetter) then false
    else if more.isPrefixOf cs then (cs.drop more.length).head?.any isLetter
    else true
  | _ => true

/-- Whether a line opens with what cannot go on with a statement. -/
def opensStatement : List Char → Bool
  | [] => true
  | '.' :: cs => cs.head?.any isDecimal
  | '+' :: cs => cs.head? == some '+'
  | '-' :: cs => cs.head? == some '-'
  | '!' :: cs => cs.head? != some '='
  | 'i' :: cs => opensWithOtherWord cs
  | c :: _ => !goingOn.contains c

/-- Where the search for the end of a statement is. -/
inductive LineSearch where
  /-- On the line of the last token. -/
  | sameLine
  /-- In a line comment that starts on that line. -/
  | lineComment
  /-- In a block comment that starts on that line; `broken` tells whether a line ended in it. -/
  | blockComment (broken : Bool)
  /-- Directly behind such a block comment. -/
  | behindBlock (broken : Bool)
  /-- Behind such a line comment. -/
  | behindLine
  /-- On a later line. -/
  | laterLine
  /-- In a line comment on a later line. -/
  | laterLineComment
  /-- In a block comment on a later line. -/
  | laterBlockComment
  deriving DecidableEq, Repr

/-- Whether the statement ends where a comment on its last line is followed by the given character.
`operator` tells whether an operator could go on with the statement. -/
def endsAtComment (operator : Bool) (next : Option Char) : Bool :=
  !operator && next != some ',' && next != some '='

/-- Whether a search finds the end of a statement. `operator` tells whether an operator could go on
with the statement. -/
def findsEnd (operator : Bool) : LineSearch → List Char → Bool
  | .sameLine, [] => true
  | .sameLine, '/' :: '/' :: cs => findsEnd operator .lineComment cs
  | .sameLine, '/' :: '*' :: cs => findsEnd operator (.blockComment false) cs
  | .sameLine, '}' :: _ => true
  | .sameLine, c :: cs =>
    if isLineBreak c then findsEnd operator .laterLine cs
    else isBreakingSpace c && findsEnd operator .sameLine cs
  | .lineComment, [] => endsAtComment operator none
  | .lineComment, c :: cs =>
    if isLineBreak c then findsEnd operator .behindLine cs else findsEnd operator .lineComment cs
  | .blockComment _, [] => endsAtComment operator none
  | .blockComment broken, '*' :: '/' :: cs => findsEnd operator (.behindBlock broken) cs
  | .blockComment broken, c :: cs => findsEnd operator (.blockComment (broken || isLineBreak c)) cs
  | .behindBlock broken, [] => broken && endsAtComment operator none
  | .behindBlock _, '/' :: '/' :: cs => findsEnd operator .lineComment cs
  | .behindBlock broken, '/' :: '*' :: cs => findsEnd operator (.blockComment broken) cs
  | .behindBlock _, '/' :: _ => false
  | .behindBlock broken, c :: cs =>
    if broken && endsAtComment operator (some c) then true
    else if c == '}' then true
    else if isLineBreak c then findsEnd operator .laterLine cs
    else isBreakingSpace c && findsEnd operator .sameLine cs
  | .behindLine, [] => endsAtComment operator none
  | .behindLine, '/' :: '/' :: cs => findsEnd operator .lineComment cs
  | .behindLine, '/' :: '*' :: cs => findsEnd operator (.blockComment false) cs
  | .behindLine, '/' :: _ => false
  | .behindLine, c :: cs =>
    if isBreakingSpace c then findsEnd operator .behindLine cs
    else c == '}' || endsAtComment operator (some c)
  | .laterLine, [] => true
  | .laterLine, '/' :: '/' :: cs => findsEnd operator .laterLineComment cs
  | .laterLine, '/' :: '*' :: cs => findsEnd operator .laterBlockComment cs
  | .laterLine, c :: cs =>
    if isBreakingSpace c then findsEnd operator .laterLine cs else opensStatement (c :: cs)
  | .laterLineComment, [] => true
  | .laterLineComment, c :: cs =>
    if isLineBreak c then findsEnd operator .laterLine cs
    else findsEnd operator .laterLineComment cs
  | .laterBlockComment, [] => true
  | .laterBlockComment, '*' :: '/' :: cs => findsEnd operator .laterLine cs
  | .laterBlockComment, _ :: cs => findsEnd operator .laterBlockComment cs

/-- Whether a statement ends behind the last token taken, or behind a comment that follows it.
`operator` tells whether an operator could go on with the statement. -/
def Cursor.endsStatement (operator : Bool) (c : Cursor) : Bool :=
  (c.behind :: c.behindComments).any (findsEnd operator .sameLine)

end ReactiveTemplate.Script

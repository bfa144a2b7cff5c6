/-
Literals of the script: strings, templates and regular expressions.

Inside a literal nothing is skipped, so the rules here move over single characters.

* `stringLiteral`, `templateLiteral`, `regexLiteral` — the literals, with their pieces as children.
-/

import ReactiveTemplate.Script.Grammar

set_option relaxedAutoImplicit false
set_option autoImplicit false

namespace ReactiveTemplate.Script

/-- Whether the next character is the given one. -/
def atChar (c : Char) : Parser Bool := do
  return (← get).rest.head? == some c

/-- A leaf made of the next `n` characters, at least one. -/
def rawLeaf (kind : Kind) (n : Nat) : Parser Node := do
  require (n != 0)
  let start ← here
  modify (Cursor.takeRaw n)
  nodeFrom kind start []

/-- An escape sequence. -/
def escapeSequence : Parser Node := do
  match escapeLength (← get).rest with
  | some n => rawLeaf .escapeSequence n
  | none => failure

/-- How many characters of a string go without an escape. -/
def plainLength (mark : Char) : List Char → Nat
  | c :: cs =>
    if c == mark || c == '\\' || c == '\n' || c == '\r' then 0 else plainLength mark cs + 1
  | [] => 0

/-- A string in the given quotes. -/
def stringLiteral : Parser Node := do
  match ← peek with
  | .quote mark =>
    let start ← here
    modify (Cursor.takeRaw 1)
    let pieces ← repeatUntil (atChar mark) do
      if ← atChar '\\' then
        escapeSequence
      else
        rawLeaf .stringFragment (plainLength mark (← get).rest)
    modify (Cursor.take 1)
    nodeFrom .string start pieces
  | _ => failure

/-- How many characters of a template go before an escape, a substitution or its end. -/
def templateTextLength : List Char → Nat
  | '$' :: '{' :: _ => 0
  | c :: cs => if c == '\x60' || c == '\\' then 0 else templateTextLength cs + 1
  | [] => 0

/-- An expression in a template, with the braces around it. -/
def templateSubstitution (g : Grammar) : Parser Node := do
  let start ← here
  modify (Cursor.take 2)
  let inner ← within .enclosed g.expression
  require (← atPunctuator "\x7d")
  modify (Cursor.takeRaw 1)
  nodeFrom .templateSubstitution start [inner]

/-- A template. -/
def templateLiteral (g : Grammar) : Parser Node := do
  require ((← peek) == .backtick)
  let start ← here
  modify (Cursor.takeRaw 1)
  let pieces ← repeatUntil (atChar '\x60') do
    let n := templateTextLength (← get).rest
    if n ≠ 0 then
      rawLeaf .stringFragment n
    else if ← atChar '\\' then
      escapeSequence
    else
      require (['$', '{'].isPrefixOf (← get).rest)
      templateSubstitution g
  modify (Cursor.take 1)
  nodeFrom .templateString start pieces

/-- A regular expression: a pattern between slashes, and flags. -/
def regexLiteral : Parser Node := do
  let start ← here
  require (← atChar '/')
  modify (Cursor.takeRaw 1)
  require (!(← atChar '*'))
  match regexPatternLength false (← get).rest with
  | some n =>
    let pattern ← rawLeaf .regexPattern n
    modify (Cursor.takeRaw 1)
    let flags := ((← get).rest.takeWhile isRegexFlag).length
    if flags = 0 then
      modify Cursor.settle
      nodeFrom .regex start [pattern]
    else
      let flagsNode ← rawLeaf .regexFlags flags
      modify Cursor.settle
      nodeFrom .regex start [pattern, flagsNode]
  | none => failure

end ReactiveTemplate.Script

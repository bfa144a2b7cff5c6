/-
Expressions of the script.

* `assignmentFrom`, `assignmentWith` — assignments and conditionals from their first operand on;
* `literalFirst`, `groupFirst`, `asyncGroupFirst`, `wordFirst` — expressions by what they start with;
* `assignmentRule` — arrow functions, assignments and conditionals;
* `expressionRule` — expressions separated by commas.
-/

import ReactiveTemplate.Script.Operators

set_option relaxedAutoImplicit false
set_option autoImplicit false

namespace ReactiveTemplate.Script

/-! ### Assignments and conditionals -/

/-- What follows the first operand: more operands, then an assignment to what stands there, a
conditional, or neither. -/
def assignmentFrom (g : Grammar) (first : Node) : Parser Node := do
  let left ← joinFrom g 1 first
  match assignmentKind? left (← peek) with
  | some kind => assignTo g left kind
  | none =>
    if ← tryPunctuator "?" then
      let yes ← within .enclosed g.assignment
      punctuator ":"
      let no ← g.assignment
      nodeFrom .ternaryExpression left.start
        [left.withRole .condition, yes.withRole .consequence, no.withRole .alternative]
    else
      return left

/-- An expression that starts with the given value. -/
def assignmentWith (g : Grammar) (value : Node) : Parser Node := do
  assignmentFrom g (← postfixOf g value)

/-- Whether a part of an array, object or list ends before the next token. -/
def atPartEnd : Parser Bool := do
  match ← peek with
  | .punctuator p => return p == "," || p == "]" || p == "\x7d" || p == ")"
  | _ => return false

/-- An expression that starts with an array or object. With `lenient` the array or object may be
left as one that covers a pattern, if it is the whole expression. -/
def literalFirst (g : Grammar) (lenient : Bool) : Parser Node := do
  let literal ← coverLiteral g
  if ← atPunctuator "=" then
    match asPattern? true literal with
    | some pattern => assignmentFrom g pattern
    | none => failure
  else if lenient && (← atPartEnd) then
    return literal
  else
    require (isValue literal)
    assignmentWith g literal

/-- Whether a token is a name that is no keyword. -/
def startsName : Token → Bool
  | .word w => !isReserved w
  | _ => false

/-- An expression that starts with an arrow function. What stands on the line behind a body in braces
may call the function, access it or operate on it. -/
def arrowWith (g : Grammar) (arrow : Node) : Parser Node := do
  let closed := (arrow.child? .body).any (·.kind == .statementBlock)
  if closed && (← atContinuation fun t => goesOn t || t == .punctuator "/") then
    assignmentWith g arrow
  else
    return arrow

/-- An expression that starts with an arrow function whose parameters are the parts of a list in
parentheses that starts at `opening`. -/
def groupArrow (g : Grammar) (start opening : Nat) (parts : List (Node × Bool)) :
    Parser Node := do
  let nodes := parts.map Prod.fst
  require (restIsLast nodes && parts.all fun part => part.1.kind != .spreadElement || !part.2)
  match asPatterns? false nodes with
  | some parameters =>
    let list ← nodeFrom .formalParameters opening parameters
    arrowWith g (← arrowTail g start (list.withRole .parameters))
  | none => failure

/-- An expression that starts with a parenthesis: an arrow function, or one that starts with a
value in parentheses. -/
def groupFirst (g : Grammar) : Parser Node := do
  let start ← here
  let parts ← groupParts g
  if ← atPunctuator "=>" then
    groupArrow g start start parts
  else
    match groupValue? parts with
    | some inner => assignmentWith g (← nodeFrom .parenthesizedExpression start [inner])
    | none => failure

/-- An expression that starts with `async` and a parenthesis: an arrow function, or one that starts
with a call. -/
def asyncGroupFirst (g : Grammar) : Parser Node := do
  let start ← here
  let broken ← newlineBehindNext
  let callee ← identifier
  let opening ← here
  let parts ← groupParts g
  if !broken && (← atPunctuator "=>") then
    groupArrow g start opening parts
  else
    assignmentWith g (← groupCall callee opening parts)

/-- An expression that starts with a word. -/
def wordFirst (g : Grammar) (w : String) : Parser Node := do
  let start ← here
  let second ← peekSecond
  if !isReserved w && second == .punctuator "=>" then
    arrowWith g (← nameArrow g start)
  else if w == "async" && second == .punctuator "(" then
    asyncGroupFirst g
  else if w == "async" && startsName second && !(← newlineBehindNext) then
    advance
    arrowWith g (← nameArrow g start)
  else if w == "yield" then
    assignmentFrom g (← yieldExpression g true)
  else
    assignmentFrom g (← unaryRule g)

/-- An expression without a comma of its own. With `lenient` it may be left as an array or object
that covers a pattern. -/
def assignmentRule (g : Grammar) (lenient : Bool) : Parser Node := do
  match ← peek with
  | .word w => wordFirst g w
  | .punctuator "(" => groupFirst g
  | .punctuator "[" | .punctuator "\x7b" => literalFirst g lenient
  | _ => assignmentFrom g (← firstOperand g 1)

/-- One expression, or several separated by commas. -/
def expressionRule (g : Grammar) : Parser Node := do
  let start ← here
  let first ← g.assignment
  if ← atPunctuator "," then
    let more ← repeatUntil (do return !(← atPunctuator ",")) do
      punctuator ","
      g.assignment
    nodeFrom .sequenceExpression start (first :: more)
  else
    return first

end ReactiveTemplate.Script

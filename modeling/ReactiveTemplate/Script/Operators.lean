/-
Operators of the script and their operands.

An operand that nothing can follow on its own line ends a statement there, but for a token on the
next line that goes on with it.

* `postfixOf` — values with an operator behind them that counts them up or down;
* `yieldExpression`, `awaitOperand` — `yield` and `await`, which may be names as well;
* `groupParts`, `groupValue?`, `groupCall` — lists in parentheses before it is known what they are;
* `unaryRule` — operands with operators in front of them;
* `binaryRule` — operands joined by operators, by the level of these.
-/

import ReactiveTemplate.Script.Values

set_option relaxedAutoImplicit false
set_option autoImplicit false

namespace ReactiveTemplate.Script

/-! ### Kinds of tokens -/

/-- Operators in front of their operand that change nothing. -/
def isPrefixOperator : Token → Bool
  | .punctuator p => p == "!" || p == "~" || p == "-" || p == "+"
  | .word w => w == "typeof" || w == "void" || w == "delete"
  | _ => false

/-- The operators that count up or down. -/
def isUpdateOperator : Token → Bool
  | .punctuator p => p == "++" || p == "--"
  | _ => false

/-- Whether a token can start an operand. -/
def startsOperand : Token → Bool
  | .word w => w != "in" && w != "instanceof"
  | .number | .quote _ | .backtick => true
  | .punctuator p =>
    ["(", "[", "\x7b", "!", "~", "+", "-", "++", "--", "/", "/="].contains p
  | _ => false

/-- Whether a token can both start an operand and go on with a value. -/
def goesOn : Token → Bool
  | .backtick => true
  | .punctuator p => p == "(" || p == "[" || p == "+" || p == "-"
  | _ => false

/-- Whether a token on the next line goes on with a value that nothing can follow on its own line. A
statement could have ended between them. -/
def atContinuation (continues : Token → Bool) : Parser Bool := do
  return (← read).lineEnds && (← newlineAhead) && continues (← peek)

/-- The operators of compound assignments. -/
def isCompoundAssignment : Token → Bool
  | .punctuator p =>
    ["+=", "-=", "*=", "/=", "%=", "**=", "<<=", ">>=", ">>>=", "&=", "^=", "|=", "&&=", "||=",
      "??="].contains p
  | _ => false

/-- Whether a node may stand on the left of an assignment. -/
def isTarget (n : Node) : Bool :=
  match n.kind with
  | .identifier | .undefinedValue | .memberExpression | .subscriptExpression
  | .parenthesizedExpression | .arrayPattern | .objectPattern => true
  | _ => false

/-- The kind of assignment that a token makes with what stands before it on the left. -/
def assignmentKind? (left : Node) (token : Token) : Option Kind :=
  if !isTarget left then none
  else if token == .punctuator "=" then some .assignmentExpression
  else if isCompoundAssignment token then some .augmentedAssignmentExpression
  else none

/-- An assignment of what stands behind the operator. -/
def assignTo (g : Grammar) (left : Node) (kind : Kind) : Parser Node := do
  advance
  let right ← g.assignment
  nodeFrom kind left.start [left.withRole .left, right.withRole .right]

/-! ### Operators behind an operand -/

/-- An operator that counts an operand up or down behind it on the same line. A parenthesis or
bracket on the next line calls or accesses the result, which makes a new operand or is assigned to;
tells whether it is a new operand. -/
def updateStep (g : Grammar) (operand : Node × Bool) : Parser (Option (Node × Bool)) := do
  if operand.2 && isUpdateOperator (← peek) && !(← newlineAhead) then
    advance
    let update ← nodeFrom .updateExpression operand.1.start [operand.1.withRole .argument]
    if ← atContinuation fun t => t == .punctuator "(" || t == .punctuator "[" then
      let accessed ← iterate (accessStep g true) update
      match assignmentKind? accessed (← peek) with
      | some kind => return some (← assignTo g accessed kind, false)
      | none => return some (accessed, true)
    else
      return some (update, false)
  else
    return none

/-- A value with the accesses and calls applied to it, and an operator behind it that counts it up or
down. -/
def postfixOf (g : Grammar) (value : Node) : Parser Node := do
  let operand ← iterate (accessStep g true) value
  return (← iterate (updateStep g) (operand, true)).1

/-- A `yield` expression. When it is a whole expression, any operand on the same line is its own;
otherwise only one that the word, taken as a value, could go on with. Without an operand it may be
accessed like a value. -/
def yieldExpression (g : Grammar) (whole : Bool) : Parser Node := do
  let start ← here
  keyword "yield"
  if ← atStatementEnd true then
    nodeFrom .yieldExpression start []
  else
    let token ← peek
    let own := whole && !(← newlineAhead) && (startsOperand token || token == .privateName)
    if (← tryPunctuator "*") || own || goesOn token then
      let operand ← g.assignment
      nodeFrom .yieldExpression start [operand]
    else
      postfixOf g (← nodeFrom .yieldExpression start [])

/-! ### Lists in parentheses -/

/-- The parts of a list in parentheses, each with whether a comma follows it. -/
def groupParts (g : Grammar) : Parser (List (Node × Bool)) := do
  punctuator "("
  let parts ← within .enclosed <| repeatUntil (atPunctuator ")") do
    let part ← spreadOr g.cover
    if ← atPunctuator ")" then
      return (part, false)
    else
      punctuator ","
      return (part, true)
  punctuator ")"
  return parts

/-- The expression that the parts of a list in parentheses make. -/
def groupValue? (parts : List (Node × Bool)) : Option Node :=
  let nodes := parts.map Prod.fst
  let closed := (parts.getLast?.map Prod.snd) == some false
  if closed && areValues nodes && nodes.all (fun n => n.kind != .spreadElement) then
    match nodes, nodes.getLast? with
    | [only], _ => some only
    | first :: _, some last =>
      some (.mk .sequenceExpression .plain first.start last.stop 0 nodes)
    | [], _ => none
    | _, none => none
  else
    none

/-- The call of a name with the parts of a list in parentheses that starts at `opening`. -/
def groupCall (callee : Node) (opening : Nat) (parts : List (Node × Bool)) : Parser Node := do
  let nodes := parts.map Prod.fst
  require (areValues nodes)
  let arguments ← nodeFrom .arguments opening nodes
  nodeFrom .callExpression callee.start
    [callee.withRole .function, arguments.withRole .arguments]

/-! ### Operators in front of an operand -/

/-- The operand of `await`. -/
def awaited (g : Grammar) : Parser Node := do
  let start ← here
  keyword "await"
  let operand ← g.unary
  nodeFrom .awaitExpression start [operand]

/-- The word `await` and a parenthesis: an expression in parentheses that is awaited, or the call of
a variable of that name when the parentheses hold no expression. -/
def awaitedGroup (g : Grammar) : Parser Node := do
  let start ← here
  let callee ← identifier
  let opening ← here
  let parts ← groupParts g
  match groupValue? parts with
  | some inner =>
    let group ← nodeFrom .parenthesizedExpression opening [inner]
    let operand ← postfixOf g group
    nodeFrom .awaitExpression start [operand]
  | none => postfixOf g (← groupCall callee opening parts)

/-- Whether what stands next can follow an operand. -/
def atOperandEnd : Parser Bool := do
  match ← peek with
  | .word w => return w == "in" || w == "instanceof" || w == "of" || (← atStatementEnd true)
  | .number | .quote _ => atStatementEnd true
  | _ => return true

/-- The operand of `await` when it starts with a slash: a regular expression, which an operand cannot
follow. -/
def awaitedRegex (g : Grammar) : Parser Node := do
  let n ← awaited g
  require (← atOperandEnd)
  return n

/-- An operand that starts with `await`. The word is a variable when no operand follows it. -/
def awaitOperand (g : Grammar) : Parser Node := do
  let second ← peekSecond
  let named : Parser Node := do
    postfixOf g (← identifier)
  if !startsOperand second || (← endsBehindNext) then
    named
  else
    match second with
    | .punctuator "(" => awaitedGroup g
    | .punctuator "/" | .punctuator "/=" => awaitedRegex g <|> named
    | .punctuator "++" | .punctuator "--" => awaited g <|> named
    | _ => awaited g

/-- An operand with its prefix operators. -/
def unaryRule (g : Grammar) : Parser Node := do
  let start ← here
  let token ← peek
  if isPrefixOperator token then
    advance
    let operand ← g.unary
    nodeFrom .unaryExpression start [operand.withRole .argument]
  else if isUpdateOperator token then
    advance
    let operand ← g.unary
    nodeFrom .updateExpression start [operand.withRole .argument]
  else if token == .word "await" then
    awaitOperand g
  else if token == .word "yield" then
    yieldExpression g false
  else
    postfixOf g (← newOrPrimary g)

/-! ### Operators with two operands -/

/-- A private name whose presence in an object is tested. -/
def testedPrivateName : Parser Node := do
  require ((← peekSecond) == .word "in" && (← read).inOperator)
  leaf .privatePropertyIdentifier

/-- The level of the operators that compare. -/
def comparisonLevel : Nat := 8

/-- The first of the operands that binary operators of at least the given level join. -/
def firstOperand (g : Grammar) (least : Nat) : Parser Node := do
  if least ≤ comparisonLevel && (← peek) == .privateName then
    testedPrivateName
  else
    unaryRule g

/-- The level of a binary operator; operators of a higher level bind tighter. -/
def binaryLevel? : Token → Option Nat
  | .word w => if w == "in" || w == "instanceof" then some comparisonLevel else none
  | .punctuator p =>
    match p with
    | "??" => some 1
    | "||" => some 2
    | "&&" => some 3
    | "|" => some 4
    | "^" => some 5
    | "&" => some 6
    | "==" | "!=" | "===" | "!==" => some 7
    | "<" | ">" | "<=" | ">=" => some comparisonLevel
    | "<<" | ">>" | ">>>" => some 9
    | "+" | "-" => some 10
    | "*" | "/" | "%" => some 11
    | "**" => some 12
    | _ => none
  | _ => none

/-- The least level of the operators in the right operand. The power operator takes an operand of its
own level on the right, and `??` takes none that is joined by `||` or `&&`. -/
def rightLevel (level : Nat) : Nat :=
  if level = 12 then 12 else if level = 1 then 4 else level + 1

/-- Operands that have been joined, with the level of the operator that joined the last one; zero if
there is only one operand. -/
structure Joined where
  /-- The expression so far. -/
  node : Node
  /-- The level of the last operator. -/
  level : Nat

/-- Whether an operator of the given level may go on with joined operands: `??` mixes with neither
`||` nor `&&`, and the power operator takes no operand with an operator in front of it on the
left. -/
def Joined.takes (left : Joined) (level : Nat) : Bool :=
  if level = 1 then left.level ≠ 2 ∧ left.level ≠ 3
  else if level = 2 ∨ level = 3 then left.level ≠ 1
  else if level = 12 then
    left.node.kind != .unaryExpression && left.node.kind != .awaitExpression
  else true

/-- One more operator of at least the given level, with its right operand. -/
def binaryStep (g : Grammar) (least : Nat) (left : Joined) : Parser (Option Joined) := do
  let token ← peek
  match binaryLevel? token with
  | some level =>
    if least ≤ level && (token != .word "in" || (← read).inOperator) then
      require (left.takes level)
      advance
      let right ← g.binary (rightLevel level)
      let node ← nodeFrom .binaryExpression left.node.start
        [left.node.withRole .left, right.withRole .right]
      return some ⟨node, level⟩
    else
      return none
  | none => return none

/-- Operands joined by binary operators of at least the given level, the first one being read. -/
def joinFrom (g : Grammar) (least : Nat) (first : Node) : Parser Node := do
  return (← iterate (binaryStep g least) ⟨first, 0⟩).node

/-- Operands joined by binary operators of at least the given level. -/
def binaryRule (g : Grammar) (least : Nat) : Parser Node := do
  joinFrom g least (← firstOperand g least)

end ReactiveTemplate.Script

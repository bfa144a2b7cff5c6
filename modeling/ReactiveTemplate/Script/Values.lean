/-
Values of the script, with what is accessed in them and the calls of them.

* `coverLiteral`, `literalValue` — arrays and objects, which may cover a pattern;
* `primary` — values: names, literals, arrays, objects, functions, classes, parentheses;
* `accessStep`, `accessRule` — accesses and calls;
* `newExpression`, `calleeRule` — `new` expressions, and what follows `new`.
-/

import ReactiveTemplate.Script.Cover
import ReactiveTemplate.Script.Functions

set_option relaxedAutoImplicit false
set_option autoImplicit false

namespace ReactiveTemplate.Script

/-! ### Values -/

/-- An expression read by the given parser, or a spread of one. -/
def spreadOr (expression : Parser Node) : Parser Node := do
  let start ← here
  if ← tryPunctuator "..." then
    let inner ← expression
    nodeFrom .spreadElement start [inner]
  else
    expression

/-- A property that is named like the variable it takes its value from. With a default it is a part
of a pattern. -/
def shorthandMember (g : Grammar) : Parser Node := do
  let start ← here
  let name ← nameLeaf .shorthandPropertyIdentifier
  if ← atPunctuator "=" then
    defaultedShorthand g start (name.withKind .shorthandPropertyIdentifierPattern)
  else
    return name

/-- Whether the next token is a name that is property and value at once. -/
def atShorthand : Parser Bool := do
  match ← peek, ← peekSecond with
  | .word w, .punctuator p => return !isReserved w && (p == "," || p == "\x7d" || p == "=")
  | _, _ => return false

/-- A member of an object. -/
def objectMember (g : Grammar) : Parser Node := do
  let start ← here
  if ← atPunctuator "..." then
    spreadOr g.cover
  else if ← atShorthand then
    shorthandMember g
  else
    let modifier ← memberModifier
    let key ← propertyName g
    if modifier == .nothing && (← tryPunctuator ":") then
      let value ← g.cover
      nodeFrom .pair start [key.withRole .key, value.withRole .value]
    else
      methodFrom g modifier start key

/-- An array or object, which may cover a pattern. -/
def coverLiteral (g : Grammar) : Parser Node := do
  let start ← here
  if ← tryPunctuator "[" then
    let items ← within .enclosed (separatedWithHoles "]" (spreadOr g.cover))
    nodeFrom .array start items
  else
    punctuator "\x7b"
    let items ← within .enclosed (separated "\x7d" (objectMember g))
    nodeFrom .object start items

/-- An array or object as a value. -/
def literalValue (g : Grammar) : Parser Node := do
  let n ← coverLiteral g
  require (isValue n)
  return n

/-- An expression in parentheses. -/
def parenthesized (g : Grammar) : Parser Node := do
  let start ← here
  punctuator "("
  let inner ← within .enclosed g.expression
  punctuator ")"
  nodeFrom .parenthesizedExpression start [inner]

/-- Arguments of a call. -/
def callArguments (g : Grammar) : Parser Node := do
  let start ← here
  punctuator "("
  let items ← within .enclosed (separated ")" (spreadOr g.assignment))
  return (← nodeFrom .arguments start items).withRole .arguments

/-- Arguments of a call of `import`: a module, and options for it. -/
def importArguments (g : Grammar) : Parser Node := do
  let start ← here
  punctuator "("
  let items ← within .enclosed (separated ")" g.assignment)
  require (items.length == 1 || items.length == 2)
  return (← nodeFrom .arguments start items).withRole .arguments

/-- A word with a point and a second word behind it, such as `new.target`. -/
def metaProperty (first second : String) : Parser Node := do
  let start ← here
  keyword first
  punctuator "."
  keyword second
  nodeFrom .metaProperty start []

/-- The word `import` where a call of it follows. -/
def importCallee : Parser Node := do
  require ((← peekSecond) == .punctuator "(")
  leaf .importCall

/-- The word `super` where an access or call of it follows. -/
def superValue : Parser Node := do
  match ← peekSecond with
  | .punctuator "." | .punctuator "[" | .punctuator "(" => leaf .superValue
  | _ => failure

/-- What a word stands for as a value. -/
def wordValue (g : Grammar) (w : String) : Parser Node := do
  match w with
  | "this" => leaf .thisValue
  | "super" => superValue
  | "null" => leaf .nullValue
  | "true" => leaf .trueValue
  | "false" => leaf .falseValue
  | "undefined" => leaf .undefinedValue
  | "function" => functionNode g false
  | "class" => classNode g false
  | "import" => metaProperty "import" "meta" <|> importCallee
  | "async" => if ← atAsyncFunction then functionNode g false else identifier
  | _ => identifier

/-- What a punctuator starts as a value. -/
def punctuatorValue (g : Grammar) (p : String) : Parser Node :=
  match p with
  | "(" => parenthesized g
  | "[" | "\x7b" => literalValue g
  | "/" | "/=" => regexLiteral
  | _ => failure

/-- A value. -/
def primary (g : Grammar) : Parser Node := do
  match ← peek with
  | .word w => wordValue g w
  | .punctuator p => punctuatorValue g p
  | .number => leaf .number
  | .quote _ => stringLiteral
  | .backtick => templateLiteral g
  | _ => failure

/-! ### Accesses and calls -/

/-- The property behind a point. -/
def accessedProperty : Parser Node := do
  match ← peek with
  | .word _ => return (← leaf .propertyIdentifier).withRole .property
  | .privateName => return (← leaf .privatePropertyIdentifier).withRole .property
  | _ => failure

/-- The index of an access in brackets, with the brackets. -/
def accessIndex (g : Grammar) : Parser Node := do
  punctuator "["
  let index ← within .enclosed g.expression
  punctuator "]"
  return index.withRole .index

/-- What an optional access does if there is an object. -/
def optionalAccess (g : Grammar) (object : Node) : Parser Node := do
  let chain ← leaf .optionalChain
  let start := object.start
  if ← atPunctuator "(" then
    let arguments ← callArguments g
    nodeFrom .callExpression start [object.withRole .function, chain, arguments]
  else if ← atPunctuator "[" then
    let index ← accessIndex g
    nodeFrom .subscriptExpression start [object.withRole .object, chain, index]
  else
    let property ← accessedProperty
    nodeFrom .memberExpression start [object.withRole .object, chain, property]

/-- One more access to an object, or call of it when `calls`. Where there are no calls, there are no
optional accesses either. -/
def accessStep (g : Grammar) (calls : Bool) (object : Node) : Parser (Option Node) := do
  let start := object.start
  match ← peek with
  | .punctuator "." =>
    advance
    let property ← accessedProperty
    return some (← nodeFrom .memberExpression start [object.withRole .object, property])
  | .punctuator "[" =>
    let index ← accessIndex g
    return some (← nodeFrom .subscriptExpression start [object.withRole .object, index])
  | .backtick =>
    let template ← templateLiteral g
    return some (← nodeFrom .callExpression start
      [object.withRole .function, template.withRole .arguments])
  | .punctuator "?." =>
    require calls
    return some (← optionalAccess g object)
  | .punctuator "(" =>
    if calls then
      let arguments ←
        if object.kind == .importCall then importArguments g else callArguments g
      return some (← nodeFrom .callExpression start [object.withRole .function, arguments])
    else
      return none
  | _ => return none

/-- A `new` expression. -/
def newExpression (g : Grammar) : Parser Node := do
  let start ← here
  keyword "new"
  let callee ← g.callee
  require (callee.kind != .superValue && callee.kind != .importCall)
  if ← atPunctuator "(" then
    let arguments ← callArguments g
    nodeFrom .newExpression start [callee.withRole .callee, arguments]
  else
    nodeFrom .newExpression start [callee.withRole .callee]

/-- A value, or a `new` expression. -/
def newOrPrimary (g : Grammar) : Parser Node := do
  if ← atWord "new" then
    metaProperty "new" "target" <|> newExpression g
  else
    primary g

/-- A value with the accesses and calls applied to it. -/
def accessRule (g : Grammar) : Parser Node := do
  iterate (accessStep g true) (← newOrPrimary g)

/-- A value with the accesses applied to it, as it follows `new`. -/
def calleeRule (g : Grammar) : Parser Node := do
  iterate (accessStep g false) (← newOrPrimary g)

end ReactiveTemplate.Script

/-
Patterns: what declarations and parameters bind.

A pattern is a name, or an array or object of patterns with defaults and a rest part.

* `propertyName` — the names of properties, in objects, classes and patterns;
* `patternRule` — patterns inside of patterns and parameters;
* `binding`, `initialValue` — what a declaration binds as a whole, and the value it gives;
* `formalParameters` — the parameters of a function.
-/

import ReactiveTemplate.Script.Literals

set_option relaxedAutoImplicit false
set_option autoImplicit false

namespace ReactiveTemplate.Script

/-- The name of a property: a word of any kind, a string, a number, or an expression in brackets. -/
def propertyName (g : Grammar) : Parser Node := do
  match ← peek with
  | .word _ => leaf .propertyIdentifier
  | .number => leaf .number
  | .quote _ => stringLiteral
  | .punctuator _ =>
    let start ← here
    punctuator "["
    let inner ← within .enclosed g.assignment
    punctuator "]"
    nodeFrom .computedPropertyName start [inner]
  | _ => failure

/-- A pattern with an optional default. -/
def patternWithDefault (g : Grammar) : Parser Node := do
  let start ← here
  let left ← g.pattern
  if ← tryPunctuator "=" then
    let right ← g.assignment
    nodeFrom .assignmentPattern start [left.withRole .left, right.withRole .right]
  else
    return left

/-- The rest part of a pattern or of parameters. -/
def restPattern (g : Grammar) : Parser Node := do
  let start ← here
  punctuator "..."
  let inner ← g.pattern
  nodeFrom .restPattern start [inner]

/-- A part of an array pattern, or a parameter. -/
def patternElement (g : Grammar) : Parser Node := do
  if ← atPunctuator "..." then
    restPattern g
  else
    patternWithDefault g

/-- The default of a property that is named like its target. -/
def defaultedShorthand (g : Grammar) (start : Nat) (name : Node) : Parser Node := do
  punctuator "="
  let right ← g.assignment
  nodeFrom .objectAssignmentPattern start [name.withRole .left, right.withRole .right]

/-- A name of an object pattern that is property and target at once, with an optional default. -/
def shorthandPattern (g : Grammar) : Parser Node := do
  let start ← here
  let name ← nameLeaf .shorthandPropertyIdentifierPattern
  if ← atPunctuator "=" then
    defaultedShorthand g start name
  else
    return name

/-- A part of a pattern or a parameter, which is the last one before the closing punctuator if it is
the rest part. -/
def lastIfRest (close : String) (p : Parser Node) : Parser Node := do
  let part ← p
  if part.kind == .restPattern then require (← atPunctuator close)
  return part

/-- A part of an object pattern. -/
def propertyPattern (g : Grammar) : Parser Node := do
  if ← atPunctuator "..." then
    restPattern g
  else
    let pair : Parser Node := do
      let start ← here
      let key ← propertyName g
      punctuator ":"
      let value ← patternWithDefault g
      nodeFrom .pairPattern start [key.withRole .key, value.withRole .value]
    pair <|> shorthandPattern g

/-- A pattern inside of a pattern or of parameters: a name, or an array or object of patterns. The
word `undefined` stands for the value here. -/
def patternRule (g : Grammar) : Parser Node := do
  let start ← here
  match ← peek with
  | .punctuator "[" =>
    advance
    let items ← within .enclosed (separatedWithHoles "]" (lastIfRest "]" (patternElement g)))
    nodeFrom .arrayPattern start items
  | .punctuator "\x7b" =>
    advance
    let items ← within .enclosed (separated "\x7d" (lastIfRest "\x7d" (propertyPattern g)))
    nodeFrom .objectPattern start items
  | .word "undefined" => leaf .undefinedValue
  | _ => identifier

/-- Whether an array or object comes next. -/
def atLiteral : Parser Bool := do
  return (← atPunctuator "[") || (← atPunctuator "\x7b")

/-- What a declaration binds: a name, or an array or object of patterns. -/
def binding (g : Grammar) : Parser Node := do
  if ← atLiteral then g.pattern else identifier

/-- The value of a variable or field, behind an equals sign, if there is one. -/
def initialValue (g : Grammar) : Parser (List Node) := do
  if ← tryPunctuator "=" then
    return [(← g.assignment).withRole .value]
  else
    return []

/-- The parameters of a function, in parentheses. -/
def formalParameters (g : Grammar) : Parser Node := do
  let start ← here
  punctuator "("
  let items ← within .enclosed (separated ")" (lastIfRest ")" (patternElement g)))
  nodeFrom .formalParameters start items

/-- The parameters of a getter: none. -/
def noParameters : Parser Node := do
  let start ← here
  punctuator "("
  punctuator ")"
  nodeFrom .formalParameters start []

/-- The parameters of a setter: one. -/
def oneParameter (g : Grammar) : Parser Node := do
  let start ← here
  punctuator "("
  let only ← within .enclosed (patternWithDefault g)
  punctuator ")"
  nodeFrom .formalParameters start [only]

end ReactiveTemplate.Script

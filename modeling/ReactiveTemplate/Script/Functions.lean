/-
Functions, methods and classes of the script.

* `statementBlock` — statements in braces;
* `functionNode` — function declarations and expressions, generators included;
* `arrowTail`, `nameArrow` — arrow functions from their arrow or name on;
* `memberModifier`, `methodFrom`, `classMember` — methods, getters and setters, and fields;
* `classNode` — class declarations and expressions.
-/

import ReactiveTemplate.Script.Patterns

set_option relaxedAutoImplicit false
set_option autoImplicit false

namespace ReactiveTemplate.Script

/-- Statements in braces. -/
def statementBlock (g : Grammar) : Parser Node := do
  let start ← here
  punctuator "\x7b"
  let statements ← repeatUntil (atPunctuator "\x7d") g.statement
  punctuator "\x7d"
  nodeFrom .statementBlock start statements

/-- Parameters and body, as children of a function whose parameters are read as told. -/
def bodyAfter (g : Grammar) (parameters : Parser Node) : Parser (List Node) := do
  let parameters ← parameters
  let body ← statementBlock g
  return [parameters.withRole .parameters, body.withRole .body]

/-- Parameters and body, as children of a function. -/
def signatureAndBody (g : Grammar) : Parser (List Node) :=
  bodyAfter g (formalParameters g)

/-- Whether `async` and `function` come next, on one line. -/
def atAsyncFunction : Parser Bool := do
  return (← atWord "async") && (← peekSecond) == .word "function" && !(← newlineBehindNext)

/-- A function of the given kind from its name on, which only an expression may leave out. -/
def functionTail (g : Grammar) (declared : Bool) (kind : Kind) (start : Nat) : Parser Node := do
  if !declared && (← atPunctuator "(") then
    nodeFrom kind start (← signatureAndBody g)
  else
    let name ← identifier
    let parts ← signatureAndBody g
    nodeFrom kind start (name.withRole .name :: parts)

/-- A function from the keyword on. With `declared` it is a declaration, which needs a name. -/
def functionNode (g : Grammar) (declared : Bool) : Parser Node := do
  let start ← here
  if ← atAsyncFunction then advance
  keyword "function"
  let generator ← tryPunctuator "*"
  let kind : Kind :=
    match declared, generator with
    | true, false => .functionDeclaration
    | true, true => .generatorFunctionDeclaration
    | false, false => .functionExpression
    | false, true => .generatorFunction
  functionTail g declared kind start

/-- The arrow and body behind the parameters of an arrow function; the arrow is on their line. -/
def arrowTail (g : Grammar) (start : Nat) (parameters : Node) : Parser Node := do
  require (!(← newlineAhead))
  punctuator "=>"
  let body ← if ← atPunctuator "\x7b" then statementBlock g else g.assignment
  nodeFrom .arrowFunction start [parameters, body.withRole .body]

/-- An arrow function whose only parameter is a name without parentheses. -/
def nameArrow (g : Grammar) (start : Nat) : Parser Node := do
  let name ← identifier
  arrowTail g start (name.withRole .parameter)

/-! ### Methods and fields -/

/-- What stands in front of the name of a member of an object or class. -/
inductive Modifier where
  | nothing
  /-- `async`, the mark of a generator, or both: a method follows. -/
  | method
  | getter
  | setter
  deriving DecidableEq, Repr

/-- Whether a token can start the name of a member. -/
def startsMemberName : Token → Bool
  | .word _ | .privateName | .number | .quote _ | .punctuator "[" => true
  | _ => false

/-- Whether the next token is the given word in front of the name of a member, or of the mark of a
generator when `generators`. -/
def atModifier (w : String) (generators : Bool) : Parser Bool := do
  if ← atWord w then
    let second ← peekSecond
    return startsMemberName second || (generators && second == .punctuator "*")
  else
    return false

/-- Takes what stands in front of the name of a member; `async` does so on the line of the name. -/
def memberModifier : Parser Modifier := do
  if ← tryPunctuator "*" then
    return .method
  else if (← atModifier "async" true) && !(← newlineBehindNext) then
    advance
    let _ ← tryPunctuator "*"
    return .method
  else if ← atModifier "get" false then
    advance
    return .getter
  else if ← atModifier "set" false then
    advance
    return .setter
  else
    return .nothing

/-- The name of a member of a class, which may be private. -/
def memberName (g : Grammar) : Parser Node := do
  match ← peek with
  | .privateName => leaf .privatePropertyIdentifier
  | _ => propertyName g

/-- A method whose modifier and name have been read. -/
def methodFrom (g : Grammar) (modifier : Modifier) (start : Nat) (name : Node) : Parser Node := do
  let parts ← bodyAfter g <|
    match modifier with
    | .getter => noParameters
    | .setter => oneParameter g
    | _ => formalParameters g
  nodeFrom .methodDefinition start (name.withRole .name :: parts)

/-- A field of a class whose name has been read. -/
def fieldFrom (g : Grammar) (start : Nat) (name : Node) : Parser Node := do
  let value ← initialValue g
  let field ← nodeFrom .fieldDefinition start (name.withRole .property :: value)
  semicolon (!value.isEmpty)
  return field

/-- A method or field of a class, `static` being taken. -/
def classMemberTail (g : Grammar) (start : Nat) : Parser Node := do
  let modifier ← memberModifier
  let name ← memberName g
  if modifier != .nothing || (← atPunctuator "(") then
    methodFrom g modifier start name
  else
    fieldFrom g start name

/-- A member of a class. The word `static` may also be a name. -/
def classMember (g : Grammar) : Parser Node := do
  let start ← here
  if (← atWord "static") && (← peekSecond) == .punctuator "\x7b" then
    advance
    let body ← statementBlock g
    nodeFrom .classStaticBlock start [body.withRole .body]
  else
    if ← atModifier "static" true then advance
    classMemberTail g start

/-! ### Classes -/

/-- The members of a class in braces. -/
def classBody (g : Grammar) : Parser Node := do
  let start ← here
  punctuator "\x7b"
  let members ← repeatUntil (atPunctuator "\x7d") do
    if ← tryPunctuator ";" then
      return []
    else
      return [← within .statement (classMember g)]
  punctuator "\x7d"
  nodeFrom .classBody start members.flatten

/-- The class that a class extends. -/
def classHeritage (g : Grammar) : Parser (List Node) := do
  let start ← here
  if ← tryKeyword "extends" then
    let parent ← g.access
    return [← nodeFrom .classHeritage start [parent]]
  else
    return []

/-- The name of a class, which a declaration needs. -/
def className (declared : Bool) : Parser (List Node) := do
  if (← atPunctuator "\x7b") || (← atWord "extends") then
    require (!declared)
    return []
  else
    return [(← identifier).withRole .name]

/-- A class from the keyword on. With `declared` it is a declaration, which needs a name. -/
def classNode (g : Grammar) (declared : Bool) : Parser Node := do
  let start ← here
  keyword "class"
  let name ← className declared
  let heritage ← classHeritage g
  let body ← classBody g
  let kind : Kind := if declared then .classDeclaration else .classExpression
  nodeFrom kind start (name ++ heritage ++ [body.withRole .body])

end ReactiveTemplate.Script

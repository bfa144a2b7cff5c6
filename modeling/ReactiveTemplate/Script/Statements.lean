/-
Statements of the script.

* `declarator`, `variableDeclaration` — declarations of variables;
* `ifStatement`, `forLoop`, `tryStatement`, `switchStatement`, … — the compound statements;
* `importStatement`, `exportStatement` — imports and exports;
* `statementRule`, `itemRule` — any statement, and what may stand on the top level.
-/

import ReactiveTemplate.Script.Expressions

set_option relaxedAutoImplicit false
set_option autoImplicit false

namespace ReactiveTemplate.Script

/-! ### Declarations of variables -/

/-- A variable with an optional value, or a pattern with a value, as one node. -/
def declaratorNode (start : Nat) (name : Node) (value : List Node) : Parser Node := do
  require (name.kind == .identifier || !value.isEmpty)
  nodeFrom .variableDeclarator start (name.withRole .name :: value)

/-- A variable with an optional value, or a pattern with a value. -/
def declarator (g : Grammar) : Parser Node := do
  let start ← here
  let name ← binding g
  let value ← initialValue g
  declaratorNode start name value

/-- The declarators behind the first one, each after a comma. -/
def moreDeclarators (g : Grammar) : Parser (List Node) :=
  repeatUntil (do return !(← atPunctuator ",")) do
    punctuator ","
    declarator g

/-- Whether a declaration with `let` starts here, and not an expression that starts with a variable
of that name. -/
def atLetDeclaration : Parser Bool := do
  if ← atWord "let" then
    match ← peekSecond with
    | .word w => return !isReserved w && !(← endsBehindNext)
    | .punctuator "[" | .punctuator "\x7b" => return true
    | _ => return false
  else
    return false

/-- The kind of declaration that starts here. -/
def declarationKind? : Parser (Option Kind) := do
  match ← peek with
  | .word "var" => return some .variableDeclaration
  | .word "const" => return some .lexicalDeclaration
  | .word "let" => if ← atLetDeclaration then return some .lexicalDeclaration else return none
  | _ => return none

/-- A declaration of variables. -/
def variableDeclaration (g : Grammar) (kind : Kind) : Parser Node := do
  let start ← here
  advance
  let first ← declarator g
  let parts := first :: (← moreDeclarators g)
  semicolon (parts.getLast?.any fun part => (part.child? .value).isSome)
  nodeFrom kind start parts

/-! ### Conditionals and loops -/

/-- A statement as a part of another one: no declaration, except of a function when `functions`. -/
def bodyOf (g : Grammar) (functions : Bool) : Parser Node := do
  match ← peek with
  | .word "class" | .word "const" => failure
  | .word "let" => require (!(← atLetDeclaration))
  | .word "function" => require (functions && (← peekSecond) != .punctuator "*")
  | .word "async" => require (!(← atAsyncFunction))
  | _ => pure ()
  g.statement

/-- A conditional statement. -/
def ifStatement (g : Grammar) : Parser Node := do
  let start ← here
  keyword "if"
  let condition ← parenthesized g
  let yes ← bodyOf g true
  let otherwise ← here
  if ← tryKeyword "else" then
    let no ← bodyOf g true
    let clause ← nodeFrom .elseClause otherwise [no]
    nodeFrom .ifStatement start
      [condition.withRole .condition, yes.withRole .consequence, clause.withRole .alternative]
  else
    nodeFrom .ifStatement start [condition.withRole .condition, yes.withRole .consequence]

/-- The word between the two sides of the head of a loop over a collection. -/
inductive OverWord where
  | inWord
  | ofWord
  deriving DecidableEq, Repr

/-- The word between the two sides of the head of a loop over a collection, if it comes next. A loop
that waits goes over a collection with `of`. -/
def overWord? (waits : Bool) : Parser (Option OverWord) := do
  match ← peek with
  | .word "of" => return some .ofWord
  | .word "in" => return if waits then none else some .inWord
  | _ => return none

/-- What a loop over a collection assigns to, when nothing is declared. An array or object is a
pattern if nothing is accessed in it. -/
def overTarget (g : Grammar) (waits : Bool) : Parser Node := do
  if ← atLiteral then
    let literal ← coverLiteral g
    if (← overWord? waits).isSome then
      match asPattern? true literal with
      | some pattern => return pattern
      | none => failure
    else
      require (isValue literal)
      iterate (accessStep g true) literal
  else
    g.access

/-- Whether `let` comes next, or `async` as the whole left side of a head with `of`. Neither starts
the head of a loop over a collection with `of`. -/
def atAmbiguousTarget (waits : Bool) : Parser Bool := do
  match ← peek with
  | .word "let" => return true
  | .word "async" => return !waits && (← peekSecond) == .word "of"
  | _ => return false

/-- The left side of the head of a loop over a collection that declares nothing, with the word behind
it, if there is one. -/
def overHead? (g : Grammar) (waits : Bool) : Parser (Option (Node × OverWord)) := do
  let head : Parser (Option (Node × OverWord)) := do
    let ambiguous ← atAmbiguousTarget waits
    let target ← overTarget g waits
    match ← overWord? waits with
    | some word =>
      require (isTarget target && !(ambiguous && word == .ofWord))
      advance
      return some (target.withRole .left, word)
    | none => failure
  head <|> pure none

/-- A loop over a collection from the right side of its head on. -/
def forInTail (g : Grammar) (start : Nat) (left : List Node) (word : OverWord) : Parser Node := do
  let right ← within .enclosed (if word == .ofWord then g.assignment else g.expression)
  punctuator ")"
  let body ← bodyOf g false
  nodeFrom .forInStatement start (left ++ [right.withRole .right, body.withRole .body])

/-- An expression and the semicolon behind it, or a semicolon alone. -/
def headPart (g : Grammar) : Parser Node := do
  if ← atPunctuator ";" then
    leaf .emptyStatement
  else
    let inner ← g.expression
    punctuator ";"
    return inner

/-- A loop whose head has three parts, from the second one on. -/
def forTail (g : Grammar) (start : Nat) (first : Node) : Parser Node := do
  let condition ← within .enclosed (headPart g)
  let parts := [first.withRole .initializer, condition.withRole .condition]
  if ← tryPunctuator ")" then
    let body ← bodyOf g false
    nodeFrom .forStatement start (parts ++ [body.withRole .body])
  else
    let increment ← within .enclosed g.expression
    punctuator ")"
    let body ← bodyOf g false
    nodeFrom .forStatement start
      (parts ++ [increment.withRole .increment, body.withRole .body])

/-- Whether a declaration in the head of a loop over a collection may give a value beforehand: only
`var` does so to a variable, and only with `in`. -/
def takesValue (kind : Kind) (name : Node) (word : OverWord) : Bool :=
  kind == .variableDeclaration && name.kind == .identifier && word == .inWord

/-- A loop whose head starts with a declaration. -/
def declaringLoop (g : Grammar) (start : Nat) (waits : Bool) (kind : Kind) : Parser Node := do
  let declared ← here
  advance
  let named ← here
  let name ← binding g
  let value ← within .head (initialValue g)
  match ← overWord? waits with
  | some word =>
    require (value.isEmpty || takesValue kind name word)
    advance
    let role : Role := if kind == .variableDeclaration then .varHead else .lexicalHead
    forInTail g start (name.withRole role :: value) word
  | none =>
    require (!waits)
    let first ← declaratorNode named name value
    let more ← within .head (moreDeclarators g)
    punctuator ";"
    forTail g start (← nodeFrom kind declared (first :: more))

/-- A `for` loop from its head on. One that waits goes over a collection. -/
def forFrom (g : Grammar) (start : Nat) (waits : Bool) : Parser Node := do
  punctuator "("
  match ← within .head declarationKind? with
  | some kind => declaringLoop g start waits kind
  | none =>
    match ← within .head (overHead? g waits) with
    | some (left, word) => forInTail g start [left] word
    | none =>
      require (!waits)
      forTail g start (← within .head (headPart g))

/-- A `for` loop. With `await` it goes over a collection. -/
def forLoop (g : Grammar) : Parser Node := do
  let start ← here
  keyword "for"
  forFrom g start (← tryKeyword "await")

/-- A `while` loop. -/
def whileStatement (g : Grammar) : Parser Node := do
  let start ← here
  keyword "while"
  let condition ← parenthesized g
  let body ← bodyOf g false
  nodeFrom .whileStatement start [condition.withRole .condition, body.withRole .body]

/-- A `do` loop; a semicolon behind it belongs to it. -/
def doStatement (g : Grammar) : Parser Node := do
  let start ← here
  keyword "do"
  let body ← bodyOf g false
  keyword "while"
  let condition ← parenthesized g
  if !(← atStatementEnd false) then
    let _ ← tryPunctuator ";"
  nodeFrom .doStatement start [body.withRole .body, condition.withRole .condition]

/-- A `with` statement. -/
def withStatement (g : Grammar) : Parser Node := do
  let start ← here
  keyword "with"
  let object ← parenthesized g
  let body ← bodyOf g false
  nodeFrom .withStatement start [object.withRole .object, body.withRole .body]

/-! ### Exceptions and cases -/

/-- The clause that catches an exception. -/
def catchClause (g : Grammar) : Parser Node := do
  let start ← here
  keyword "catch"
  if ← tryPunctuator "(" then
    let parameter ← binding g
    punctuator ")"
    let body ← statementBlock g
    nodeFrom .catchClause start [parameter.withRole .parameter, body.withRole .body]
  else
    let body ← statementBlock g
    nodeFrom .catchClause start [body.withRole .body]

/-- The clause that runs in every case. -/
def finallyClause (g : Grammar) : Parser Node := do
  let start ← here
  keyword "finally"
  let body ← statementBlock g
  nodeFrom .finallyClause start [body.withRole .body]

/-- A `try` statement with at least one clause. -/
def tryStatement (g : Grammar) : Parser Node := do
  let start ← here
  keyword "try"
  let body ← statementBlock g
  let handler ← if ← atWord "catch" then pure [← catchClause g] else pure []
  let final ← if ← atWord "finally" then pure [← finallyClause g] else pure []
  let clauses := handler ++ final
  require (!clauses.isEmpty)
  nodeFrom .tryStatement start (body.withRole .body :: clauses)

/-- Whether a new case starts or the cases end. -/
def atCaseEnd : Parser Bool := do
  return (← atWord "case") || (← atWord "default") || (← atPunctuator "\x7d")

/-- One case of a `switch` statement. -/
def switchCase (g : Grammar) : Parser Node := do
  let start ← here
  if ← tryKeyword "default" then
    punctuator ":"
    let body ← repeatUntil atCaseEnd g.statement
    nodeFrom .switchDefault start (body.map (Node.withRole .body))
  else
    keyword "case"
    let value ← within .enclosed g.expression
    punctuator ":"
    let body ← repeatUntil atCaseEnd g.statement
    nodeFrom .switchCase start (value.withRole .value :: body.map (Node.withRole .body))

/-- A `switch` statement. -/
def switchStatement (g : Grammar) : Parser Node := do
  let start ← here
  keyword "switch"
  let value ← parenthesized g
  let open' ← here
  punctuator "\x7b"
  let cases ← repeatUntil (atPunctuator "\x7d") (switchCase g)
  require ((cases.filter fun c => c.kind == .switchDefault).length ≤ 1)
  punctuator "\x7d"
  let body ← nodeFrom .switchBody open' cases
  nodeFrom .switchStatement start [value.withRole .value, body.withRole .body]

/-! ### Simple statements -/

/-- Whether a statement that has just begun ends here. -/
def atEarlyEnd : Parser Bool := do
  return (← atStatementEnd false) || (← atPunctuator ";")

/-- `break` or `continue`, with a label on the same line. -/
def jumpStatement (word : String) (kind : Kind) : Parser Node := do
  let start ← here
  keyword word
  let label ←
    if (← atEarlyEnd) || (← newlineAhead) then pure []
    else pure [(← nameLeaf .statementIdentifier).withRole .label]
  semicolon false
  nodeFrom kind start label

/-- `return`, with an optional value. -/
def returnStatement (g : Grammar) : Parser Node := do
  let start ← here
  keyword "return"
  let value ← if ← atEarlyEnd then pure [] else pure [← g.expression]
  semicolon (!value.isEmpty)
  nodeFrom .returnStatement start value

/-- `throw` with its value on the same line. -/
def throwStatement (g : Grammar) : Parser Node := do
  let start ← here
  keyword "throw"
  require (!(← newlineAhead))
  let value ← g.expression
  semicolon true
  nodeFrom .throwStatement start [value]

/-- `debugger`. -/
def debuggerStatement : Parser Node := do
  let start ← here
  keyword "debugger"
  semicolon false
  nodeFrom .debuggerStatement start []

/-- A statement behind a label. -/
def labeledStatement (g : Grammar) : Parser Node := do
  let start ← here
  let label ← nameLeaf .statementIdentifier
  punctuator ":"
  let body ← bodyOf g true
  nodeFrom .labeledStatement start [label.withRole .label, body.withRole .body]

/-- An expression as a statement. -/
def expressionStatement (g : Grammar) : Parser Node := do
  let start ← here
  let inner ← g.expression
  semicolon true
  nodeFrom .expressionStatement start [inner]

/-! ### Imports and exports -/

/-- A name in an import or export list: a word, or a string. The word `default` names no variable
and gives no node. -/
def moduleName : Parser (List Node) := do
  match ← peek with
  | .word "default" =>
    advance
    return []
  | .word _ => return [← leaf .identifier]
  | .quote _ => return [← stringLiteral]
  | _ => failure

/-- An entry of an import list. -/
def importSpecifier : Parser Node := do
  let start ← here
  let renamed : Parser Node := do
    let name ← moduleName
    keyword "as"
    let newName ← identifier
    nodeFrom .importSpecifier start (name.map (Node.withRole .name) ++ [newName.withRole .newName])
  let plain : Parser Node := do
    let name ← identifier
    nodeFrom .importSpecifier start [name.withRole .name]
  renamed <|> plain

/-- An import of a whole module under one name. -/
def namespaceImport : Parser Node := do
  let start ← here
  punctuator "*"
  keyword "as"
  let name ← identifier
  nodeFrom .namespaceImport start [name]

/-- An import list in braces. -/
def namedImports : Parser Node := do
  let start ← here
  punctuator "\x7b"
  let items ← separated "\x7d" importSpecifier
  nodeFrom .namedImports start items

/-- What an import statement binds. -/
def importClause : Parser Node := do
  let start ← here
  let listed : Parser Node := namespaceImport <|> namedImports
  let withDefault : Parser Node := do
    let name ← identifier
    if ← tryPunctuator "," then
      let more ← listed
      nodeFrom .importClause start [name, more]
    else
      nodeFrom .importClause start [name]
  let withoutDefault : Parser Node := do
    let only ← listed
    nodeFrom .importClause start [only]
  withoutDefault <|> withDefault

/-- The module that an import or export names. -/
def moduleSource : Parser Node := do
  return (← stringLiteral).withRole .source

/-- The word `from` and the module behind it. -/
def fromModule : Parser Node := do
  keyword "from"
  moduleSource

/-- The name of an attribute of an import. -/
def attributeKey : Parser Node := do
  match ← peek with
  | .word _ => leaf .propertyIdentifier
  | _ => stringLiteral

/-- An attribute of an import: a name and a string. -/
def importAttribute : Parser Node := do
  let start ← here
  let key ← attributeKey
  punctuator ":"
  let value ← stringLiteral
  nodeFrom .pair start [key.withRole .key, value.withRole .value]

/-- Attributes of an import. -/
def importAttributes : Parser (List Node) := do
  let start ← here
  if ← tryKeyword "with" then
    let opening ← here
    punctuator "\x7b"
    let items ← separated "\x7d" importAttribute
    let attributes ← nodeFrom .object opening items
    return [← nodeFrom .importAttribute start [attributes]]
  else
    return []

/-- An import statement. -/
def importStatement : Parser Node := do
  let start ← here
  keyword "import"
  let bare : Parser (List Node) := do
    return [← moduleSource]
  let bound : Parser (List Node) := do
    let clause ← importClause
    let source ← fromModule
    return [clause, source]
  let parts ← bare <|> bound
  let attributes ← importAttributes
  semicolon false
  nodeFrom .importStatement start (parts ++ attributes)

/-- An entry of an export list. -/
def exportSpecifier : Parser Node := do
  let start ← here
  let name ← moduleName
  if ← tryKeyword "as" then
    let newName ← moduleName
    nodeFrom .exportSpecifier start
      (name.map (Node.withRole .name) ++ newName.map (Node.withRole .newName))
  else
    nodeFrom .exportSpecifier start (name.map (Node.withRole .name))

/-- An export list in braces. -/
def exportClause : Parser Node := do
  let start ← here
  punctuator "\x7b"
  let items ← separated "\x7d" exportSpecifier
  nodeFrom .exportClause start items

/-- An export of all names of a module. -/
def exportAll : Parser (List Node) := do
  let start ← here
  punctuator "*"
  if ← tryKeyword "as" then
    let name ← moduleName
    let ns ← nodeFrom .namespaceExport start name
    let source ← fromModule
    return [ns, source]
  else
    return [← fromModule]

/-- A declaration of a function, class or variables. -/
def declaration (g : Grammar) : Parser Node := do
  match ← declarationKind? with
  | some kind => variableDeclaration g kind
  | none => functionNode g true <|> classNode g true

/-- What stands behind `export`. -/
def exported (g : Grammar) : Parser (List Node) := do
  match ← peek with
  | .punctuator "*" =>
    let parts ← exportAll
    semicolon false
    return parts
  | .punctuator "\x7b" =>
    let clause ← exportClause
    let source ← if ← atWord "from" then pure [← fromModule] else pure []
    semicolon false
    return clause :: source
  | .word "default" =>
    advance
    let declared : Parser (List Node) := do
      return [(← functionNode g true <|> classNode g true).withRole .declaration]
    let value : Parser (List Node) := do
      let value ← g.assignment
      semicolon true
      return [value.withRole .value]
    declared <|> value
  | _ => return [(← declaration g).withRole .declaration]

/-- An export statement. -/
def exportStatement (g : Grammar) : Parser Node := do
  let start ← here
  keyword "export"
  let parts ← exported g
  nodeFrom .exportStatement start parts

/-! ### Statements -/

/-- A statement that starts with no keyword of its own. -/
def plainStatement (g : Grammar) : Parser Node :=
  labeledStatement g <|> expressionStatement g

/-- A declaration of variables, or a statement that starts with a variable named like a keyword. -/
def declarationStatement (g : Grammar) : Parser Node := do
  match ← declarationKind? with
  | some kind => variableDeclaration g kind
  | none => plainStatement g

/-- A statement that starts with a word. -/
def wordStatement (g : Grammar) (w : String) : Parser Node := do
  match w with
  | "var" | "let" | "const" => declarationStatement g
  | "function" => functionNode g true
  | "async" => if ← atAsyncFunction then functionNode g true else plainStatement g
  | "class" => classNode g true
  | "if" => ifStatement g
  | "for" => forLoop g
  | "while" => whileStatement g
  | "do" => doStatement g
  | "with" => withStatement g
  | "try" => tryStatement g
  | "switch" => switchStatement g
  | "break" => jumpStatement "break" .breakStatement
  | "continue" => jumpStatement "continue" .continueStatement
  | "return" => returnStatement g
  | "throw" => throwStatement g
  | "debugger" => debuggerStatement
  | _ => plainStatement g

/-- A statement or declaration. -/
def statementRule (g : Grammar) : Parser Node := within .statement do
  match ← peek with
  | .punctuator "\x7b" => statementBlock g
  | .punctuator ";" => leaf .emptyStatement
  | .word w => wordStatement g w
  | _ => expressionStatement g

/-- A statement, or an import or export, which stands in no other statement. -/
def itemRule (g : Grammar) : Parser Node := within .statement do
  match ← peek with
  | .word "import" => importStatement <|> plainStatement g
  | .word "export" => exportStatement g
  | _ => statementRule g

end ReactiveTemplate.Script

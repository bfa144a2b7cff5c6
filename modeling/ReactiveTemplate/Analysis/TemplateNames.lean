/-
Names that an expression of the markup may read.

An expression reads the names that occur in it. A call of a function of the script also reads what
occurs in the declaration of the function, which is more than the call may need.

* `calleeNames` — the names of the functions that an expression calls;
* `declarationsNamed` — the declarations of a script with one of some names;
* `templateNames` — the names that an expression may read.
-/

import ReactiveTemplate.Script.Binding

set_option relaxedAutoImplicit false
set_option autoImplicit false

namespace ReactiveTemplate

open Script

/-- The name that a node calls, if it is a call of a plain name. -/
def calleeName? (source : Source) (n : Node) : Option String :=
  if n.kind == .callExpression then (n.child? .function).bind (plainName? source) else none

/-- The names that are called in an expression. -/
def calleeNames (source : Source) (n : Node) : List String :=
  n.walk.filterMap (calleeName? source)

/-- Whether a node declares a function or variable under a plain name of the list. -/
def declaresOneOf (program : Source) (names : List String) (n : Node) : Bool :=
  if n.kind.isFunctionDeclaration || n.kind == .variableDeclarator then
    match (n.child? .name).bind (plainName? program) with
    | some name => name ∈ names
    | none => false
  else false

/-- The declarations of functions and variables in a script with one of some names. -/
def declarationsNamed (program : Source) (names : List String) : List Node :=
  program.root.walk.filter (declaresOneOf program names)

/-- The names that occur in the declarations of a script that an expression calls. -/
def calledNames (source : Source) (n : Node) (program : Source) : List String :=
  (declarationsNamed program (calleeNames source n)).flatMap fun d =>
    (references d).map program.slice

/-- The names that an expression may read, in order of first occurrence. -/
def templateNames (source : Source) (n : Node) (program : Option Source) : Names :=
  let own := referencedNames source n
  match program with
  | none => own
  | some program => own.union (calledNames source n program)

end ReactiveTemplate

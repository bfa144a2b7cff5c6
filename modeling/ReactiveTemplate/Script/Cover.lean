/-
Literals that turn out to be patterns.

An array or object is read before it is known whether an assignment to it follows, and a list in
parentheses before it is known whether it holds the parameters of an arrow function. What is read
covers both; afterwards it is taken as a value or turned into a pattern.

* `PatternPart` — how a node takes part in a pattern;
* `asPattern?` — the pattern that a node covers;
* `isValue` — whether a node is a value as it stands.
-/

import ReactiveTemplate.Script.Node

set_option relaxedAutoImplicit false
set_option autoImplicit false

namespace ReactiveTemplate.Script

/-- How a node takes part in a pattern. -/
inductive PatternPart where
  /-- It is bound itself. -/
  | bound
  /-- All its children are patterns. -/
  | all
  /-- Its child in the given role is the pattern. -/
  | only (role : Role)
  /-- It binds nothing. -/
  | nothing
  deriving DecidableEq, Repr

/-- The kind that a node takes on in a pattern, and how it takes part in it. With `accesses`, an
access may stand for a name. -/
def Kind.covered? (accesses : Bool) : Kind → Option (Kind × PatternPart)
  | .identifier => some (.identifier, .bound)
  | .undefinedValue => some (.undefinedValue, .bound)
  | .memberExpression => if accesses then some (.memberExpression, .bound) else none
  | .subscriptExpression => if accesses then some (.subscriptExpression, .bound) else none
  | .array | .arrayPattern => some (.arrayPattern, .all)
  | .object | .objectPattern => some (.objectPattern, .all)
  | .spreadElement | .restPattern => some (.restPattern, .all)
  | .pair | .pairPattern => some (.pairPattern, .only .value)
  | .assignmentExpression | .assignmentPattern => some (.assignmentPattern, .only .left)
  | .shorthandPropertyIdentifier | .shorthandPropertyIdentifierPattern =>
    some (.shorthandPropertyIdentifierPattern, .bound)
  | .objectAssignmentPattern => some (.objectAssignmentPattern, .bound)
  | _ => none

/-- Whether a node covers a pattern with a default. -/
def hasDefault (n : Node) : Bool :=
  n.kind == .assignmentExpression || n.kind == .assignmentPattern

/-- Whether only the last of the nodes covers a rest part, if any does. -/
def restIsLast (ns : List Node) : Bool :=
  ns.dropLast.all fun n => n.kind != .spreadElement && n.kind != .restPattern

mutual

/-- The pattern that a node covers, if it covers one. A rest part has no default and stands last. -/
def asPattern? (accesses : Bool) : Node → Option Node
  | .mk k r a b i cs =>
    match k.covered? accesses with
    | some (k', .bound) => some (.mk k' r a b i cs)
    | some (k', .all) =>
      if (k' == .restPattern && cs.any hasDefault) || !restIsLast cs then none
      else (asPatterns? accesses cs).map (.mk k' r a b i)
    | some (k', .only role) => (asPatternIn? accesses role cs).map (.mk k' r a b i)
    | _ => none

/-- The patterns that nodes cover, if each covers one. -/
def asPatterns? (accesses : Bool) : List Node → Option (List Node)
  | [] => some []
  | c :: cs => do
    let p ← asPattern? accesses c
    let ps ← asPatterns? accesses cs
    return p :: ps

/-- The nodes with those in a role turned into the patterns they cover. -/
def asPatternIn? (accesses : Bool) (role : Role) : List Node → Option (List Node)
  | [] => some []
  | c :: cs => do
    let p ← if c.role == role then asPattern? accesses c else some c
    let ps ← asPatternIn? accesses role cs
    return p :: ps

end

mutual

/-- Whether a node is a value as it stands: no property of an object in it has a default. -/
def isValue : Node → Bool
  | .mk k _ _ _ _ cs =>
    match k with
    | .objectAssignmentPattern => false
    | .object | .array | .spreadElement | .pair => areValues cs
    | _ => true

/-- Whether all nodes of a list are values as they stand. -/
def areValues : List Node → Bool
  | [] => true
  | c :: cs => isValue c && areValues cs

end

end ReactiveTemplate.Script

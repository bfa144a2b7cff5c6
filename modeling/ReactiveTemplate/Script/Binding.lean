/-
Names in syntax trees: what patterns bind, what mutations write, what expressions read.

* `boundLeaves` — the leaves that a pattern binds;
* `rootObject` — an access without its accesses;
* `mutationTarget?`, `targetNames` — what a mutation writes to, and the names written;
* `references` — every leaf that reads a name;
* `rootName?` — the name at the root of accesses, calls and parentheses.
-/

import ReactiveTemplate.Names
import ReactiveTemplate.Script.Cover
import ReactiveTemplate.Script.Source

set_option relaxedAutoImplicit false
set_option autoImplicit false

namespace ReactiveTemplate.Script

/-! ### Bound names -/

/-- How a kind of node takes part in a pattern. -/
def Kind.patternPart : Kind → PatternPart
  | .identifier | .shorthandPropertyIdentifierPattern | .shorthandPropertyIdentifier => .bound
  | .objectPattern | .arrayPattern | .formalParameters | .restPattern | .parenthesizedExpression
  | .array | .object | .spreadElement => .all
  | .pairPattern | .pair => .only .value
  | .assignmentPattern | .objectAssignmentPattern | .assignmentExpression => .only .left
  | _ => .nothing

mutual

/-- The leaves that a pattern binds, in source order. -/
def boundLeaves : Node → List Node
  | .mk k r a b i cs =>
    match k.patternPart with
    | .bound => [.mk k r a b i cs]
    | .all => boundLeavesAll cs
    | .only role => boundLeavesIn role cs
    | .nothing => []

/-- The leaves that a list of patterns binds. -/
def boundLeavesAll : List Node → List Node
  | [] => []
  | c :: cs => boundLeaves c ++ boundLeavesAll cs

/-- The leaves that the first pattern in a role binds. -/
def boundLeavesIn (role : Role) : List Node → List Node
  | [] => []
  | c :: cs => if c.role == role then boundLeaves c else boundLeavesIn role cs

end

/-- The leaves that a pattern binds, if there is a pattern. -/
def boundLeaves? : Option Node → List Node
  | some n => boundLeaves n
  | none => []

/-! ### Targets -/

mutual

/-- The object that accesses start from. -/
def rootObject : Node → Node
  | .mk k r a b i cs =>
    if k.isAccess then (rootObjectIn cs).getD (.mk k r a b i cs) else .mk k r a b i cs

/-- The object that the access with the given children starts from. -/
def rootObjectIn : List Node → Option Node
  | [] => none
  | c :: cs => if c.role == .object then some (rootObject c) else rootObjectIn cs

end

/-- What a mutation writes to. -/
def mutationTarget? (n : Node) : Option Node :=
  if n.kind.isAssignment then n.child? .left
  else if n.kind == .updateExpression then n.child? .argument
  else none

/-- The names written by assigning to a target, each once: `a.b = 1` writes `a`. -/
def targetNames (source : Source) (target : Node) : Names :=
  Names.ofList ((boundLeaves (rootObject target)).map source.slice)

/-- The names that a mutation writes. -/
def writtenNames (source : Source) (mutation : Node) : Names :=
  match mutationTarget? mutation with
  | some target => targetNames source target
  | none => []

/-! ### References -/

/-- Every leaf under a node that reads a name, in source order. -/
def references (n : Node) : List Node :=
  n.walk.filter fun m => m.kind.isReference

/-- The names that are read under a node, each once, in order of first occurrence. -/
def referencedNames (source : Source) (n : Node) : Names :=
  Names.ofList ((references n).map source.slice)

/-- The name of a node that is a plain name. -/
def plainName? (source : Source) (n : Node) : Option String :=
  if n.kind == .identifier then some (source.slice n) else none

theorem plainName?_eq_some_iff {source : Source} {n : Node} {x : String} :
    plainName? source n = some x ↔ n.kind = .identifier ∧ source.slice n = x := by
  unfold plainName?
  split
  · next h => simp [beq_iff_eq.1 h]
  · next h => simp [mt beq_iff_eq.2 h]

/-- The role of the child towards the root of an expression: accesses lead to their object and
calls to their callee. -/
def Kind.rootRole? : Kind → Option Role
  | .memberExpression | .subscriptExpression => some .object
  | .callExpression => some .function
  | _ => none

mutual

/-- The name at the root of accesses, calls and parentheses. -/
def rootName? (source : Source) : Node → Option String
  | .mk k r a b i cs =>
    match k.rootRole? with
    | some role => rootNameIn? source role cs
    | none =>
      if k == .parenthesizedExpression then rootNameOnly? source cs
      else plainName? source (.mk k r a b i cs)

/-- The name at the root of the child in a role. -/
def rootNameIn? (source : Source) (role : Role) : List Node → Option String
  | [] => none
  | c :: cs => if c.role == role then rootName? source c else rootNameIn? source role cs

/-- The name at the root of an only child. -/
def rootNameOnly? (source : Source) : List Node → Option String
  | [c] => rootName? source c
  | _ => none

end

end ReactiveTemplate.Script

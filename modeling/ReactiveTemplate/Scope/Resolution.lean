/-
Resolution of names: which scopes a tree opens, what they declare, and where names are read.

One pass over a tree opens a scope at each function, block, loop and catch clause, declares the
names that a node binds when it reaches the node, and records the leaves that read a name. The
block of a function or catch clause shares the scope of the function or clause. Of a function only
parameters and body are visited, and of an import nothing.

* `Treatment`, `treatment` — what happens to a child;
* `Resolution` — scopes opened by nodes, recorded references, names that no scope declares;
* `resolveScript`, `resolveHandler` — the pass over a script, and over an expression that sees the
  scope of the script;
* `Resolution.scopeAt` — the scope in which a node's children are, given the one around it.
-/

import ReactiveTemplate.Scope.Forest
import ReactiveTemplate.Script.Binding

set_option relaxedAutoImplicit false
set_option autoImplicit false

namespace ReactiveTemplate

open Script

/-! ### The pass -/

/-- What happens to a child when its parent is visited. -/
inductive Treatment where
  /-- It is not visited. -/
  | skip
  /-- It is visited. -/
  | visit
  /-- It is a block that opens no scope: its statements are visited in the scope of its parent. -/
  | share
  deriving DecidableEq, Repr

/-- What happens to a child of a node of the given kind. -/
def treatment (parent : Kind) (child : Node) : Treatment :=
  if parent.isFunction then
    if child.role == .parameters then .visit
    else if child.role == .body then
      if child.kind == .statementBlock then .share else .visit
    else .skip
  else if parent == .importStatement then .skip
  else if parent == .catchClause && child.kind == .statementBlock then .share
  else .visit

/-- The kind of scope that a node opens, if it opens one. -/
def Script.Kind.opens? (k : Kind) : Option ScopeKind :=
  if k.isFunction then some .function
  else if k == .statementBlock || k.isForLoop || k == .catchClause then some .block
  else none

/-- A scope that a node opened. -/
structure Opening where
  /-- The number of the node. -/
  node : Nat
  /-- The scope it opened. -/
  scope : ScopeId
  deriving DecidableEq, Repr

/-- A leaf that reads a name, in the scope in which it does. -/
structure Reference where
  /-- The leaf. -/
  node : Node
  /-- The scope. -/
  scope : ScopeId

/-- What the pass has found so far. -/
structure Resolver where
  /-- All scopes. -/
  forest : Forest
  /-- The scopes that nodes opened; the last entry of a node counts. -/
  openings : List Opening
  /-- The references, in source order. -/
  references : List Reference
  /-- The numbers of the leaves that declare a name. -/
  declaring : List Nat
  /-- How many scopes were opened by nodes. -/
  counter : Nat

namespace Resolver

/-- Opens the scope of a node. -/
def openScope (r : Resolver) (n : Node) (kind : ScopeKind) (parent : ScopeId) :
    Resolver × ScopeId :=
  let counter := r.counter + 1
  let (forest, i) := r.forest.addScope (n.kind.name ++ "#" ++ toString counter) kind (some parent)
  ({ r with
      forest := forest
      openings := r.openings ++ [⟨n.id, i⟩]
      counter := counter }, i)

/-- Marks a leaf as one that declares its name. -/
def markDeclaring (r : Resolver) (n : Node) : Resolver :=
  { r with declaring := n.id :: r.declaring }

/-- Declares the names of leaves in a scope. -/
def declareLeaves (source : Source) (i : ScopeId) (r : Resolver) (leaves : List Node) : Resolver :=
  leaves.foldl
    (fun r leaf => { r.markDeclaring leaf with forest := r.forest.declare i (source.slice leaf) }) r

/-- Declares the names that a pattern binds in a scope. -/
def declarePattern (source : Source) (i : ScopeId) (r : Resolver) (pattern : Option Node) :
    Resolver :=
  r.declareLeaves source i (boundLeaves? pattern)

/-- Records a reference unless the leaf declares its name. -/
def refer (r : Resolver) (n : Node) (i : ScopeId) : Resolver :=
  if n.id ∈ r.declaring then r else { r with references := r.references ++ [⟨n, i⟩] }

end Resolver

/-- The local names of the entries of an import list. -/
def importedLeaf? (specifier : Node) : Option Node :=
  let leaf := (specifier.child? .newName).orElse fun _ => specifier.child? .name
  leaf.filter fun n => n.kind == .identifier

/-- The leaves that a part of an import clause binds. -/
def importPartLeaves (part : Node) : List Node :=
  match part.kind with
  | .identifier => [part]
  | .namespaceImport => part.children.flatMap boundLeaves
  | .namedImports => part.children.filterMap importedLeaf?
  | _ => []

/-- The leaves that an import statement binds. -/
def importedLeaves (n : Node) : List Node :=
  (n.children.filter fun c => c.kind == .importClause).flatMap fun clause =>
    clause.children.flatMap importPartLeaves

/-- The declarations that a function makes: its name around it or inside, its parameters inside. -/
def declareFunction (source : Source) (n : Node) (outer inner : ScopeId) (r : Resolver) :
    Resolver :=
  let r :=
    if n.kind.isFunctionDeclaration then r.declarePattern source outer (n.child? .name)
    else if n.kind.isFunctionExpression then r.declarePattern source inner (n.child? .name)
    else r
  let r := r.declarePattern source inner (n.child? .parameter)
  r.declarePattern source inner (n.child? .parameters)

/-- The declarations that a loop head makes. -/
def declareLoop (source : Source) (n : Node) (outer inner : ScopeId) (r : Resolver) : Resolver :=
  let r := r.declarePattern source (r.forest.closestFunction outer) (n.child? .varHead)
  r.declarePattern source inner (n.child? .lexicalHead)

/-- The declarations that a node makes when it is reached: `outer` is the scope around it and
`inner` the scope it opened, or the same if it opened none. Imports are declared in `root`. -/
def declareNames (source : Source) (root : ScopeId) (n : Node) (outer inner : ScopeId)
    (r : Resolver) : Resolver :=
  let declarators (i : ScopeId) : Resolver :=
    n.children.foldl (fun r d => r.declarePattern source i (d.child? .name)) r
  if n.kind.isFunction then declareFunction source n outer inner r
  else if n.kind.isForLoop then declareLoop source n outer inner r
  else
    match n.kind with
    | .lexicalDeclaration => declarators outer
    | .variableDeclaration => declarators (r.forest.closestFunction outer)
    | .classDeclaration => r.declarePattern source outer (n.child? .name)
    | .classExpression =>
      match n.child? .name with
      | some name => r.markDeclaring name
      | none => r
    | .importStatement => r.declareLeaves source root (importedLeaves n)
    | .catchClause => r.declarePattern source inner (n.child? .parameter)
    | _ => r

/-- What happens at a node before its children: its scope is opened unless it is shared, its names
are declared, and it is recorded if it reads a name. Gives the scope of the children. -/
def enterNode (source : Source) (root : ScopeId) (n : Node) (shared : Bool) (scope : ScopeId)
    (r : Resolver) : Resolver × ScopeId :=
  if shared then (r, scope)
  else
    match n.kind.opens? with
    | some kind =>
      let (r, inner) := r.openScope n kind scope
      (declareNames source root n scope inner r, inner)
    | none =>
      let r := declareNames source root n scope scope r
      (if n.kind.isReference then r.refer n scope else r, scope)

mutual

/-- Visits a node in a scope. -/
def visitNode (source : Source) (root : ScopeId) (shared : Bool) (scope : ScopeId) :
    Node → Resolver → Resolver
  | .mk k r a b i cs, s =>
    let (s, inner) := enterNode source root (.mk k r a b i cs) shared scope s
    visitChildren source root k inner cs s

/-- Visits the children of a node of the given kind. -/
def visitChildren (source : Source) (root : ScopeId) (parent : Kind) (scope : ScopeId) :
    List Node → Resolver → Resolver
  | [], s => s
  | c :: cs, s =>
    let s :=
      match treatment parent c with
      | .skip => s
      | .visit => visitNode source root false scope c s
      | .share => visitNode source root true scope c s
    visitChildren source root parent scope cs s

end

/-! ### Results -/

/-- What the names of a tree resolve to. -/
structure Resolution where
  /-- The outermost scope of the tree. -/
  root : ScopeId
  /-- The scopes that nodes opened; the last entry of a node counts. -/
  openings : List Opening
  /-- The references, in source order. -/
  references : List Reference
  /-- The names read that no scope declares. -/
  globals : Names

namespace Resolution

/-- The scope that a node opened, if it opened one. -/
def opened? (r : Resolution) (n : Node) : Option ScopeId :=
  (r.openings.reverse.find? fun o => o.node == n.id).map Opening.scope

/-- The scope of a node's children, given the scope around the node. -/
def scopeAt (r : Resolution) (n : Node) (around : ScopeId) : ScopeId :=
  (r.opened? n).getD around

/-- How many nodes have a scope of their own. -/
def size (r : Resolution) : Nat :=
  (r.openings.map Opening.node).eraseDups.length

end Resolution

/-- The names of references that no scope in their chain declares. -/
def globalNames (source : Source) (forest : Forest) (references : List Reference) : Names :=
  Names.ofList <| references.filterMap fun ref =>
    let name := source.slice ref.node
    if (forest.owner? ref.scope name).isNone then some name else none

/-- The pass over a tree whose outermost scope has just been opened. -/
def resolveIn (source : Source) (n : Node) (forest : Forest) (root : ScopeId) :
    Forest × Resolution :=
  let s := visitNode source root false root n ⟨forest, [⟨n.id, root⟩], [], [], 0⟩
  (s.forest, ⟨root, s.openings, s.references, globalNames source s.forest s.references⟩)

/-- The pass over a script. -/
def resolveScript (source : Source) : Forest × Resolution :=
  let (forest, root) := Forest.empty.addScope "module" .module none
  resolveIn source source.root forest root

/-- The pass over an expression that sees a scope opened before. -/
def resolveHandler (source : Source) (n : Node) (forest : Forest) (around : ScopeId) :
    Forest × Resolution :=
  let (forest, root) := forest.addScope "expression" .function (some around)
  resolveIn source n forest root

end ReactiveTemplate

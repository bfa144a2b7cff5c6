/-
Mutations of module variables.

* `ScopedNode`, `scopedWalk` — the nodes of a tree in preorder, each with the scope it is in;
* `changesModule` — whether a name written in a scope is a variable of the module or a global;
* `changedNames` — the names of module variables and globals that a tree writes.
-/

import ReactiveTemplate.Scope.Resolution

set_option relaxedAutoImplicit false
set_option autoImplicit false

namespace ReactiveTemplate

open Script

/-- A node with the scope of its children. -/
structure ScopedNode where
  /-- The node. -/
  node : Node
  /-- The scope. -/
  scope : ScopeId

mutual

/-- A tree in preorder, each node with the scope it opens or else the scope around it. -/
def scopedWalk (r : Resolution) (around : ScopeId) : Node → List ScopedNode
  | .mk k role a b i cs =>
    let scope := r.scopeAt (.mk k role a b i cs) around
    ⟨.mk k role a b i cs, scope⟩ :: scopedWalkAll r scope cs

/-- The trees of a list in preorder, one after the other. -/
def scopedWalkAll (r : Resolution) (around : ScopeId) : List Node → List ScopedNode
  | [] => []
  | c :: cs => scopedWalk r around c ++ scopedWalkAll r around cs

end

/-- Whether a name written in a scope is a variable of the module, or declared nowhere. -/
def changesModule (forest : Forest) (moduleScope scope : ScopeId) (name : String) : Bool :=
  match forest.owner? scope name with
  | none => true
  | some owner => owner == moduleScope

/-- The names of the module's variables and of globals that a node writes in a scope. -/
def changedAt (source : Source) (forest : Forest) (moduleScope : ScopeId) (s : ScopedNode) :
    List String :=
  if s.node.kind.isMutation then
    (writtenNames source s.node).filter (changesModule forest moduleScope s.scope)
  else []

/-- The names of the module's variables and of globals that a tree writes. -/
def changedNames (source : Source) (forest : Forest) (r : Resolution) (moduleScope : ScopeId)
    (n : Node) : List String :=
  (scopedWalk r r.root n).flatMap (changedAt source forest moduleScope)

end ReactiveTemplate

/-
Syntax trees of the script.

A node has a kind, a role in its parent, an extent in bytes of the source text, a number, and
children in source order. Numbers are given in preorder once a tree is complete, so that a node
can be told from every other node of its tree.

* `Node` — the trees;
* `Node.walk` — a tree's nodes in preorder;
* `Node.child?` — the first child in a given role;
* `Node.number` — the tree with its nodes numbered in preorder.
-/

import ReactiveTemplate.Script.Kind

set_option relaxedAutoImplicit false
set_option autoImplicit false

namespace ReactiveTemplate.Script

/-- A node of a syntax tree. -/
inductive Node where
  | mk (kind : Kind) (role : Role) (start stop : Nat) (id : Nat) (children : List Node)

namespace Node

/-- What the node is. -/
def kind : Node → Kind
  | mk k _ _ _ _ _ => k

/-- What the node is to its parent. -/
def role : Node → Role
  | mk _ r _ _ _ _ => r

/-- Byte offset of the first token of the node. -/
def start : Node → Nat
  | mk _ _ a _ _ _ => a

/-- Byte offset behind the last token of the node. -/
def stop : Node → Nat
  | mk _ _ _ b _ _ => b

/-- The number of the node in its tree. -/
def id : Node → Nat
  | mk _ _ _ _ i _ => i

/-- The children in source order. -/
def children : Node → List Node
  | mk _ _ _ _ _ cs => cs

/-- The same node in another role. -/
def withRole (r : Role) : Node → Node
  | mk k _ a b i cs => mk k r a b i cs

/-- The same node as one of another kind. -/
def withKind (k : Kind) : Node → Node
  | mk _ r a b i cs => mk k r a b i cs

/-- The first child in a role. -/
def child? (n : Node) (r : Role) : Option Node :=
  n.children.find? fun c => c.role == r

mutual

/-- The node and all its descendants in preorder. -/
def walk : Node → List Node
  | mk k r a b i cs => mk k r a b i cs :: walkAll cs

/-- The nodes of a list of trees, tree by tree in preorder. -/
def walkAll : List Node → List Node
  | [] => []
  | c :: cs => walk c ++ walkAll cs

end

mutual

/-- Numbers the nodes of a tree in preorder, starting with `next`. -/
def numberFrom (next : Nat) : Node → Node × Nat
  | mk k r a b _ cs =>
    let (cs', after) := numberAllFrom (next + 1) cs
    (mk k r a b next cs', after)

/-- Numbers the nodes of a list of trees in turn. -/
def numberAllFrom (next : Nat) : List Node → List Node × Nat
  | [] => ([], next)
  | c :: cs =>
    let (c', after) := numberFrom next c
    let (cs', last) := numberAllFrom after cs
    (c' :: cs', last)

end

/-- The tree with its nodes numbered in preorder from zero. -/
def number (n : Node) : Node :=
  (numberFrom 0 n).1

end Node

end ReactiveTemplate.Script

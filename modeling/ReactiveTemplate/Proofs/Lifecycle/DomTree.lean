/-
**The document tree, and what the generated statements do to it.**

A statement that works on the document tree is given its meaning here, on a store of nodes: nodes have
numbers, the target of the component is node zero, and each node has a parent and children.  Variables
hold nodes or event handlers.  The texts of expressions and handlers mean nothing to the store.

A statement fails where the document tree would raise an error, and also where the tree would go on
although the statement has missed its purpose: a node is appended that has a parent already, or a
listener is removed that was never added.  A run that does not fail is free of all that.

Main definitions:

* `ReactiveTemplate.DomNode`, `ReactiveTemplate.Dom` — the store;
* `ReactiveTemplate.Dom.exec`, `ReactiveTemplate.Dom.run` — statements and lists of them;
* `ReactiveTemplate.Shows`, `ReactiveTemplate.ShowsAll` — a part of the tree shows a piece of markup.

Main results:

* `ReactiveTemplate.Dom.run_append` — lists of statements run one after the other;
* `ReactiveTemplate.Dom.exec_setAttribute`, …, `ReactiveTemplate.Dom.exec_removeListener` — statements in
  the situation in which they are generated.
-/

import Mathlib.Data.List.Forall2
import ReactiveTemplate.Generation.Markup

set_option relaxedAutoImplicit false
set_option autoImplicit false

namespace ReactiveTemplate

open Script

/-! ### The store -/

/-- What a node of the document tree is. -/
inductive DomContent where
  | element (tag : String)
  | text (content : Operand)
  deriving DecidableEq, Repr

/-- A listener of a node.  The handler is known by the text that names it; if a variable of that name
kept a handler when the listener was added, its text is recorded too. -/
structure Listener where
  event : String
  handler : String
  kept : Option String
  deriving DecidableEq, Repr

/-- A node of the document tree.  Attributes and listeners are listed in the order in which they were set
and added, one entry each time. -/
structure DomNode where
  content : DomContent
  attributes : List (String × Operand)
  listeners : List Listener
  parent : Option Nat
  children : List Nat
  deriving DecidableEq, Repr

/-- What a variable holds. -/
inductive Held where
  | node (i : Nat)
  | handler (source : String)
  deriving DecidableEq, Repr

/-- The nodes that were made, and what variables hold. -/
structure Dom where
  nodes : List DomNode
  held : String → Option Held

/-- Elements may have children, texts may not. -/
def DomNode.isElement (n : DomNode) : Bool :=
  match n.content with
  | .element _ => true
  | .text _ => false

/-- A node that stands alone. -/
def DomNode.ofContent (content : DomContent) : DomNode :=
  ⟨content, [], [], none, []⟩

/-- Whether a listener is the one that a removal names. -/
def Listener.isNamed (event handler : String) (l : Listener) : Bool :=
  l.event == event && l.handler == handler

namespace Dom

/-- The store with nothing but a target. -/
def ofTarget (target : DomNode) : Dom :=
  ⟨[target], fun _ => none⟩

/-- Assigns to a variable. -/
def hold (d : Dom) (v : String) (h : Held) : Dom :=
  { d with held := fun w => if w = v then some h else d.held w }

/-- Changes a node. -/
def modify (d : Dom) (i : Nat) (f : DomNode → DomNode) : Dom :=
  { d with nodes := d.nodes.modify i f }

/-- Puts another node in the place of a node. -/
def set (d : Dom) (i : Nat) (n : DomNode) : Dom :=
  { d with nodes := d.nodes.set i n }

/-- Makes a node that stands alone, and assigns it to a variable. -/
def add (d : Dom) (v : String) (content : DomContent) : Dom :=
  { d with nodes := d.nodes ++ [DomNode.ofContent content] }.hold v (.node d.nodes.length)

/-- Puts a node behind the children of another. -/
def attach (d : Dom) (p i : Nat) : Dom :=
  (d.modify p fun n => { n with children := n.children ++ [i] }).modify i
    fun n => { n with parent := some p }

/-- Takes a node out of the children of another. -/
def detach (d : Dom) (p i : Nat) : Dom :=
  (d.modify p fun n => { n with children := n.children.erase i }).modify i
    fun n => { n with parent := none }

/-- The node that a variable holds. -/
def nodeOf? (d : Dom) (v : String) : Option Nat :=
  match d.held v with
  | some (.node i) => some i
  | _ => none

/-- The handler that a variable keeps. -/
def keptBy? (d : Dom) (v : String) : Option String :=
  match d.held v with
  | some (.handler source) => some source
  | _ => none

/-- The node that a receiver stands for. -/
def receiver? (d : Dom) : Receiver → Option Nat
  | .target => some 0
  | .element v => d.nodeOf? v

/-- What a statement does. -/
def exec (d : Dom) : DomStatement → Option Dom
  | .createElement v tag => some (d.add v (.element tag))
  | .createText v content => some (d.add v (.text content))
  | .setAttribute v name value => do
    let i ← d.nodeOf? v
    let n ← d.nodes[i]?
    if n.isElement then
      some (d.modify i fun n => { n with attributes := n.attributes ++ [(name, value)] })
    else none
  | .keepHandler v source => some (d.hold v (.handler source))
  | .addListener v event handler => do
    let i ← d.nodeOf? v
    let listener : Listener := ⟨event, handler, d.keptBy? handler⟩
    some (d.modify i fun n => { n with listeners := n.listeners ++ [listener] })
  | .appendChild parent v => do
    let p ← d.receiver? parent
    let i ← d.nodeOf? v
    let receiver ← d.nodes[p]?
    let child ← d.nodes[i]?
    if receiver.isElement ∧ child.parent = none ∧ i ≠ p then some (d.attach p i) else none
  | .setData v source => do
    let i ← d.nodeOf? v
    let n ← d.nodes[i]?
    if n.isElement then none
    else some (d.modify i fun n => { n with content := .text (.expression source) })
  | .removeChild parent v => do
    let p ← d.receiver? parent
    let i ← d.nodeOf? v
    let receiver ← d.nodes[p]?
    if i ∈ receiver.children then some (d.detach p i) else none
  | .removeListener v event handler => do
    let i ← d.nodeOf? v
    let n ← d.nodes[i]?
    if n.listeners.any (Listener.isNamed event handler) then
      some (d.modify i fun n => { n with listeners := n.listeners.eraseP (Listener.isNamed event handler) })
    else none

/-- What several statements do, one after the other. -/
def run : List DomStatement → Dom → Option Dom
  | [], d => some d
  | s :: rest, d => (d.exec s).bind (run rest)

theorem run_append (xs ys : List DomStatement) (d : Dom) :
    run (xs ++ ys) d = (run xs d).bind (run ys) := by
  induction xs generalizing d with
  | nil => rfl
  | cons s xs ih =>
      rw [List.cons_append, run, run, Option.bind_assoc]
      exact congrArg _ (funext ih)

/-! ### Looking up -/

variable {d : Dom} {i j : Nat} {v w : String} {h : Held} {content : DomContent} {f : DomNode → DomNode}

@[simp] theorem nodes_hold : (d.hold v h).nodes = d.nodes := rfl

@[simp] theorem held_modify : (d.modify i f).held = d.held := rfl

@[simp] theorem held_hold_self : (d.hold v h).held v = some h := if_pos rfl

@[simp] theorem held_hold_of_ne (hw : w ≠ v) : (d.hold v h).held w = d.held w := if_neg hw

@[simp] theorem nodes_add : (d.add v content).nodes = d.nodes ++ [.ofContent content] := rfl

@[simp] theorem held_add_self : (d.add v content).held v = some (.node d.nodes.length) := if_pos rfl

@[simp] theorem held_add_of_ne (hw : w ≠ v) : (d.add v content).held w = d.held w := if_neg hw

@[simp] theorem length_modify : (d.modify i f).nodes.length = d.nodes.length :=
  List.length_modify _ _ _

@[simp] theorem getElem?_modify_self : (d.modify i f).nodes[i]? = d.nodes[i]?.map f := by
  simp [modify]

@[simp] theorem getElem?_modify_of_ne (hj : i ≠ j) : (d.modify i f).nodes[j]? = d.nodes[j]? := by
  simp [modify, hj]

@[simp] theorem nodes_set {n : DomNode} : (d.set i n).nodes = d.nodes.set i n := rfl

@[simp] theorem held_set {n : DomNode} : (d.set i n).held = d.held := rfl

theorem set_self {n : DomNode} (hn : d.nodes[i]? = some n) : d.set i n = d := by
  obtain ⟨hi, rfl⟩ := List.getElem?_eq_some_iff.1 hn
  rw [set, List.set_getElem_self]

theorem modify_eq_set {n : DomNode} (f : DomNode → DomNode) (hn : d.nodes[i]? = some n) :
    d.modify i f = d.set i (f n) := by
  obtain ⟨hi, rfl⟩ := List.getElem?_eq_some_iff.1 hn
  have hnodes : d.nodes.modify i f = d.nodes.set i (f d.nodes[i]) := by
    refine List.ext_getElem? fun j => ?_
    by_cases hj : i = j
    · subst hj
      simp [hi]
    · simp [hj]
  rw [modify, hnodes]
  rfl

section

variable {p : Nat}

@[simp] theorem held_attach : (d.attach p i).held = d.held := rfl

@[simp] theorem held_detach : (d.detach p i).held = d.held := rfl

@[simp] theorem length_attach : (d.attach p i).nodes.length = d.nodes.length := by
  simp [attach]

theorem getElem?_attach_of_ne (hp : j ≠ p) (hi : j ≠ i) : (d.attach p i).nodes[j]? = d.nodes[j]? := by
  rw [attach, getElem?_modify_of_ne hi.symm, getElem?_modify_of_ne hp.symm]

theorem getElem?_attach_receiver (hne : i ≠ p) : (d.attach p i).nodes[p]? =
    d.nodes[p]?.map fun n => { n with children := n.children ++ [i] } := by
  rw [attach, getElem?_modify_of_ne hne, getElem?_modify_self]

theorem getElem?_attach_child (hne : i ≠ p) : (d.attach p i).nodes[i]? =
    d.nodes[i]?.map fun n => { n with parent := some p } := by
  rw [attach, getElem?_modify_self, getElem?_modify_of_ne hne.symm]

theorem getElem?_detach_of_ne (hp : j ≠ p) (hi : j ≠ i) : (d.detach p i).nodes[j]? = d.nodes[j]? := by
  rw [detach, getElem?_modify_of_ne hi.symm, getElem?_modify_of_ne hp.symm]

theorem getElem?_detach_receiver (hne : i ≠ p) : (d.detach p i).nodes[p]? =
    d.nodes[p]?.map fun n => { n with children := n.children.erase i } := by
  rw [detach, getElem?_modify_of_ne hne, getElem?_modify_self]

theorem getElem?_detach_child (hne : i ≠ p) : (d.detach p i).nodes[i]? =
    d.nodes[i]?.map fun n => { n with parent := none } := by
  rw [detach, getElem?_modify_self, getElem?_modify_of_ne hne.symm]

end

theorem nodeOf?_eq_some_iff : d.nodeOf? v = some i ↔ d.held v = some (.node i) := by
  unfold nodeOf?
  split
  · next heq => simp [heq]
  · next hne =>
      constructor
      · intro h
        cases h
      · intro h
        exact absurd h (hne i)

/-- A receiver is where it was if its variable holds what it held. -/
theorem receiver?_congr {d' : Dom} {parent : Receiver}
    (h : ∀ v, parent = .element v → d'.held v = d.held v) : d'.receiver? parent = d.receiver? parent := by
  cases parent with
  | target => rfl
  | element v => rw [receiver?, receiver?, nodeOf?, nodeOf?, h v rfl]

/-! ### Statements where they are generated -/

variable {n m : DomNode} {p : Nat} {parent : Receiver}

theorem exec_setAttribute {name : String} {value : Operand} (hv : d.held v = some (.node i))
    (hn : d.nodes[i]? = some n) (helement : n.isElement = true) :
    d.exec (.setAttribute v name value) =
      some (d.modify i fun n => { n with attributes := n.attributes ++ [(name, value)] }) := by
  simp [exec, nodeOf?_eq_some_iff.2 hv, hn, helement]

theorem exec_addListener {event handler : String} (hv : d.held v = some (.node i)) :
    d.exec (.addListener v event handler) = some (d.modify i fun n =>
      { n with listeners := n.listeners ++ [⟨event, handler, d.keptBy? handler⟩] }) := by
  simp [exec, nodeOf?_eq_some_iff.2 hv]

theorem exec_appendChild (hp : d.receiver? parent = some p) (hv : d.held v = some (.node i))
    (hm : d.nodes[p]? = some m) (helement : m.isElement = true) (hn : d.nodes[i]? = some n)
    (hparent : n.parent = none) (hne : i ≠ p) :
    d.exec (.appendChild parent v) = some (d.attach p i) := by
  simp [exec, hp, nodeOf?_eq_some_iff.2 hv, hm, helement, hn, hparent, hne]

theorem exec_removeChild (hp : d.receiver? parent = some p) (hv : d.held v = some (.node i))
    (hm : d.nodes[p]? = some m) (hmem : i ∈ m.children) :
    d.exec (.removeChild parent v) = some (d.detach p i) := by
  simp [exec, hp, nodeOf?_eq_some_iff.2 hv, hm, hmem]

/-- The listener that was added first is the one that is removed. -/
theorem exec_removeListener {l : Listener} {rest : List Listener} (hv : d.held v = some (.node i))
    (hn : d.nodes[i]? = some n) (hl : n.listeners = l :: rest) :
    d.exec (.removeListener v l.event l.handler) =
      some (d.modify i fun n =>
        { n with listeners := n.listeners.eraseP (Listener.isNamed l.event l.handler) }) := by
  have hnamed : l.isNamed l.event l.handler = true := by simp [Listener.isNamed]
  simp [exec, nodeOf?_eq_some_iff.2 hv, hn, hl, hnamed]

end Dom

/-! ### What markup looks like in the tree -/

/-- The attributes that are set, in source order. -/
def setAttributes (options : Options) (attributes : List Attribute) : List (String × Operand) :=
  attributes.filterMap fun a =>
    match a.value with
    | .quoted text => some (a.name, .literal text)
    | .expression e =>
      if isEventName options a.name then none else some (a.name, .expression e.operand)

/-- The events that are listened to, in source order, each with its handler. -/
def eventAttributes (options : Options) (attributes : List Attribute) : List (String × Embedded) :=
  attributes.filterMap fun a =>
    match a.value with
    | .quoted _ => none
    | .expression e =>
      if isEventName options a.name then some (eventOf options a.name, e) else none

theorem setAttributes_cons (options : Options) (a : Attribute) (attributes : List Attribute) :
    setAttributes options (a :: attributes) =
      setAttributes options [a] ++ setAttributes options attributes :=
  List.filterMap_append (l := [a])

theorem eventAttributes_cons (options : Options) (a : Attribute) (attributes : List Attribute) :
    eventAttributes options (a :: attributes) =
      eventAttributes options [a] ++ eventAttributes options attributes :=
  List.filterMap_append (l := [a])

/-- A listener answers to an event attribute: a handler that is a plain name is listened with by that
name, any other one is kept with its changes announced. -/
structure Listens (c : MarkupContext) (a : String × Embedded) (l : Listener) : Prop where
  event : l.event = a.1
  plain : ∀ name, plainName? a.2.toSource a.2.node = some name → l.handler = name
  kept : plainName? a.2.toSource a.2.node = none →
    ∃ text, handlerText c a.2 = .ok text ∧ l.kept = some (operandText a.2.node.kind text)

mutual

/-- A node shows a fragment: `Shows c d p f i` says that node `i` of the store is a child of node `p` and
looks like the fragment `f`, with all that is in it. -/
def Shows (c : MarkupContext) (d : Dom) (p : Nat) : Fragment → Nat → Prop
  | .element tag attributes children _, i =>
      ∃ n, d.nodes[i]? = some n ∧ n.content = .element tag ∧ n.parent = some p ∧
        n.attributes = setAttributes c.options attributes ∧
        List.Forall₂ (Listens c) (eventAttributes c.options attributes) n.listeners ∧
        n.children.Nodup ∧ ShowsAll c d i children n.children
  | .text value _, i => d.nodes[i]? = some ⟨.text (.literal value), [], [], some p, []⟩
  | .expression e _, i => d.nodes[i]? = some ⟨.text (.expression e.operand), [], [], some p, []⟩

/-- Nodes show fragments, one by one. -/
def ShowsAll (c : MarkupContext) (d : Dom) (p : Nat) : List Fragment → List Nat → Prop
  | [], ids => ids = []
  | f :: fs, ids => ∃ i rest, ids = i :: rest ∧ Shows c d p f i ∧ ShowsAll c d p fs rest

end

end ReactiveTemplate

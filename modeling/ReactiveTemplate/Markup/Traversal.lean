/-
Going over the markup.

* `MarkupItem` — what is met on the way: elements, attributes, texts and expressions;
* `Fragment.items` — a fragment and all that is in it: of an element, attributes before children;
* `Extent`, `Document.items` — the items of a document, at top level or all of them;
* `VisitError` — what happens when something else than an item is visited.
-/

import ReactiveTemplate.Markup.Basic

set_option relaxedAutoImplicit false
set_option autoImplicit false

namespace ReactiveTemplate

/-- The kinds of items. -/
inductive ItemKind where
  | element
  | attr
  | text
  | expression
  deriving DecidableEq, Repr

/-- The word for a kind of item. -/
def ItemKind.name : ItemKind → String
  | element => "Element"
  | attr => "Attribute"
  | text => "Text"
  | expression => "Expression"

/-- An item of the markup. -/
structure MarkupItem where
  /-- Its kind. -/
  kind : ItemKind
  /-- Offset in the template. -/
  start : Nat
  deriving DecidableEq, Repr

/-- The item of an attribute. -/
def Attribute.item (a : Attribute) : MarkupItem :=
  ⟨.attr, a.start⟩

/-- The item of a fragment. -/
def Fragment.item : Fragment → MarkupItem
  | .element _ _ _ start => ⟨.element, start⟩
  | .text _ start => ⟨.text, start⟩
  | .expression _ start => ⟨.expression, start⟩

mutual

/-- A fragment and all that is in it: of an element, attributes before children. -/
def Fragment.items : Fragment → List MarkupItem
  | .element _ attributes children start =>
    ⟨.element, start⟩ :: (attributes.map Attribute.item ++ Fragment.itemsAll children)
  | .text _ start => [⟨.text, start⟩]
  | .expression _ start => [⟨.expression, start⟩]

/-- Fragments and all that is in them. -/
def Fragment.itemsAll : List Fragment → List MarkupItem
  | [] => []
  | f :: fs => Fragment.items f ++ Fragment.itemsAll fs

end

/-- How far a visit goes. -/
inductive Extent where
  /-- The fragments at top level. -/
  | top
  /-- Everything, depth first. -/
  | deep
  deriving DecidableEq, Repr

/-- The items that a visit of the markup of a document meets. -/
def Document.items (d : Document) : Extent → List MarkupItem
  | .top => d.html.map Fragment.item
  | .deep => Fragment.itemsAll d.html

/-- What keeps something from being visited. -/
inductive VisitError where
  /-- A whole document is no item. -/
  | document
  deriving DecidableEq, Repr

/-- What the message says. -/
def VisitError.message : VisitError → String
  | document => "Unknown fragment node type: Document"

/-- The items that a visit meets, which may end with the document itself: a document is no item of
its own markup. -/
def Document.visit (d : Document) (extent : Extent) (itself : Bool) :
    Except VisitError (List MarkupItem) :=
  if itself then .error .document else .ok (d.items extent)

end ReactiveTemplate

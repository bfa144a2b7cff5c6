/-
Statements of the generated script that work on the document tree.

* `Receiver` — what a node is put into: the target of the component, or an element of it;
* `Operand`, `operandText` — values that statements take;
* `DomStatement`, `DomStatement.render` — the statements, and how they are written;
* `UpdateBlock`, `MarkupCode` — the statements that create, update and destroy markup.
-/

import ReactiveTemplate.Script.Kind
import ReactiveTemplate.Text.Literal

set_option relaxedAutoImplicit false
set_option autoImplicit false

namespace ReactiveTemplate

/-- What a node is put into. -/
inductive Receiver where
  /-- What the component is put into. -/
  | target
  /-- The element that a variable holds. -/
  | element (holder : String)
  deriving DecidableEq, Repr

/-- The variable that holds a receiver. -/
def Receiver.render : Receiver → String
  | target => "$$target"
  | element v => v

/-- A value that a statement takes. -/
inductive Operand where
  /-- A text. -/
  | literal (text : String)
  /-- What an expression gives. -/
  | expression (source : String)
  deriving DecidableEq, Repr

/-- A value as it is written. -/
def Operand.render : Operand → String
  | literal text => Text.literal text
  | expression source => source

/-- The text of an expression of the given kind as one operand: several expressions separated by
commas are put in parentheses. -/
def operandText (kind : Script.Kind) (text : String) : String :=
  if kind == .sequenceExpression then "(" ++ text ++ ")" else text

/-- A statement that works on the document tree. -/
inductive DomStatement where
  /-- Makes an element. -/
  | createElement (holder tag : String)
  /-- Makes a text node. -/
  | createText (holder : String) (content : Operand)
  /-- Sets an attribute of an element. -/
  | setAttribute (holder name : String) (value : Operand)
  /-- Keeps an event handler in a variable. -/
  | keepHandler (holder source : String)
  /-- Adds a listener to an element. -/
  | addListener (holder event handler : String)
  /-- Puts the node of a variable behind the children of a receiver. -/
  | appendChild (parent : Receiver) (holder : String)
  /-- Changes the text of a text node. -/
  | setData (holder source : String)
  /-- Takes a node out of a receiver. -/
  | removeChild (parent : Receiver) (holder : String)
  /-- Takes a listener from an element. -/
  | removeListener (holder event handler : String)
  deriving DecidableEq, Repr

/-- A statement as it is written. -/
def DomStatement.render : DomStatement → String
  | createElement v tag => v ++ " = document.createElement(" ++ Text.literal tag ++ ");"
  | createText v content => v ++ " = document.createTextNode(" ++ content.render ++ ");"
  | setAttribute v name value =>
    v ++ ".setAttribute(" ++ Text.literal name ++ ", " ++ value.render ++ ");"
  | keepHandler v source => v ++ " = " ++ source ++ ";"
  | addListener v event handler =>
    v ++ ".addEventListener(" ++ Text.literal event ++ ", " ++ handler ++ ");"
  | appendChild parent v => parent.render ++ ".appendChild(" ++ v ++ ");"
  | setData v source => v ++ ".data = " ++ source ++ ";"
  | removeChild parent v => parent.render ++ ".removeChild(" ++ v ++ ");"
  | removeListener v event handler =>
    v ++ ".removeEventListener(" ++ Text.literal event ++ ", " ++ handler ++ ");"

/-- A statement that runs when one of some names has changed. -/
structure UpdateBlock where
  /-- The names. -/
  names : List String
  /-- The statement. -/
  statement : DomStatement
  deriving DecidableEq, Repr

/-- What creates, updates and destroys a part of the markup. -/
structure MarkupCode where
  /-- The variables in use, in the order of the markup. -/
  locals : List String
  /-- What creates the part. -/
  create : List DomStatement
  /-- What updates the part. -/
  update : List UpdateBlock
  /-- What destroys the part. -/
  destroy : List DomStatement
  deriving DecidableEq, Repr

namespace MarkupCode

/-- The code of no markup. -/
def empty : MarkupCode :=
  ⟨[], [], [], []⟩

/-- The code of two parts, one after the other. -/
def append (a b : MarkupCode) : MarkupCode :=
  ⟨a.locals ++ b.locals, a.create ++ b.create, a.update ++ b.update, a.destroy ++ b.destroy⟩

instance : Append MarkupCode := ⟨append⟩

end MarkupCode

end ReactiveTemplate

/-
Code for the markup of a document.

One pass over the markup names a variable for each node and handler and gives the statements that
create, update and destroy it. A part of the markup is updated if it reads a name that may change.

* `MarkupContext` — what the pass looks up;
* `handlerText` — an event handler with its changes announced;
* `attributeCode`, `fragmentCode` — the code of an attribute, and of a fragment;
* `markupCode` — the code of all markup of a document.
-/

import ReactiveTemplate.Analysis.Basic
import ReactiveTemplate.Generation.Dom
import ReactiveTemplate.Generation.Error
import ReactiveTemplate.Generation.Guard
import ReactiveTemplate.Generation.Identifier
import ReactiveTemplate.Generation.Instrument

set_option relaxedAutoImplicit false
set_option autoImplicit false

namespace ReactiveTemplate

open Script

/-- What the code of markup depends on. -/
structure MarkupContext where
  /-- The options. -/
  options : Options
  /-- The script. -/
  program : Option Source
  /-- The analysis. -/
  analysis : Analysis
  /-- The tracked names. -/
  tracked : Names
  /-- The indices of names. -/
  bindings : Bindings

namespace MarkupContext

/-- The context of a document and its analysis. -/
def of (options : Options) (program : Option Source) (a : Analysis) : MarkupContext :=
  ⟨options, program, a, a.tracked, a.bindings⟩

/-- The names which an expression reads and which may change. -/
def changing (c : MarkupContext) (e : Embedded) : List String :=
  (templateNames e.toSource e.node c.program).filter fun name => name ∈ c.analysis.willChange

/-- What decides which changes of a handler are announced. -/
def tracking (c : MarkupContext) (e : Embedded) (r : Resolution) : Tracking :=
  ⟨e.toSource, c.analysis.forest, r, c.analysis.scopes.root, c.tracked, c.bindings⟩

end MarkupContext

/-- An expression as an operand. -/
def Script.Embedded.operand (e : Embedded) : String :=
  operandText e.node.kind e.source

/-- The block that runs a statement when one of some names has changed; none without names. -/
def updateBlocks (names : List String) (statement : DomStatement) : List UpdateBlock :=
  if names.isEmpty then [] else [⟨names, statement⟩]

/-! ### Attributes -/

/-- The text of an event handler with its changes announced. A handler that was not analysed as one
stays as it is. -/
def handlerText (c : MarkupContext) (e : Embedded) : Except GenerationError String :=
  match c.analysis.handlerScopes? e.offset with
  | none => .ok e.source
  | some r =>
    let patch := announce .empty (announcements (c.tracking e r) r.root e.node)
    match patchedText? e.toSource patch e.node with
    | some text => .ok text
    | none => .error .undecodable

/-- The listener of an element and its removal. -/
def listenerCode (holder event handler : String) : MarkupCode :=
  ⟨[], [.addListener holder event handler], [], [.removeListener holder event handler]⟩

/-- The code of an event attribute. A handler that is a plain name is used as it is; any other one
is kept in a variable. -/
def eventCode (c : MarkupContext) (holder event : String) (e : Embedded) (names : NameCounter) :
    Except GenerationError (MarkupCode × NameCounter) :=
  match plainName? e.toSource e.node with
  | some handler => .ok (listenerCode holder event handler, names)
  | none => do
    let (handler, names) := names.fresh (identifierOf event ++ "_handler")
    let text ← handlerText c e
    let kept : MarkupCode :=
      ⟨[handler], [.keepHandler handler (operandText e.node.kind text)], [], []⟩
    return (kept ++ listenerCode holder event handler, names)

/-- The event that an attribute name stands for. -/
def eventOf (options : Options) (name : String) : String :=
  String.ofList (name.toList.drop options.eventPrefix.length)

/-- The code of an attribute of the element that a variable holds. -/
def attributeCode (c : MarkupContext) (holder : String) (a : Attribute) (names : NameCounter) :
    Except GenerationError (MarkupCode × NameCounter) :=
  match a.value with
  | .quoted text =>
    .ok (⟨[], [.setAttribute holder a.name (.literal text)], [], []⟩, names)
  | .expression e =>
    if isEventName c.options a.name then
      eventCode c holder (eventOf c.options a.name) e names
    else
      let statement : DomStatement := .setAttribute holder a.name (.expression e.operand)
      .ok (⟨[], [statement], updateBlocks (c.changing e) statement, []⟩, names)

/-- The code of several attributes. -/
def attributesCode (c : MarkupContext) (holder : String) :
    List Attribute → NameCounter → Except GenerationError (MarkupCode × NameCounter)
  | [], names => .ok (.empty, names)
  | a :: as, names => do
    let (code, names) ← attributeCode c holder a names
    let (rest, names) ← attributesCode c holder as names
    return (code ++ rest, names)

/-! ### Fragments -/

/-- The removal of a node, which only nodes in the target need. -/
def removal (parent : Receiver) (holder : String) : List DomStatement :=
  if parent = .target then [.removeChild parent holder] else []

/-- The code of a text node. -/
def textCode (parent : Receiver) (holder : String) (content : Operand)
    (update : List UpdateBlock) : MarkupCode :=
  ⟨[holder], [.createText holder content, .appendChild parent holder], update,
    removal parent holder⟩

/-- The code of an element around the code of its attributes and children. -/
def elementCode (parent : Receiver) (holder tag : String) (inner : MarkupCode) : MarkupCode :=
  (⟨[holder], [.createElement holder tag], [], []⟩ : MarkupCode) ++ inner ++
    (⟨[], [.appendChild parent holder], [], [.removeChild parent holder]⟩ : MarkupCode)

mutual

/-- The code of a fragment. -/
def fragmentCode (c : MarkupContext) (parent : Receiver) :
    Fragment → NameCounter → Except GenerationError (MarkupCode × NameCounter)
  | .element tag attributes children _, names => do
    let (holder, names) := names.fresh (identifierOf tag)
    let (own, names) ← attributesCode c holder attributes names
    let (inner, names) ← fragmentsCode c (.element holder) children names
    return (elementCode parent holder tag (own ++ inner), names)
  | .text value _, names =>
    let (holder, names) := names.fresh "txt"
    .ok (textCode parent holder (.literal value) [], names)
  | .expression e _, names =>
    let (holder, names) := names.fresh "txt"
    let update := updateBlocks (c.changing e) (.setData holder e.operand)
    .ok (textCode parent holder (.expression e.operand) update, names)

/-- The code of several fragments. -/
def fragmentsCode (c : MarkupContext) (parent : Receiver) :
    List Fragment → NameCounter → Except GenerationError (MarkupCode × NameCounter)
  | [], names => .ok (.empty, names)
  | f :: fs, names => do
    let (code, names) ← fragmentCode c parent f names
    let (rest, names) ← fragmentsCode c parent fs names
    return (code ++ rest, names)

end

/-- A block whose names are in the order of their indices, each once. -/
def UpdateBlock.arranged (bindings : Bindings) (b : UpdateBlock) :
    Except GenerationError UpdateBlock := do
  return { b with names := ← bindings.arrange b.names }

/-- Blocks whose names are in the order of their indices. -/
def arrangeBlocks (bindings : Bindings) :
    List UpdateBlock → Except GenerationError (List UpdateBlock)
  | [] => .ok []
  | b :: bs => do
    let b ← b.arranged bindings
    let bs ← arrangeBlocks bindings bs
    return b :: bs

/-- The code of all markup of a document. -/
def markupCode (c : MarkupContext) (html : List Fragment) : Except GenerationError MarkupCode := do
  let (code, _) ← fragmentsCode c .target html .first
  return { code with update := ← arrangeBlocks c.bindings code.update }

end ReactiveTemplate

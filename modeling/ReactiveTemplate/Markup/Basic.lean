/-
Templates: markup with embedded expressions and at most one script block.

* `Attribute`, `Fragment` — the markup: elements with attributes and children, text, expressions;
* `ScriptBlock` — the script, with the statements that are still in its body;
* `Document` — a whole template;
* `Document.json` — a document as it is dumped.
-/

import ReactiveTemplate.Json
import ReactiveTemplate.Script.Embedded
import ReactiveTemplate.Script.Patch

set_option relaxedAutoImplicit false
set_option autoImplicit false

namespace ReactiveTemplate

open Script

/-- The value of an attribute. -/
inductive AttributeValue where
  | quoted (text : String)
  | expression (e : Embedded)

/-- An attribute of an element. -/
structure Attribute where
  /-- Its name. -/
  name : String
  /-- Its value. -/
  value : AttributeValue
  /-- Offset in the template. -/
  start : Nat

/-- A piece of markup. Each records its offset in the template. -/
inductive Fragment where
  | element (name : String) (attributes : List Attribute) (children : List Fragment) (start : Nat)
  | text (value : String) (start : Nat)
  | expression (e : Embedded) (start : Nat)

/-- Offset of a fragment in the template. -/
def Fragment.start : Fragment → Nat
  | element _ _ _ s => s
  | text _ s => s
  | expression _ s => s

/-- The script block of a template. -/
structure ScriptBlock where
  /-- The parsed script. -/
  program : Source
  /-- The statements that are still in the body: reactive ones are taken out by analysis. -/
  body : List Node
  /-- The insertions made by the last generation. -/
  patch : Patch
  /-- Offset in the template. -/
  start : Nat

/-- The block of a script that nothing has been taken out of. -/
def ScriptBlock.ofProgram (program : Source) (start : Nat) : ScriptBlock :=
  ⟨program, program.statements, .empty, start⟩

/-- A parsed template. -/
structure Document where
  /-- The markup at top level. -/
  html : List Fragment
  /-- The script block, if there is one. -/
  script : Option ScriptBlock
  /-- Name of the template. -/
  filename : String
  /-- Text of the template. -/
  source : String

/-- The parsed script of a document. -/
def Document.program? (d : Document) : Option Source :=
  d.script.map ScriptBlock.program

/-! ### Dumps -/

/-- An attribute as it is dumped. -/
def Attribute.json (a : Attribute) : Json :=
  let value : Json :=
    match a.value with
    | .quoted text => .string text
    | .expression e => .object [("type", .string "Expression"), ("source", .string e.source)]
  .object
    [("type", .string "Attribute"), ("name", .string a.name), ("value", value),
      ("start", .number a.start)]

mutual

/-- A fragment as it is dumped. -/
def Fragment.json : Fragment → Json
  | .element name attributes children start =>
    .object
      [("type", .string "Element"), ("name", .string name),
        ("attributes", .array (attributes.map Attribute.json)),
        ("children", .array (Fragment.jsonAll children)), ("start", .number start)]
  | .text value start =>
    .object [("type", .string "Text"), ("value", .string value), ("start", .number start)]
  | .expression e start =>
    .object [("type", .string "Expression"), ("source", .string e.source), ("start", .number start)]

/-- Fragments as they are dumped. -/
def Fragment.jsonAll : List Fragment → List Json
  | [] => []
  | f :: fs => Fragment.json f :: Fragment.jsonAll fs

end

/-- The script block as it is dumped. -/
def ScriptBlock.json (s : ScriptBlock) : Json :=
  .object
    [("type", .string "Script"), ("statements", .strings (s.body.map s.program.slice)),
      ("start", .number s.start)]

/-- A document as it is dumped. -/
def Document.json (d : Document) : Json :=
  .object
    [("type", .string "Document"), ("filename", .string d.filename),
      ("html", .array (Fragment.jsonAll d.html)),
      ("script", match d.script with | some s => s.json | none => .null)]

end ReactiveTemplate

/-
Components: what is generated for a document, and the module that it is written as.

The module exports one function. It declares the variables of the markup, the dispatcher that
records changes, the statements of the script and the reactive declarations, and gives an object
that creates, updates and destroys the markup.

* `ReactiveBlock` — a reactive declaration as generated;
* `Component` — everything that is generated for a document but the text;
* `wordCount` — how many words a change set has;
* `Component.layout`, `Component.text` — the module, as lines and as text.
-/

import ReactiveTemplate.Analysis.Bindings
import ReactiveTemplate.Generation.Dom
import ReactiveTemplate.Generation.Guard
import ReactiveTemplate.Generation.Instrument
import ReactiveTemplate.Generation.Layout
import ReactiveTemplate.Options

set_option relaxedAutoImplicit false
set_option autoImplicit false

namespace ReactiveTemplate

/-! ### Parts -/

/-- A reactive declaration as generated. -/
structure ReactiveBlock where
  /-- The names that it waits for; without any it runs once. -/
  names : List String
  /-- The text of the assignment. -/
  source : String
  /-- The indices of what it assigns to. -/
  indices : List Int
  deriving DecidableEq, Repr

/-- The statements of a reactive declaration: the assignment and, if it can run again, the
announcement of what it changed. -/
def ReactiveBlock.statements (b : ReactiveBlock) : List String :=
  (b.source ++ ";") :: (if b.names.isEmpty then [] else [announcementHead b.indices ++ ");"])

/-- Everything that is generated for a document but the text. -/
structure Component where
  /-- The import statements of the script. -/
  imports : List String
  /-- The other statements of the script that are not reactive. -/
  body : List String
  /-- The declared variables. -/
  locals : List String
  /-- What creates the markup. -/
  create : List DomStatement
  /-- What updates the markup. -/
  update : List UpdateBlock
  /-- What destroys the markup. -/
  destroy : List DomStatement
  /-- The reactive declarations in the order in which they run. -/
  reactive : List ReactiveBlock
  /-- The indices of names. -/
  bindings : Bindings
  deriving DecidableEq, Repr

/-- How many words a change set has: enough for all bindings, and at least one. -/
def wordCount (bindings : Bindings) : Nat :=
  max 1 ((bindings.length + (wordBits - 1)) / wordBits)

/-! ### The dispatcher -/

/-- The function that turns names into a change set. -/
def markLayout (words : Nat) : Layout :=
  .braces "function $$mark(changed)"
    [.line "if (changed instanceof Uint32Array) return changed;",
      .line ("const dirty = new Uint32Array(" ++ toString words ++ ");"),
      .braces "for (const name of changed)"
        [.line "const i = $$bindings.get(name);",
          .line "if (i !== undefined) dirty[i >> 5] |= 1 << (i & 31);"],
      .line "return dirty;"]

/-- The function that records changes and, unless it is at work already, acts on them. -/
def dispatchLayout : Layout :=
  .braces "function $$invalidate(indices, value)"
    [.line "for (const i of indices) $$dirty[i >> 5] |= 1 << (i & 31);",
      .line "if ($$flushing) return value;",
      .line "$$flushing = true;",
      .braces "try"
        [.line "update_reactive_declarations($$dirty);",
          .line "if ($$lifecycle !== null) $$lifecycle.update($$dirty);"],
      .braces "finally"
        [.line "$$dirty.fill(0);",
          .line "$$flushing = false;"],
      .line "return value;"]

/-- The variables that the dispatcher works on. -/
def stateLayout (bindings : Bindings) : List Layout :=
  let pairs := bindings.map fun b => "[" ++ Text.literal b.1 ++ ", " ++ toString b.2 ++ "]"
  Layout.lines
    ["let $$target = null;",
      "let $$lifecycle = null;",
      "const $$bindings = new Map([" ++ ", ".intercalate pairs ++ "]);",
      "const $$dirty = new Uint32Array(" ++ toString (wordCount bindings) ++ ");",
      "let $$flushing = true;"]

/-! ### Guarded lines -/

/-- Lines that run when one of some names is in a change set. -/
def guardedLayout (bindings : Bindings) (dirty : String) (names lines : List String) :
    Except GenerationError Layout := do
  let guard ← guardText bindings names dirty
  return .braces ("if (" ++ guard ++ ")") (Layout.lines lines)

/-- The guarded reactive declarations. -/
def reactiveLayout (bindings : Bindings) :
    List ReactiveBlock → Except GenerationError (List Layout)
  | [] => .ok []
  | b :: bs => do
    let rest ← reactiveLayout bindings bs
    if b.names.isEmpty then return rest
    else return (← guardedLayout bindings "dirty" b.names b.statements) :: rest

/-- The guarded updates of the markup. -/
def updateLayout (bindings : Bindings) : List UpdateBlock → Except GenerationError (List Layout)
  | [] => .ok []
  | b :: bs => do
    let block ← guardedLayout bindings "changed" b.names [b.statement.render]
    let rest ← updateLayout bindings bs
    return block :: rest

/-! ### The module -/

namespace Component

/-- The statements of the reactive declarations that run once. -/
def constantStatements (c : Component) : List String :=
  (c.reactive.filter fun b => b.names.isEmpty).flatMap ReactiveBlock.statements

/-- The statements of the script, set off by an empty line if there are any. -/
def bodyLayout (c : Component) : List Layout :=
  if c.body.isEmpty then [] else .blank :: Layout.lines c.body

/-- The object that creates, updates and destroys the markup. -/
def lifecycleLayout (c : Component) (updates : List Layout) : Layout :=
  .block "$$lifecycle = \x7b"
    [.block "create(target) \x7b"
        (.line "$$target = target;" :: Layout.lines (c.create.map DomStatement.render)) "\x7d,",
      .block "update(changed) \x7b" (.line "changed = $$mark(changed);" :: updates) "\x7d,",
      .block "destroy() \x7b" (Layout.lines (c.destroy.map DomStatement.render)) "\x7d,"]
    "\x7d;"

/-- What the exported function holds. -/
def functionLayout (c : Component) (reactive updates : List Layout) : List Layout :=
  Layout.lines (c.locals.map fun v => "let " ++ v ++ ";") ++
    stateLayout c.bindings ++
    [.blank, markLayout (wordCount c.bindings), .blank, dispatchLayout] ++
    c.bodyLayout ++
    [.blank] ++
    Layout.lines c.constantStatements ++
    [.line "$$flushing = false;",
      .line (announcementHead (c.bindings.map Prod.snd) ++ ");"),
      .blank,
      .braces "function update_reactive_declarations(dirty)" reactive,
      .blank,
      c.lifecycleLayout updates,
      .line "return $$lifecycle;"]

/-- The import statements, set off by an empty line if there are any. -/
def importLayout (c : Component) : List Layout :=
  if c.imports.isEmpty then [] else Layout.lines c.imports ++ [.blank]

/-- The module of a component in a format. -/
def layout (c : Component) (format : String) : Except GenerationError (List Layout) := do
  let reactive ← reactiveLayout c.bindings c.reactive
  let updates ← updateLayout c.bindings c.update
  let inside := c.functionLayout reactive updates
  let exported : Layout :=
    if format = "esm" then .block "export default function() \x7b" inside "\x7d"
    else .block "module.exports = function() \x7b" inside "\x7d;"
  return c.importLayout ++ [exported]

/-- The text of the module of a component. -/
def text (c : Component) (options : Options) : Except GenerationError String := do
  return Layout.renderAll options.indent 0 (← c.layout options.format)

end Component

end ReactiveTemplate

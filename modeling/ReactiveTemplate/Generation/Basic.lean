/-
Generation: from an analysed document to its component.

* `ScriptBlock.announced` — the script block with the patch that announces changes;
* `orderDeclarations` — reactive declarations in the order in which they run;
* `Generated` — a component and its text;
* `Outcome`, `Document.generate` — generation, with what it leaves behind: a new patch in the script
  block and the declarations in running order.
-/

import ReactiveTemplate.Generation.Component
import ReactiveTemplate.Generation.Markup
import ReactiveTemplate.Generation.Order

set_option relaxedAutoImplicit false
set_option autoImplicit false

namespace ReactiveTemplate

open Script

/-! ### The script -/

/-- The mutations of the statements of a script block that are announced. -/
def ScriptBlock.announcements (s : ScriptBlock) (a : Analysis) : List Announcement :=
  let t : Tracking := ⟨s.program, a.forest, a.scopes, a.scopes.root, a.tracked, a.bindings⟩
  announcementsAll t a.scopes.root s.body

/-- The script block with the patch that announces changes. -/
def ScriptBlock.announced (s : ScriptBlock) (a : Analysis) : ScriptBlock :=
  { s with patch := announce .empty (s.announcements a) }

/-- The document with the patch that announces changes. -/
def Document.announced (d : Document) (a : Analysis) : Document :=
  { d with script := d.script.map fun s => s.announced a }

/-- The patched texts of statements. -/
def patchedTexts (s : ScriptBlock) : List Node → Except GenerationError (List String)
  | [] => .ok []
  | n :: ns => do
    let text ←
      match patchedText? s.program s.patch n with
      | some text => .ok text
      | none => .error .undecodable
    let rest ← patchedTexts s ns
    return text :: rest

/-- Whether a statement is an import. -/
def isImport (n : Node) : Bool :=
  n.kind == .importStatement

/-- The patched texts of the imports and of the other statements of a script block. -/
def scriptTexts : Option ScriptBlock → Except GenerationError (List String × List String)
  | none => .ok ([], [])
  | some s => do
    let imports ← patchedTexts s (s.body.filter isImport)
    let body ← patchedTexts s (s.body.filter fun n => !isImport n)
    return (imports, body)

/-! ### Reactive declarations -/

/-- The place of a declaration in the template. -/
def declarationPosition (d : Document) (declaration : ReactiveDeclaration) : Option Position :=
  d.program?.map fun program =>
    .ofOffset d.source (program.charOffset declaration.node.start) d.filename

/-- The error that the declarations of a circle make; it is placed at the first of them. -/
def cycleError (d : Document) (declarations : List ReactiveDeclaration) (cycle : List Nat) :
    GenerationError :=
  .cyclic (cycleNames (declarations.map ReactiveDeclaration.toDependent) cycle)
    ((cycle.head?.bind fun i => declarations[i]?).bind (declarationPosition d))

/-- Reactive declarations of a document in the order in which they run. -/
def orderDeclarations (d : Document) (declarations : List ReactiveDeclaration) :
    Except GenerationError (List ReactiveDeclaration) :=
  match runningOrder (declarations.map ReactiveDeclaration.toDependent) with
  | .ok order => .ok (order.filterMap fun i => declarations[i]?)
  | .error (.cycle cycle) => .error (cycleError d declarations cycle)
  | .error .noPredecessor => .error .noPredecessor

/-- A reactive declaration as generated. -/
def reactiveBlock (program : Option Source) (bindings : Bindings) (d : ReactiveDeclaration) :
    Except GenerationError ReactiveBlock := do
  let names := d.dependencies.filter bindings.binds
  let source := (program.map fun p => p.slice d.node).getD ""
  let indices ← if names.isEmpty then .ok [] else bindings.indices d.assignees
  return ⟨names, source, indices⟩

/-- Reactive declarations as generated. -/
def reactiveBlocks (program : Option Source) (bindings : Bindings) :
    List ReactiveDeclaration → Except GenerationError (List ReactiveBlock)
  | [] => .ok []
  | d :: ds => do
    let b ← reactiveBlock program bindings d
    let bs ← reactiveBlocks program bindings ds
    return b :: bs

/-- The names that reactive declarations write and the script does not declare. -/
def undeclaredAssignees (a : Analysis) : List String :=
  (a.reactive.flatMap fun d => d.assignees).filter fun name => name ∉ a.declared

/-! ### The whole -/

/-- A component and its text. -/
structure Generated extends Component where
  /-- The text of the module. -/
  text : String
  deriving DecidableEq, Repr

/-- What generation gives, and what it leaves behind. -/
structure Outcome where
  /-- The document, with a new patch. -/
  document : Document
  /-- The analysis, with the reactive declarations in running order. -/
  analysis : Analysis
  /-- The component, or what kept it from being generated. -/
  result : Except GenerationError Generated

/-- The component of a document whose script is patched and whose declarations are in order. -/
def assemble (options : Options) (d : Document) (a : Analysis) (markup : MarkupCode) :
    Except GenerationError Generated := do
  let bindings := a.bindings
  let reactive ← reactiveBlocks d.program? bindings a.reactive
  let (imports, body) ← scriptTexts d.script
  let component : Component :=
    { imports := imports
      body := body
      locals := Names.union markup.locals (undeclaredAssignees a)
      create := markup.create
      update := markup.update
      destroy := markup.destroy
      reactive := reactive
      bindings := bindings }
  let text ← component.text options
  return ⟨component, text⟩

/-- Generates the component of an analysed document. -/
def Document.generate (options : Options) (d : Document) (a : Analysis) : Outcome :=
  match markupCode (.of options d.program? a) d.html with
  | .error e => ⟨d, a, .error e⟩
  | .ok markup =>
    let d := d.announced a
    match orderDeclarations d a.reactive with
    | .error e => ⟨d, a, .error e⟩
    | .ok ordered =>
      let a := { a with reactive := ordered }
      ⟨d, a, assemble options d a markup⟩

end ReactiveTemplate

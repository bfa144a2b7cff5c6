/-
Analysis of a document: which variables change, which the markup reads, what is reactive.

A statement such as `$: x = y + 1` declares `x` reactive: it is taken out of the script's body and
runs again whenever a name on its right side changes.

* `ReactiveDeclaration` — what a reactive statement writes and reads;
* `reactiveAssignment?` — the assignment of a reactive statement;
* `Analysis` — the result, with `Analysis.tracked` and `Analysis.bindings`;
* `Document.analyze` — the analysis of a document, and the document without reactive statements.
-/

import ReactiveTemplate.Analysis.Bindings
import ReactiveTemplate.Analysis.Dependent
import ReactiveTemplate.Analysis.Mutation
import ReactiveTemplate.Analysis.TemplateNames
import ReactiveTemplate.Markup.Basic
import ReactiveTemplate.Options

set_option relaxedAutoImplicit false
set_option autoImplicit false

namespace ReactiveTemplate

open Script

/-! ### Reactive declarations -/

/-- A reactive declaration of the script. -/
structure ReactiveDeclaration extends Dependent where
  /-- The assignment. -/
  node : Node

mutual

/-- An expression without the parentheses around it. -/
def withoutParentheses : Node → Node
  | .mk k r a b i cs =>
    if k == .parenthesizedExpression then (onlyWithoutParentheses? cs).getD (.mk k r a b i cs)
    else .mk k r a b i cs

/-- The only child in a list, without the parentheses around it. -/
def onlyWithoutParentheses? : List Node → Option Node
  | [c] => some (withoutParentheses c)
  | _ => none

end

/-- The assignment of a statement that carries the reactive label. -/
def reactiveAssignment? (program : Source) (label : String) (statement : Node) : Option Node := do
  guard (statement.kind == .labeledStatement)
  let mark ← statement.child? .label
  guard (program.slice mark == label)
  let body ← statement.child? .body
  guard (body.kind == .expressionStatement)
  match body.children with
  | [inner] =>
    let expression := withoutParentheses inner
    guard expression.kind.isAssignment
    return expression
  | _ => none

/-- The reactive declaration that an assignment makes. -/
def ReactiveDeclaration.ofAssignment (program : Source) (assignment : Node) (index : Nat) :
    ReactiveDeclaration :=
  { assignees := writtenNames program assignment
    dependencies :=
      match assignment.child? .right with
      | some right => referencedNames program right
      | none => []
    index := index
    node := assignment }

/-- The reactive declarations among statements, which are numbered from `index` on. -/
def reactiveDeclarations (program : Source) (label : String) :
    Nat → List Node → List ReactiveDeclaration
  | _, [] => []
  | index, s :: ss =>
    match reactiveAssignment? program label s with
    | some a => .ofAssignment program a index :: reactiveDeclarations program label (index + 1) ss
    | none => reactiveDeclarations program label (index + 1) ss

/-- The statements that are not reactive. -/
def keptStatements (program : Source) (label : String) (statements : List Node) : List Node :=
  statements.filter fun s => (reactiveAssignment? program label s).isNone

/-! ### The result -/

/-- The scopes of an event handler, and where the handler stands in the template. -/
structure HandlerScopes where
  /-- Template offset of the expression. -/
  offset : Nat
  /-- What its names resolve to. -/
  resolution : Resolution

/-- What is known about a document. -/
structure Analysis where
  /-- All scopes, of the script and of the event handlers. -/
  forest : Forest
  /-- What the names of the script resolve to. -/
  scopes : Resolution
  /-- The variables of the module. -/
  declared : Names
  /-- The variables and globals that may change. -/
  willChange : Names
  /-- The names that the markup reads. -/
  usedInTemplate : Names
  /-- The reactive declarations. -/
  reactive : List ReactiveDeclaration
  /-- The scopes of the event handlers, in markup order. -/
  handlers : List HandlerScopes

namespace Analysis

/-- The names that reactive declarations read. -/
def reactiveDependencies (a : Analysis) : Names :=
  Names.ofList (a.reactive.flatMap fun d => d.dependencies)

/-- The names whose changes must be noted. -/
def tracked (a : Analysis) : Names :=
  a.usedInTemplate.union a.reactiveDependencies

/-- The bindings in the order of their names, numbered from zero. -/
def bindings (a : Analysis) : Bindings :=
  .ofNames (Names.sort (a.willChange.union a.reactiveDependencies))

/-- The scopes of the handler at a template offset. -/
def handlerScopes? (a : Analysis) (offset : Nat) : Option Resolution :=
  (a.handlers.find? fun h => h.offset == offset).map HandlerScopes.resolution

/-- The names that no scope of the script declares, in order. -/
def sortedGlobals (a : Analysis) : List String :=
  Names.sort a.scopes.globals

/-- A reactive declaration as it is dumped; its text is left out without a script. -/
def declarationJson (program : Option Source) (d : ReactiveDeclaration) : Json :=
  .object <|
    [("index", .number d.index), ("assignees", .strings d.assignees),
      ("dependencies", .strings d.dependencies)] ++
      match program with
      | some p => [("source", .string (p.slice d.node))]
      | none => []

/-- The analysis as it is dumped. -/
def json (a : Analysis) (program : Option Source) : Json :=
  .object
    [("variables", .strings (Names.sort a.declared)),
      ("willChange", .strings (Names.sort a.willChange)),
      ("willUseInTemplate", .strings (Names.sort a.usedInTemplate)),
      ("globals", .strings a.sortedGlobals),
      ("bindings", a.bindings.json),
      ("reactiveDeclarations", .array (a.reactive.map (declarationJson program)))]

end Analysis

/-! ### The markup -/

/-- Whether a name starts with the mark of event attributes. -/
def isEventName (options : Options) (name : String) : Bool :=
  options.eventPrefix.toList.isPrefixOf name.toList

/-- Takes in an event handler: the name at its root is read, and what it changes may change. -/
def Analysis.addHandler (e : Embedded) (a : Analysis) : Analysis :=
  let used :=
    match rootName? e.toSource e.node with
    | some name => a.usedInTemplate.insert name
    | none => a.usedInTemplate
  let (forest, resolution) := resolveHandler e.toSource e.node a.forest a.scopes.root
  let changed := changedNames e.toSource forest resolution a.scopes.root e.node
  { a with
    forest := forest
    usedInTemplate := used
    handlers := a.handlers ++ [⟨e.offset, resolution⟩]
    willChange := a.willChange.union changed }

/-- Takes in the names that an expression reads. -/
def Analysis.addReads (program : Option Source) (e : Embedded) (a : Analysis) : Analysis :=
  { a with usedInTemplate := a.usedInTemplate.union (templateNames e.toSource e.node program) }

/-- Takes in an attribute. -/
def Analysis.addAttribute (options : Options) (program : Option Source) (a : Analysis)
    (attr : Attribute) : Analysis :=
  match attr.value with
  | .quoted _ => a
  | .expression e => if isEventName options attr.name then a.addHandler e else a.addReads program e

mutual

/-- Takes in a fragment: of an element, attributes first, then children. -/
def Analysis.addFragment (options : Options) (program : Option Source) :
    Fragment → Analysis → Analysis
  | .element _ attributes children _, a =>
    Analysis.addFragments options program children
      (attributes.foldl (Analysis.addAttribute options program) a)
  | .text _ _, a => a
  | .expression e _, a => a.addReads program e

/-- Takes in fragments in turn. -/
def Analysis.addFragments (options : Options) (program : Option Source) :
    List Fragment → Analysis → Analysis
  | [], a => a
  | f :: fs, a => Analysis.addFragments options program fs (Analysis.addFragment options program f a)

end

/-! ### The whole analysis -/

/-- What is known from a script block alone. -/
def ScriptBlock.analyze (s : ScriptBlock) (label : String) : Analysis :=
  let (forest, scopes) := resolveScript s.program
  let reactive := reactiveDeclarations s.program label 0 s.body
  let assigned := reactive.flatMap fun d => d.assignees
  let changed :=
    (keptStatements s.program label s.body).flatMap
      (changedNames s.program forest scopes scopes.root)
  { forest := forest
    scopes := scopes
    declared := forest.declarations scopes.root
    willChange := Names.ofList (assigned ++ changed)
    usedInTemplate := []
    reactive := reactive
    handlers := [] }

/-- What is known without a script. -/
def Analysis.withoutScript : Analysis :=
  let (forest, root) := Forest.empty.addScope "module" .module none
  { forest := forest
    scopes := ⟨root, [], [], []⟩
    declared := []
    willChange := []
    usedInTemplate := []
    reactive := []
    handlers := [] }

/-- The script block without its reactive statements. -/
def ScriptBlock.withoutReactive (s : ScriptBlock) (label : String) : ScriptBlock :=
  { s with body := keptStatements s.program label s.body }

/-- The analysis of a document, and the document without its reactive statements. -/
def Document.analyze (options : Options) (d : Document) : Analysis × Document :=
  let start :=
    match d.script with
    | some s => s.analyze options.reactiveLabel
    | none => .withoutScript
  (Analysis.addFragments options d.program? d.html start,
    { d with script := d.script.map fun s => s.withoutReactive options.reactiveLabel })

end ReactiveTemplate

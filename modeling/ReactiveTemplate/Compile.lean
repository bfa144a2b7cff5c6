/-
Compilation: from the text of a template to the text of a module.

* `CompileError` — what can keep a template from being compiled;
* `Compiled` — the component with the document and analysis it was made from;
* `compile` — the whole way: options are checked first.
-/

import ReactiveTemplate.Generation.Basic
import ReactiveTemplate.Markup.Reader

set_option relaxedAutoImplicit false
set_option autoImplicit false

namespace ReactiveTemplate

/-- What kept a template from being compiled. -/
inductive CompileError where
  /-- The options make no sense. -/
  | invalidOptions (problems : List String)
  /-- The template cannot be read. -/
  | unreadable (l : Located)
  /-- The module cannot be generated. -/
  | ungenerated (e : GenerationError)
  deriving DecidableEq, Repr

/-- What the message about options says. -/
def optionsMessage (problems : List String) : String :=
  "Invalid compile options: " ++ "; ".intercalate problems

/-- A compiled template. -/
structure Compiled where
  /-- The component. -/
  generated : Generated
  /-- The document, as generation leaves it. -/
  document : Document
  /-- The analysis, as generation leaves it. -/
  analysis : Analysis

/-- Compiles the text of a template. -/
def compile (options : Options) (template : String) : Except CompileError Compiled :=
  match options.problems with
  | p :: ps => .error (.invalidOptions (p :: ps))
  | [] =>
    match Document.parse template options.filename with
    | .error l => .error (.unreadable l)
    | .ok d =>
      let (a, d) := d.analyze options
      let outcome := d.generate options a
      match outcome.result with
      | .error e => .error (.ungenerated e)
      | .ok generated => .ok ⟨generated, outcome.document, outcome.analysis⟩

end ReactiveTemplate

/-
Sessions: work on one document, step by step.

A document is parsed once and may be analysed and generated repeatedly, with different options.
Analysis takes reactive statements out of the document; generation leaves a patch in its script block
and brings the declarations of the analysis into running order.

* `Session`, `Session.start` — a document with its last analysis;
* `Session.analyze`, `Session.generate` — the steps.
-/

import ReactiveTemplate.Generation.Basic

set_option relaxedAutoImplicit false
set_option autoImplicit false

namespace ReactiveTemplate

/-- A document with its last analysis. -/
structure Session where
  /-- The document. -/
  document : Document
  /-- The last analysis. -/
  analysis : Option Analysis

namespace Session

/-- The session of a document that has just been parsed. -/
def start (d : Document) : Session :=
  ⟨d, none⟩

/-- Analyses the document. -/
def analyze (s : Session) (options : Options) : Session × Analysis :=
  let (a, d) := s.document.analyze options
  (⟨d, some a⟩, a)

/-- Generates the component from the last analysis; nothing happens when there is none. -/
def generate (s : Session) (options : Options) :
    Session × Option (Except GenerationError Generated) :=
  match s.analysis with
  | none => (s, none)
  | some a =>
    let outcome := s.document.generate options a
    (⟨outcome.document, some outcome.analysis⟩, some outcome.result)

end Session

end ReactiveTemplate

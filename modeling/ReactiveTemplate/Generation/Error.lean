/-
What can keep a module from being generated.

* `GenerationError` — the causes;
* `GenerationError.diagnostic?` — the diagnostic of those that a template can be blamed for.
-/

import ReactiveTemplate.Diagnostic.Basic

set_option relaxedAutoImplicit false
set_option autoImplicit false

namespace ReactiveTemplate

/-- What kept a module from being generated. -/
inductive GenerationError where
  /-- Reactive declarations depend on each other in a circle. -/
  | cyclic (names : List String) (position : Option Position)
  /-- A name has no place in a change set. -/
  | unbound (name : String)
  /-- Declarations are left over, but one of them waits for none of the others. -/
  | noPredecessor
  /-- Bytes taken out of the script are no text. -/
  | undecodable
  deriving DecidableEq, Repr

/-- The diagnostic of reactive declarations that depend on each other in a circle. -/
def GenerationError.diagnostic? : GenerationError → Option Diagnostic
  | .cyclic names position => some (.cyclic names (position.getD .unknown) none "")
  | _ => none

end ReactiveTemplate

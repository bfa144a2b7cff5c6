/-
Things that write names after reading others.

* `Dependent` — what is written, what is read, and the place in source order.
-/

set_option relaxedAutoImplicit false
set_option autoImplicit false

namespace ReactiveTemplate

/-- Something that writes names after reading others. -/
structure Dependent where
  /-- The names it writes. -/
  assignees : List String
  /-- The names it reads. -/
  dependencies : List String
  /-- Its place in the source order. -/
  index : Int
  deriving DecidableEq, Repr

end ReactiveTemplate

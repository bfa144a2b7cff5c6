/-
Bindings: the names whose changes are recorded, each with its place in a change set.

* `Bindings` — names with their indices;
* `Bindings.index?` — the index of a name;
* `Bindings.ofNames` — names numbered from zero.
-/

import ReactiveTemplate.Json
import ReactiveTemplate.Names

set_option relaxedAutoImplicit false
set_option autoImplicit false

namespace ReactiveTemplate

/-- Names with their indices in a change set. -/
abbrev Bindings := List (String × Int)

namespace Bindings

/-- The index of a name. -/
def index? (bindings : Bindings) (name : String) : Option Int :=
  (bindings.find? fun b => b.1 == name).map Prod.snd

/-- Whether a name is bound. -/
def binds (bindings : Bindings) (name : String) : Bool :=
  (bindings.index? name).isSome

/-- Names numbered from zero in the given order. -/
def ofNames (names : List String) : Bindings :=
  names.zip ((List.range names.length).map Int.ofNat)

/-- Bindings as they are dumped. -/
def json (bindings : Bindings) : Json :=
  .object (bindings.map fun b => (b.1, .number b.2))

end Bindings

end ReactiveTemplate

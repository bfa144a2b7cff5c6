/-
Parsed pieces of script and their place in the template.

A piece of script is a script block or one expression of the markup. Its tree is addressed by byte
offsets in the piece; the template by character offsets.

* `Source` — a text, its tree and its place in the template;
* `Source.slice` — the text of a node;
* `Source.charOffset` — the template offset of a byte offset;
* `Source.ofScript?` — the piece made of a script block.
-/

import ReactiveTemplate.Script.Program
import ReactiveTemplate.Text.Bytes

set_option relaxedAutoImplicit false
set_option autoImplicit false

namespace ReactiveTemplate.Script

/-- A parsed piece of script. -/
structure Source where
  /-- The text that was parsed. -/
  text : List Char
  /-- Its tree. -/
  root : Node
  /-- Character offset in the template of the first character that the template holds. -/
  offset : Nat
  /-- How many bytes at the start of the text are not in the template. -/
  lead : Nat

namespace Source

/-- The text of a node. -/
def slice (source : Source) (n : Node) : String :=
  String.ofList (Text.byteSlice source.text n.start n.stop)

/-- The template offset, in characters, of a byte offset in the piece. Offsets outside the text
are moved to its nearer end. -/
def charOffset (source : Source) (byteOffset : Nat) : Nat :=
  let b := max source.lead (min byteOffset (Text.byteLength source.text))
  source.offset + Text.charsBefore (Text.dropBytes source.text source.lead) (b - source.lead)

/-- The piece made of a script block that starts at the given template offset. -/
def ofScript? (text : List Char) (offset : Nat) : Option Source :=
  (parseProgram? text).map fun root => ⟨text, root, offset, 0⟩

/-- The statements of the piece at top level. -/
def statements (source : Source) : List Node :=
  source.root.children

end Source

end ReactiveTemplate.Script

/-
Lines of generated text and their indentation.

* `lineText` — a line at a level; a blank line is left empty, and of a text with several lines only
  the first is indented;
* `Layout`, `Layout.render` — lines and nested blocks, and their text;
* `Emitter`, `Emitter.step` — text written step by step, with the level kept on the way.
-/

import ReactiveTemplate.Text.Blank

set_option relaxedAutoImplicit false
set_option autoImplicit false

namespace ReactiveTemplate

/-- A unit of indentation repeated as often as the level says. -/
def indentation (unit : String) (level : Nat) : String :=
  String.join (List.replicate level unit)

/-- A line at a level. -/
def lineText (unit : String) (level : Nat) (text : String) : String :=
  if Text.allBlank text.toList then "\n" else indentation unit level ++ text ++ "\n"

/-- As many empty lines as the number says. -/
def emptyLines (count : Int) : String :=
  String.ofList (List.replicate count.toNat '\n')

/-! ### Nested blocks -/

/-- Lines and blocks. -/
inductive Layout where
  /-- A line. -/
  | line (text : String)
  /-- An empty line. -/
  | blank
  /-- Lines between a header and a closing line, one level deeper. -/
  | block (header : String) (body : List Layout) (close : String)

namespace Layout

mutual

/-- The text of a layout at a level. -/
def render (unit : String) (level : Nat) : Layout → String
  | line text => lineText unit level text
  | blank => "\n"
  | block header body close =>
    lineText unit level header ++ renderAll unit (level + 1) body ++ lineText unit level close

/-- The text of several layouts at a level. -/
def renderAll (unit : String) (level : Nat) : List Layout → String
  | [] => ""
  | l :: ls => render unit level l ++ renderAll unit level ls

end

/-- A line for each text. -/
def lines (texts : List String) : List Layout :=
  texts.map line

/-- A block in braces. -/
def braces (header : String) (body : List Layout) : Layout :=
  block (header ++ " \x7b") body "\x7d"

end Layout

/-! ### Step by step -/

/-- What is known while text is written. -/
structure Emitter where
  /-- The unit of indentation. -/
  unit : String
  /-- The level. -/
  level : Nat
  /-- The closing lines of the open blocks, innermost first. -/
  closers : List String
  deriving DecidableEq, Repr

/-- A step of writing. -/
inductive Emission where
  /-- Lines at the level. -/
  | lines (texts : List String)
  /-- Empty lines. -/
  | blanks (count : Int)
  | indent
  | dedent
  /-- The header of a block; the closing line is kept for later. -/
  | openBlock (header close : String)
  /-- The closing line of the innermost block. -/
  | closeBlock
  deriving DecidableEq, Repr

namespace Emitter

/-- The emitter that has written nothing. -/
def new (unit : String) : Emitter :=
  ⟨unit, 0, []⟩

/-- What a step writes, and what is known afterwards. -/
def step (e : Emitter) : Emission → Emitter × String
  | .lines texts => (e, String.join (texts.map (lineText e.unit e.level)))
  | .blanks count => (e, emptyLines count)
  | .indent => ({ e with level := e.level + 1 }, "")
  | .dedent => ({ e with level := e.level - 1 }, "")
  | .openBlock header close =>
    ({ e with level := e.level + 1, closers := close :: e.closers }, lineText e.unit e.level header)
  | .closeBlock =>
    match e.closers with
    | [] => (e, "")
    | close :: closers =>
      let level := e.level - 1
      ({ e with level := level, closers := closers }, lineText e.unit level close)

/-- What each of several steps writes. -/
def run : Emitter → List Emission → List String
  | _, [] => []
  | e, s :: ss => (e.step s).2 :: run (e.step s).1 ss

end Emitter

end ReactiveTemplate

/-
Places in a text: lines, columns and offsets.

Lines end at a line feed. Lines and columns count from one, offsets from zero, all in characters.

* `Text.lineOf`, `Text.columnOf` — line and column of an offset;
* `Text.lineAt` — the line of text that an offset lies on;
* `Position`, `Position.ofOffset` — a named place, and the place of an offset cut to the text.
-/

set_option relaxedAutoImplicit false
set_option autoImplicit false

namespace ReactiveTemplate

namespace Text

/-- The characters of a text behind its last line feed. -/
def lastLine (cs : List Char) : List Char :=
  (cs.reverse.takeWhile (· ≠ '\n')).reverse

/-- The characters of a text before its first line feed. -/
def firstLine (cs : List Char) : List Char :=
  cs.takeWhile (· ≠ '\n')

/-- The line, counted from one, that an offset lies on. -/
def lineOf (cs : List Char) (offset : Nat) : Nat :=
  (cs.take offset).count '\n' + 1

/-- The column, counted from one, of an offset. -/
def columnOf (cs : List Char) (offset : Nat) : Nat :=
  (lastLine (cs.take offset)).length + 1

/-- The whole line that an offset lies on, without its line feed. -/
def lineAt (cs : List Char) (offset : Nat) : List Char :=
  lastLine (cs.take offset) ++ firstLine (cs.drop offset)

end Text

/-- A place in a named text. Line and column are zero when the place is unknown. -/
structure Position where
  /-- Name of the text. -/
  file : String
  /-- Line, counted from one. -/
  line : Int
  /-- Column, counted from one. -/
  column : Int
  /-- Offset in characters, counted from zero. -/
  offset : Int
  deriving DecidableEq, Repr

namespace Position

/-- The place of which nothing is known. -/
def unknown : Position :=
  ⟨"", 0, 0, 0⟩

/-- The place of an offset; an offset outside the text is moved to its nearer end. -/
def ofOffset (text : String) (offset : Int) (file : String) : Position :=
  let cs := text.toList
  let at' := min offset.toNat cs.length
  ⟨file, Text.lineOf cs at', Text.columnOf cs at', at'⟩

/-- File, line and column separated by colons, as far as they are known. -/
def render (p : Position) : String :=
  if p.file = "" ∧ p.line = 0 then "<unknown location>"
  else
    ":".intercalate <|
      (if p.file = "" then [] else [p.file]) ++
        (if 0 < p.line then
          toString p.line :: (if 0 < p.column then [toString p.column] else [])
        else [])

end Position

end ReactiveTemplate

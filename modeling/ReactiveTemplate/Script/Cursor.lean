/-
Positions in the script while it is parsed.

A cursor stands at the first character of a token: what separates tokens, comments included, is
skipped as soon as the token before it is taken. It remembers whether a line ended in what was
skipped, where the last token ended, since that is where a finished node ends, and what followed it,
since a statement may end there without a semicolon.

* `skipTrivia` — skips spaces and comments;
* `Cursor`, `Cursor.ofText` — the positions, and the first one of a text;
* `Cursor.take`, `Cursor.takeRaw` — moves past a token, with or without what follows it.
-/

import ReactiveTemplate.Script.Character
import ReactiveTemplate.Text.Bytes

set_option relaxedAutoImplicit false
set_option autoImplicit false

namespace ReactiveTemplate.Script

/-- What is left of a text behind spaces and comments, and where that is. -/
structure Gap where
  /-- The characters that are left. -/
  rest : List Char
  /-- Byte offset of the first of them. -/
  pos : Nat
  /-- A line ended in what was skipped. -/
  newline : Bool
  /-- What was left behind each comment that was skipped, the last comment first. -/
  behindComments : List (List Char)
  deriving DecidableEq, Repr

/-- What is being skipped. A block comment carries the place where it opens: one that is never
closed is no comment, and the text is taken up again there. -/
inductive Trivia where
  | spaces
  | lineComment
  | blockComment (opened : Gap)
  deriving DecidableEq, Repr

/-- Skips spaces and comments, starting with what is given as skipped already. -/
def skipTrivia : Trivia → List Char → Nat → Bool → List (List Char) → Gap
  | .spaces, '/' :: '/' :: cs, pos, newline, behind =>
    skipTrivia .lineComment cs (pos + 2) newline behind
  | .spaces, '/' :: '*' :: cs, pos, newline, behind =>
    skipTrivia (.blockComment ⟨'/' :: '*' :: cs, pos, newline, behind⟩) cs (pos + 2) newline behind
  | .spaces, c :: cs, pos, newline, behind =>
    if isSpace c then skipTrivia .spaces cs (pos + c.utf8Size) (newline || isLineEnd c) behind
    else ⟨c :: cs, pos, newline, behind⟩
  | .spaces, [], pos, newline, behind => ⟨[], pos, newline, behind⟩
  | .lineComment, c :: cs, pos, newline, behind =>
    if isLineEnd c then skipTrivia .spaces cs (pos + c.utf8Size) true ((c :: cs) :: behind)
    else skipTrivia .lineComment cs (pos + c.utf8Size) newline behind
  | .lineComment, [], pos, newline, behind => ⟨[], pos, newline, [] :: behind⟩
  | .blockComment _, '*' :: '/' :: cs, pos, newline, behind =>
    skipTrivia .spaces cs (pos + 2) newline (cs :: behind)
  | .blockComment opened, c :: cs, pos, newline, behind =>
    skipTrivia (.blockComment opened) cs (pos + c.utf8Size) (newline || isLineEnd c) behind
  | .blockComment opened, [], _, _, _ => opened

/-- Skips spaces and comments from a place on. -/
def skipFrom (cs : List Char) (pos : Nat) : Gap :=
  skipTrivia .spaces cs pos false []

/-- A position at the first character of a token. -/
structure Cursor extends Gap where
  /-- Byte offset behind the last token taken. -/
  stop : Nat
  /-- The characters behind the last token taken. -/
  behind : List Char
  deriving DecidableEq, Repr

namespace Cursor

/-- The cursor at the first token of a text. -/
def ofText (cs : List Char) : Cursor :=
  ⟨skipFrom cs 0, 0, cs⟩

/-- Moves past `n` characters and skips nothing. -/
def takeRaw (n : Nat) (c : Cursor) : Cursor :=
  let pos := c.pos + Text.byteLength (c.rest.take n)
  let rest := c.rest.drop n
  ⟨⟨rest, pos, false, []⟩, pos, rest⟩

/-- Skips to the next token. -/
def settle (c : Cursor) : Cursor :=
  ⟨skipFrom c.rest c.pos, c.stop, c.behind⟩

/-- Moves past a token of `n` characters and on to the next one. -/
def take (n : Nat) (c : Cursor) : Cursor :=
  (c.takeRaw n).settle

end Cursor

end ReactiveTemplate.Script

/-
Expressions embedded in markup.

An expression in braces ends at the first closing brace that makes the text before it one
expression. Each closing brace is tried in turn: the text is put in parentheses, so that a brace at
its start opens an object and no block, and on a line of its own, so that a comment at its end does
not swallow the parenthesis.

* `Embedded` — a parsed expression with its place in the template;
* `wrapped`, `embedded?` — the text that is parsed, and the one expression in it;
* `searchEnd?` — the first closing brace that works;
* `parseEmbedded` — the expression at a place of a template, or what is wrong with it.
-/

import ReactiveTemplate.Script.Segment
import ReactiveTemplate.Script.Source
import ReactiveTemplate.Text.Blank

set_option relaxedAutoImplicit false
set_option autoImplicit false

namespace ReactiveTemplate.Script

/-- One expression of the markup. -/
structure Embedded extends Source where
  /-- The tree of the expression, inside the parentheses that were added. -/
  node : Node

/-- The text of the expression. -/
def Embedded.source (e : Embedded) : String :=
  e.slice e.node

/-- The text that is parsed for an expression. -/
def wrapped (slice : List Char) : List Char :=
  '(' :: (slice ++ ['\n', ')'])

/-- The one expression that a program consists of, when it is nothing but an expression in
parentheses from its first byte to its last. -/
def onlyExpression? (size : Nat) (program : Node) : Option Node :=
  match program.children with
  | [statement] =>
    if statement.kind == .expressionStatement then
      match statement.children with
      | [outer] =>
        if outer.kind == .parenthesizedExpression && outer.start == 0 && outer.stop == size then
          match outer.children with
          | [inner] => some inner
          | _ => none
        else none
      | _ => none
    else none
  | _ => none

/-- The piece of script that the text of an expression makes. -/
def wrappedSource? (slice : List Char) (offset : Nat) : Option Source :=
  (parseProgram? (wrapped slice)).map fun root => ⟨wrapped slice, root, offset, 1⟩

/-- A text as one expression at a template offset. -/
def embedded? (slice : List Char) (offset : Nat) : Option Embedded := do
  let source ← wrappedSource? slice offset
  let node ← onlyExpression? (Text.byteLength source.text) source.root
  return ⟨source, node⟩

/-- Tries each closing brace in turn. `before` holds the characters in front, last one first. The
result tells how many characters stand before the brace that works. -/
def searchEnd? (offset : Nat) : List Char → List Char → Option (Embedded × Nat)
  | _, [] => none
  | before, c :: cs =>
    if c == '}' then
      match embedded? before.reverse offset with
      | some e => some (e, before.length)
      | none => searchEnd? offset (c :: before) cs
    else searchEnd? offset (c :: before) cs

/-- What is wrong with a text that the script's grammar does not accept: the start of it is
unexpected. -/
def unexpectedText (inScript : Bool) (cs : List Char) (offset : Nat) : Located :=
  ⟨.unexpectedScript inScript (String.ofList ((Text.trim cs).take 20)), offset⟩

/-- What is wrong when a node should not stand where it stands. -/
def Source.unexpected (source : Source) (inScript : Bool) (n : Node) : Located :=
  unexpectedText inScript (source.slice n).toList (source.charOffset n.start)

/-- What is wrong when no closing brace ends an expression. -/
def embeddedFault (rest : List Char) (offset : Nat) : Located :=
  match scanEnd rest offset with
  | .error l => l
  | .ok stop =>
    let slice := rest.take (stop - offset)
    match wrappedSource? slice offset with
    | none => unexpectedText false slice offset
    | some _ => ⟨.notOneExpression (String.ofList (Text.trim slice)), offset⟩

/-- Whether nothing but blanks stands before the first closing brace of a text. -/
def blankBeforeBrace (rest : List Char) : Bool :=
  rest.contains '}' && Text.allBlank (rest.takeWhile (· ≠ '}'))

/-- The expression that the rest of a template starts with, and the offset of the brace that closes
it. -/
def parseEmbedded (rest : List Char) (offset : Nat) : Except Located (Embedded × Nat) :=
  if blankBeforeBrace rest then .error ⟨.emptyExpression, offset⟩
  else
    match searchEnd? offset [] rest with
    | some (e, n) => .ok (e, offset + n)
    | none => .error (embeddedFault rest offset)

end ReactiveTemplate.Script

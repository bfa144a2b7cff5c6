/-
Reading templates.

The reader goes over the characters of a template once. It is either in content or inside an
opening tag, and keeps the elements that are open. At each place it takes one item: a run of text,
an expression, a tag or the script block in content; a blank, an attribute or the end of the tag
inside a tag. Every item takes at least one character, so the template itself bounds the work.

* `ReaderState` — open elements, fragments read so far, the script block if it has been read;
* `contentStep`, `tagStep` — one item, with the number of further characters it takes;
* `readFrom` — the reader;
* `Document.parse` — a template as a document, or what is wrong with it.
-/

import ReactiveTemplate.Markup.Basic

set_option relaxedAutoImplicit false
set_option autoImplicit false

namespace ReactiveTemplate

open Script

/-! ### Pieces of text -/

/-- What follows a literal at the start of a text, if it starts with it. -/
def stripLiteral? : List Char → List Char → Option (List Char)
  | [], cs => some cs
  | _ :: _, [] => none
  | l :: ls, c :: cs => if l = c then stripLiteral? ls cs else none

/-- The characters of a text before the first occurrence of a literal. -/
def takeUntil? (literal : List Char) : List Char → Option (List Char)
  | [] => if literal = [] then some [] else none
  | c :: cs =>
    if literal.isPrefixOf (c :: cs) then some []
    else (takeUntil? literal cs).map (c :: ·)

/-- Lower-case letters. -/
def isTagStart (c : Char) : Bool :=
  'a' ≤ c && c ≤ 'z'

/-- Lower-case letters and digits. -/
def isTagPart (c : Char) : Bool :=
  isTagStart c || ('0' ≤ c && c ≤ '9')

/-- The longest tag name that a text starts with; empty when it starts with none. -/
def tagName : List Char → List Char
  | c :: cs => if isTagStart c then c :: cs.takeWhile isTagPart else []
  | [] => []

/-- What an attribute name is made of. -/
def isAttributePart (c : Char) : Bool :=
  !Text.isBlank c && c != '=' && c != '/' && c != '>' && c != '"' && c != '\'' && c != '{' &&
    c != '}' && c != '<'

/-- What runs of text are made of. -/
def isTextPart (c : Char) : Bool :=
  c != '<' && c != '{'

/-- The opening tag of the script block, if a text starts with it. -/
def scriptOpening? (cs : List Char) : Option (List Char) := do
  let inside ← stripLiteral? "<script".toList cs
  let blanks := inside.takeWhile Text.isBlank
  let _ ← stripLiteral? ['>'] (inside.drop blanks.length)
  return "<script".toList ++ blanks ++ ['>']

/-- The first character of a text as a text of its own; empty at the end. -/
def firstCharacter (cs : List Char) : String :=
  String.ofList (cs.take 1)

/-! ### The state of the reader -/

/-- An element whose closing tag has not been read. -/
structure OpenElement where
  /-- Its name. -/
  name : String
  /-- Its attributes. -/
  attributes : List Attribute
  /-- Its offset in the template. -/
  start : Nat
  /-- The fragments before it in its parent. -/
  siblings : List Fragment

/-- An opening tag that is being read. -/
structure OpenTag where
  /-- Name of the element. -/
  name : String
  /-- Attributes read so far. -/
  attributes : List Attribute
  /-- Offset in the template. -/
  start : Nat

/-- What has been read. -/
structure ReaderState where
  /-- The opening tag that is being read, if any. -/
  tag : Option OpenTag
  /-- The open elements, innermost first. -/
  opened : List OpenElement
  /-- The fragments read so far of the innermost open element, or at top level. -/
  current : List Fragment
  /-- The script block, if it has been read. -/
  script : Option ScriptBlock

namespace ReaderState

/-- The state before anything has been read. -/
def initial : ReaderState :=
  ⟨none, [], [], none⟩

/-- Adds a fragment. -/
def add (s : ReaderState) (f : Fragment) : ReaderState :=
  { s with current := s.current ++ [f] }

/-- Goes into an element whose opening tag has been read. -/
def enter (s : ReaderState) (t : OpenTag) : ReaderState :=
  { s with
    tag := none
    opened := ⟨t.name, t.attributes, t.start, s.current⟩ :: s.opened
    current := [] }

/-- Adds an element that closes itself. -/
def addEmpty (s : ReaderState) (t : OpenTag) : ReaderState :=
  { s with tag := none }.add (.element t.name t.attributes [] t.start)

/-- Leaves the innermost open element, which is now complete. -/
def leave (s : ReaderState) (e : OpenElement) (outer : List OpenElement) : ReaderState :=
  { s with
    opened := outer
    current := e.siblings ++ [.element e.name e.attributes s.current e.start] }

end ReaderState

/-- The state behind an item, and how many characters behind its first one the item takes. -/
abbrev ReaderStep := Except Located (ReaderState × Nat)

/-! ### Items of content -/

/-- The script block. -/
def scriptStep (s : ReaderState) (opening cs : List Char) (offset : Nat) : ReaderStep :=
  if s.script.isSome then .error ⟨.duplicateScript, offset⟩
  else
    let bodyStart := offset + opening.length
    let after := cs.drop opening.length
    match takeUntil? "</script>".toList after with
    | none => .error ⟨.unclosedScript, bodyStart + after.length⟩
    | some body =>
      match Source.ofScript? body bodyStart with
      | none => .error (unexpectedText true body bodyStart)
      | some program =>
        .ok ({ s with script := some (.ofProgram program offset) },
          opening.length + body.length + "</script>".length - 1)

/-- A closing tag; `cs` starts with it. -/
def closingStep (s : ReaderState) (cs : List Char) (offset : Nat) : ReaderStep :=
  match s.opened with
  | [] =>
    let tag :=
      match takeUntil? ['>'] cs with
      | some before => before ++ ['>']
      | none => cs
    .error ⟨.strayClosingTag (String.ofList tag), offset⟩
  | e :: outer =>
    let name := tagName (cs.drop 2)
    let after := cs.drop (2 + name.length)
    let blanks := after.takeWhile Text.isBlank
    if String.ofList name = e.name ∧ (after.drop blanks.length).head? = some '>' then
      .ok (s.leave e outer, 2 + name.length + blanks.length)
    else .error ⟨.wrongClosingTag e.name (String.ofList ('<' :: '/' :: name)), offset⟩

/-- The start of an opening tag; `rest` follows the angle bracket. -/
def openingStep (s : ReaderState) (rest : List Char) (offset : Nat) : ReaderStep :=
  let name := tagName rest
  if name = [] then .error ⟨.missingTagName (firstCharacter rest), offset + 1⟩
  else .ok ({ s with tag := some ⟨String.ofList name, [], offset⟩ }, name.length)

/-- An expression; `rest` follows the brace. -/
def expressionStep (s : ReaderState) (rest : List Char) (offset : Nat) : ReaderStep := do
  let (e, stop) ← parseEmbedded rest (offset + 1)
  return (s.add (.expression e offset), stop - offset)

/-- A run of text, which gives a fragment unless it is all blank. -/
def textStep (s : ReaderState) (cs : List Char) (offset : Nat) : ReaderStep :=
  let run := cs.takeWhile isTextPart
  let s' := if Text.allBlank run then s else s.add (.text (String.ofList run) offset)
  .ok (s', run.length - 1)

/-- One item of content at the character `c`. -/
def contentStep (s : ReaderState) (c : Char) (rest : List Char) (offset : Nat) : ReaderStep :=
  if c = '<' ∧ rest.head? = some '/' then closingStep s (c :: rest) offset
  else
    match scriptOpening? (c :: rest) with
    | some opening => scriptStep s opening (c :: rest) offset
    | none =>
      if c = '<' then openingStep s rest offset
      else if c = '{' then expressionStep s rest offset
      else textStep s (c :: rest) offset

/-! ### Items of an opening tag -/

/-- The value of an attribute, and how many characters it takes; `cs` starts with it. -/
def attributeValue (name : String) (cs : List Char) (offset : Nat) :
    Except Located (AttributeValue × Nat) :=
  match cs with
  | '{' :: rest => do
    let (e, stop) ← parseEmbedded rest (offset + 1)
    return (.expression e, stop - offset + 1)
  | c :: rest =>
    if c = '"' ∨ c = '\'' then
      match takeUntil? [c] rest with
      | some value => .ok (.quoted (String.ofList value), value.length + 2)
      | none => .error ⟨.unterminatedValue name c.toString, offset + cs.length⟩
    else .error ⟨.missingValue name c.toString, offset⟩
  | [] => .error ⟨.missingValue name "", offset⟩

/-- An attribute; `cs` starts with it. -/
def attributeStep (s : ReaderState) (t : OpenTag) (cs : List Char) (offset : Nat) : ReaderStep :=
  let name := cs.takeWhile isAttributePart
  if name = [] then .error ⟨.missingAttributeName (firstCharacter cs), offset⟩
  else
    let after := cs.drop name.length
    let here := offset + name.length
    match stripLiteral? ['='] after with
    | none => .error ⟨.missingLiteral "=" (firstCharacter after) after.isEmpty, here⟩
    | some rest => do
      let text := String.ofList name
      let (value, n) ← attributeValue text rest (here + 1)
      let t' := { t with attributes := t.attributes ++ [⟨text, value, offset⟩] }
      return ({ s with tag := some t' }, name.length + n)

/-- One item of an opening tag at the character `c`. -/
def tagStep (s : ReaderState) (t : OpenTag) (c : Char) (rest : List Char) (offset : Nat) :
    ReaderStep :=
  if Text.isBlank c then .ok (s, 0)
  else if c = '/' ∧ rest.head? = some '>' then .ok (s.addEmpty t, 1)
  else if c = '>' then .ok (s.enter t, 0)
  else attributeStep s t (c :: rest) offset

/-! ### The reader -/

/-- One item at the character `c`. -/
def readStep (s : ReaderState) (c : Char) (rest : List Char) (offset : Nat) : ReaderStep :=
  match s.tag with
  | some t => tagStep s t c rest offset
  | none => contentStep s c rest offset

/-- What is wrong with a template that ends in a state, if anything. -/
def endFault? (s : ReaderState) : Option Fault :=
  match s.tag, s.opened with
  | some t, _ => some (.unfinishedTag t.name)
  | none, e :: _ => some (.unclosedElement e.name)
  | none, [] => none

/-- Reads on from an offset after passing over `skip` characters. -/
def readFrom : ReaderState → Nat → Nat → List Char → Except Located ReaderState
  | s, _, offset, [] =>
    match endFault? s with
    | some fault => .error ⟨fault, offset⟩
    | none => .ok s
  | s, skip + 1, offset, _ :: cs => readFrom s skip (offset + 1) cs
  | s, 0, offset, c :: cs =>
    match readStep s c cs offset with
    | .ok (s', skip) => readFrom s' skip (offset + 1) cs
    | .error l => .error l

/-- A template as a document, or the first thing that is wrong with it. -/
def Document.parse (template filename : String) : Except Located Document :=
  (readFrom .initial 0 0 template.toList).map fun s =>
    ⟨s.current, s.script, filename, template⟩

end ReactiveTemplate

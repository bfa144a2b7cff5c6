/-
Closed segments of script: where an expression in braces ends, judged by its brackets alone.

A scan goes over strings, comments and templates as wholes and keeps a stack of the closing
brackets that are still to come. It finds the brace that closes the expression, or the first
bracket that cannot stand where it stands. It is asked only when no brace closes a valid
expression, to say what is wrong.

* `stringTailLength`, `stringEnd` — the extent of a string;
* `lineCommentLength`, `blockCommentLength` — the extents of comments;
* `scanEnd` — the scan.
-/

import ReactiveTemplate.Diagnostic.Fault

set_option relaxedAutoImplicit false
set_option autoImplicit false

namespace ReactiveTemplate.Script

/-- How many characters behind its opening quote a string takes. It ends behind its closing quote
or at the end of the line; a character behind a backslash ends nothing. -/
def stringTailLength (mark : Char) : List Char → Nat
  | '\\' :: _ :: cs => stringTailLength mark cs + 2
  | c :: cs => if c == mark || c == '\n' then 1 else stringTailLength mark cs + 1
  | [] => 0

/-- The offset behind the string that opens at an offset of a text. -/
def stringEnd (cs : List Char) (start : Nat) : Nat :=
  match cs.drop start with
  | mark :: rest => start + 1 + stringTailLength mark rest
  | [] => cs.length

/-- How many characters a line comment takes behind its first one. -/
def lineCommentLength (cs : List Char) : Nat :=
  (cs.takeWhile (· ≠ '\n')).length

/-- How many characters a block comment takes behind its opening. -/
def blockCommentLength : List Char → Nat
  | '*' :: '/' :: _ => 2
  | _ :: cs => blockCommentLength cs + 1
  | [] => 0

/-- The bracket that closes an opening one. -/
def closerOf? : Char → Option Char
  | '(' => some ')'
  | '[' => some ']'
  | '{' => some '}'
  | _ => none

/-- Whether a character is a closing bracket. -/
def isCloser (c : Char) : Bool :=
  c == ')' || c == ']' || c == '}'

/-- The mark of template text on the stack of closing brackets. -/
def templateMark : Char := '\x60'

/-- What the scan does at a character. -/
inductive ScanStep where
  /-- Goes on behind this many more characters, with a new stack. -/
  | goOn (stack : List Char) (skip : Nat)
  /-- The expression ends here. -/
  | finish
  /-- Something is wrong here. -/
  | fail (fault : Fault)
  deriving DecidableEq, Repr

/-- What the scan does in the text of a template. -/
def templateStep (stack : List Char) (c : Char) (rest : List Char) : ScanStep :=
  if c == '\\' then .goOn stack 1
  else if c == templateMark then .goOn stack.tail 0
  else if c == '$' && rest.head? == some '{' then .goOn ('}' :: stack) 1
  else .goOn stack 0

/-- What the scan does at a closing bracket. -/
def closerStep (stack : List Char) (c : Char) : ScanStep :=
  match stack with
  | [] => if c == '}' then .finish else .fail (.unbalancedCloser c)
  | top :: below => if top == c then .goOn below 0 else .fail (.wrongCloser top c)

/-- What the scan does outside templates. -/
def codeStep (stack : List Char) (c : Char) (rest : List Char) : ScanStep :=
  if c == '"' || c == '\'' then .goOn stack (stringTailLength c rest)
  else if c == templateMark then .goOn (templateMark :: stack) 0
  else if c == '/' && rest.head? == some '/' then .goOn stack (lineCommentLength rest)
  else if c == '/' && rest.head? == some '*' then .goOn stack (1 + blockCommentLength rest.tail)
  else
    match closerOf? c with
    | some closer => .goOn (closer :: stack) 0
    | none => if isCloser c then closerStep stack c else .goOn stack 0

/-- What the scan does at a character, given the brackets that are still to be closed. -/
def scanStep (stack : List Char) (c : Char) (rest : List Char) : ScanStep :=
  if stack.head? == some templateMark then templateStep stack c rest else codeStep stack c rest

/-- Scans characters from an offset on, after passing over `skip` of them. -/
def scanFrom : List Char → Nat → Nat → List Char → Except Located Nat
  | stack, _, offset, [] => .error ⟨.unfinishedExpression (stack.headD '}'), offset⟩
  | stack, skip + 1, offset, _ :: cs => scanFrom stack skip (offset + 1) cs
  | stack, 0, offset, c :: cs =>
    match scanStep stack c cs with
    | .goOn stack' skip => scanFrom stack' skip (offset + 1) cs
    | .finish => .ok offset
    | .fail fault => .error ⟨fault, offset⟩

/-- The offset of the brace that closes the expression which the text from the given offset on
starts with. -/
def scanEnd (rest : List Char) (offset : Nat) : Except Located Nat :=
  scanFrom [] 0 offset rest

end ReactiveTemplate.Script

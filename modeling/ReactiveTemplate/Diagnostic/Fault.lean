/-
Faults of a template: everything that can keep it from being read.

A fault is a cause. Its code, wording and expectations follow from the cause; its place is the
character offset it is found at.

* `Fault` — the causes, in the markup, at the braces of an expression, and in the script;
* `Fault.message`, `Fault.code`, `Fault.expected`, `Fault.got` — how a cause is worded;
* `Located`, `Located.diagnose` — a cause with its offset, and the diagnostic of it.
-/

import ReactiveTemplate.Diagnostic.Basic

set_option relaxedAutoImplicit false
set_option autoImplicit false

namespace ReactiveTemplate

/-- What kept a template from being read. -/
inductive Fault where
  /-- A literal should have come; `ended` tells that the template was at its end. -/
  | missingLiteral (literal got : String) (ended : Bool)
  /-- The template ends inside an element. -/
  | unclosedElement (name : String)
  /-- A closing tag outside all elements. -/
  | strayClosingTag (tag : String)
  /-- A second script block. -/
  | duplicateScript
  /-- The template ends inside the script block. -/
  | unclosedScript
  /-- No name behind an opening angle bracket. -/
  | missingTagName (got : String)
  /-- The template ends inside an opening tag. -/
  | unfinishedTag (name : String)
  /-- A closing tag of another element, or an unfinished one. -/
  | wrongClosingTag (name got : String)
  /-- No attribute name where one should stand. -/
  | missingAttributeName (got : String)
  /-- The template ends inside a quoted value. -/
  | unterminatedValue (name quote : String)
  /-- No value behind an equals sign. -/
  | missingValue (name got : String)
  /-- Nothing between two braces. -/
  | emptyExpression
  /-- Something other than one expression between two braces. -/
  | notOneExpression (text : String)
  /-- A closing bracket that was never opened. -/
  | unbalancedCloser (got : Char)
  /-- A closing bracket of the wrong kind. -/
  | wrongCloser (expected got : Char)
  /-- The template ends inside an expression. -/
  | unfinishedExpression (expected : Char)
  /-- Text in an expression or, with `inScript`, in the script block that the script's grammar does
  not accept. -/
  | unexpectedScript (inScript : Bool) (got : String)
  deriving DecidableEq, Repr

namespace Fault

/-- What the message says. -/
def message : Fault → String
  | missingLiteral literal _ _ => "Expected '" ++ literal ++ "'"
  | unclosedElement name => "Unexpected end of input, <" ++ name ++ "> is not closed"
  | strayClosingTag tag => "Unexpected closing tag " ++ tag
  | duplicateScript => "A template may contain only one <script> block"
  | unclosedScript => "Unexpected end of input, <script> is not closed"
  | missingTagName _ => "Expected a tag name"
  | unfinishedTag name => "Unexpected end of input in <" ++ name ++ ">"
  | wrongClosingTag name got => "Expected </" ++ name ++ ">, got " ++ got
  | missingAttributeName _ => "Expected an attribute name"
  | unterminatedValue name _ => "Unterminated value for attribute '" ++ name ++ "'"
  | missingValue name _ => "Expected a value for attribute '" ++ name ++ "'"
  | emptyExpression => "Expected an expression"
  | notOneExpression text => "Expected a single expression, got " ++ Text.quote text
  | unbalancedCloser got => "Unbalanced '" ++ got.toString ++ "' in expression"
  | wrongCloser expected got =>
    "Expected '" ++ expected.toString ++ "', got '" ++ got.toString ++ "'"
  | unfinishedExpression _ => "Unexpected end of input inside expression"
  | unexpectedScript _ got =>
    if got = "" then "Unexpected end of script" else "Unexpected " ++ Text.quote got ++ " in script"

/-- The code of a cause. -/
def code : Fault → Code
  | missingLiteral _ _ ended => if ended then .unexpectedEnd else .unexpectedToken
  | unclosedElement _ | unclosedScript | unfinishedTag _ | unterminatedValue _ _
  | unfinishedExpression _ => .unexpectedEnd
  | strayClosingTag _ | wrongClosingTag _ _ => .mismatchedClosingTag
  | duplicateScript => .duplicateScript
  | missingTagName _ | missingAttributeName _ | missingValue _ _ => .unexpectedToken
  | emptyExpression | notOneExpression _ | unbalancedCloser _ | wrongCloser _ _ =>
    .invalidExpression
  | unexpectedScript inScript _ => if inScript then .invalidScript else .invalidExpression

/-- What should have come. -/
def expected : Fault → List String
  | missingLiteral literal _ _ => ["'" ++ literal ++ "'"]
  | unclosedElement name => ["</" ++ name ++ ">"]
  | strayClosingTag _ => ["end of input"]
  | duplicateScript => []
  | unclosedScript => ["</script>"]
  | missingTagName _ => ["tag name"]
  | unfinishedTag _ => ["'>'"]
  | wrongClosingTag name _ => ["</" ++ name ++ ">"]
  | missingAttributeName _ => ["attribute name", "'>'", "'/>'"]
  | unterminatedValue _ quote => [quote]
  | missingValue _ _ => ["'\x7b'", "'\"'"]
  | emptyExpression | notOneExpression _ => ["expression"]
  | unbalancedCloser _ => ["\x7d"]
  | wrongCloser expected _ => [expected.toString]
  | unfinishedExpression expected => [expected.toString]
  | unexpectedScript _ _ => []

/-- What came instead. -/
def got : Fault → String
  | missingLiteral _ got _ | missingTagName got | wrongClosingTag _ got
  | missingAttributeName got | missingValue _ got | unexpectedScript _ got => got
  | strayClosingTag tag => tag
  | emptyExpression => "\x7d"
  | unbalancedCloser got | wrongCloser _ got => got.toString
  | unclosedElement _ | duplicateScript | unclosedScript | unfinishedTag _
  | unterminatedValue _ _ | notOneExpression _ | unfinishedExpression _ => ""

/-- Whether the line of text is shown with the fault. Faults at the braces of an expression are
shown without. -/
def showsLine : Fault → Bool
  | emptyExpression | notOneExpression _ | unbalancedCloser _ | wrongCloser _ _
  | unfinishedExpression _ => false
  | _ => true

end Fault

/-- A fault with the character offset at which it is found. -/
structure Located where
  /-- The cause. -/
  fault : Fault
  /-- Offset in the template. -/
  offset : Nat
  deriving DecidableEq, Repr

/-- The diagnostic of a fault in a named template. -/
def Located.diagnose (template file : String) (l : Located) : Diagnostic :=
  let line := if l.fault.showsLine then String.ofList (Text.lineAt template.toList l.offset) else ""
  .grammar l.fault.code l.fault.message (.ofOffset template l.offset file) none "" line
    l.fault.expected l.fault.got

end ReactiveTemplate

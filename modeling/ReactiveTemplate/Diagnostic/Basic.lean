/-
Diagnostics: what went wrong, where, and how it is shown.

* `Severity`, `Phase`, `Code` — how bad a fault is, which part of the work found it, its number;
* `Diagnostic` — a fault with its place, hint and source line, and the details of its kind;
* `Diagnostic.render`, `Diagnostic.json` — the two forms in which it is shown;
* `Diagnostic.grammar`, `Diagnostic.cyclic`, `Diagnostic.general` — the three kinds.
-/

import ReactiveTemplate.Json
import ReactiveTemplate.Text.Position

set_option relaxedAutoImplicit false
set_option autoImplicit false

namespace ReactiveTemplate

/-- How bad a fault is. -/
inductive Severity where
  | fatal
  | error
  | warning
  deriving DecidableEq, Repr

/-- The word for a severity. -/
def Severity.name : Severity → String
  | .fatal => "fatal"
  | .error => "error"
  | .warning => "warning"

/-- The part of the work that found a fault. -/
inductive Phase where
  | parse
  | analysis
  | generation
  | internal
  deriving DecidableEq, Repr

/-- The word for a phase. -/
def Phase.name : Phase → String
  | .parse => "parse"
  | .analysis => "analysis"
  | .generation => "codegen"
  | .internal => "internal"

/-- The code of a fault: a family and a number, with the phase it belongs to. -/
structure Code where
  /-- Family of codes. -/
  family : String
  /-- Number in the family. -/
  number : Int
  /-- Phase that reports the code. -/
  phase : Phase
  /-- Severity of a fault that says nothing else. -/
  severity : Severity
  deriving DecidableEq, Repr

namespace Code

/-- A number with at least four characters, the sign included. -/
def fourDigits (n : Int) : String :=
  let digits := toString n.natAbs
  let sign := if n < 0 then "-" else ""
  let width := 4 - sign.length
  sign ++ String.ofList (List.replicate (width - digits.length) '0') ++ digits

/-- Family and number. -/
def text (c : Code) : String :=
  c.family ++ "-" ++ fourDigits c.number

/-- Two codes are the same when family and number agree. -/
def same (c d : Code) : Bool :=
  c.family == d.family && c.number == d.number

/-- The code with its phase, as shown in listings. -/
def describe (c : Code) : String :=
  "ErrorCode(" ++ Text.quote c.text ++ ", " ++ c.phase.name ++ ")"

/-- How many different codes a list holds. -/
def countDistinct : List Code → Nat
  | [] => 0
  | c :: cs => countDistinct cs + if cs.any (same c) then 0 else 1

/-- A character that cannot stand where it stands. -/
def unexpectedToken : Code := ⟨"WEAVE", 1001, .parse, .fatal⟩

/-- The template ends too early. -/
def unexpectedEnd : Code := ⟨"WEAVE", 1002, .parse, .fatal⟩

/-- A closing tag that closes nothing, or something else. -/
def mismatchedClosingTag : Code := ⟨"WEAVE", 1003, .parse, .fatal⟩

/-- An expression in braces that is none. -/
def invalidExpression : Code := ⟨"WEAVE", 1004, .parse, .fatal⟩

/-- A script block that is no script. -/
def invalidScript : Code := ⟨"WEAVE", 1005, .parse, .fatal⟩

/-- A second script block. -/
def duplicateScript : Code := ⟨"WEAVE", 1006, .parse, .fatal⟩

/-- Reactive declarations that depend on each other in a circle. -/
def circularDependency : Code := ⟨"WEAVE", 4001, .generation, .fatal⟩

/-- A fault of the compiler itself. -/
def internalError : Code := ⟨"WEAVE", 9001, .internal, .fatal⟩

/-- The codes that are in use, by name. -/
def registry : List (String × Code) :=
  [("UNEXPECTED_TOKEN", unexpectedToken), ("UNEXPECTED_EOF", unexpectedEnd),
    ("MISMATCHED_CLOSING_TAG", mismatchedClosingTag), ("INVALID_EXPRESSION", invalidExpression),
    ("INVALID_SCRIPT", invalidScript), ("DUPLICATE_SCRIPT", duplicateScript),
    ("CIRCULAR_DEPENDENCY", circularDependency), ("INTERNAL_ERROR", internalError)]

end Code

/-- What a diagnostic says beyond its message. -/
inductive Detail where
  /-- Nothing more. -/
  | general
  /-- What the grammar wanted, and what stood there. -/
  | grammar (expected : List String) (got : String)
  /-- The names that depend on each other, the first one again at the end. -/
  | cycle (names : List String)
  deriving DecidableEq, Repr

/-- A fault as it is reported. -/
structure Diagnostic where
  /-- Its code. -/
  code : Code
  /-- What went wrong. -/
  message : String
  /-- Where it went wrong. -/
  position : Position
  /-- How bad it is. -/
  severity : Severity
  /-- What might help; empty for none. -/
  hint : String
  /-- The line of text it stands on; empty for none. -/
  sourceLine : String
  /-- What its kind adds. -/
  detail : Detail
  deriving DecidableEq, Repr

namespace Diagnostic

/-- The form for terminals: place, severity, message and code, then the source line with a mark
under the column, then the hint. -/
def render (d : Diagnostic) : String :=
  let severity := if d.severity = .fatal then "error" else d.severity.name
  let head := d.position.render ++ ": " ++ severity ++ ": " ++ d.message ++ " [" ++ d.code.text ++ "]"
  let source :=
    if d.sourceLine = "" then []
    else
      ("    " ++ d.sourceLine) ::
        (if 0 < d.position.column then
          ["    " ++ String.ofList (List.replicate (d.position.column.toNat - 1) ' ') ++ "^"]
        else [])
  let hint := if d.hint = "" then [] else ["hint: " ++ d.hint]
  "\n".intercalate (head :: (source ++ hint))

/-- The form for programs. -/
def json (d : Diagnostic) : Json :=
  .object
    [("code", .string d.code.text), ("message", .string d.message),
      ("severity", .string d.severity.name), ("phase", .string d.code.phase.name),
      ("location", .object
        [("file", .string d.position.file), ("line", .number d.position.line),
          ("column", .number d.position.column), ("offset", .number d.position.offset)]),
      ("hint", .string d.hint)]

/-- The hint made of what was expected. -/
def expectedHint : List String → String
  | [] => ""
  | [one] => "Expected " ++ one
  | many => "Expected one of: " ++ ", ".intercalate many

/-- A diagnostic of no special kind. -/
def general (code : Code) (message : String) (position : Position) (severity : Option Severity)
    (hint sourceLine : String) : Diagnostic :=
  ⟨code, message, position, severity.getD code.severity, hint, sourceLine, .general⟩

/-- A text that does not follow the grammar. What was expected serves as hint if none is given. -/
def grammar (code : Code) (message : String) (position : Position) (severity : Option Severity)
    (hint sourceLine : String) (expected : List String) (got : String) : Diagnostic :=
  let hint := if hint = "" then expectedHint expected else hint
  ⟨code, message, position, severity.getD code.severity, hint, sourceLine, .grammar expected got⟩

/-- Reactive declarations that depend on each other in a circle. -/
def cyclic (names : List String) (position : Position) (severity : Option Severity)
    (sourceLine : String) : Diagnostic :=
  ⟨.circularDependency,
    "Cyclical dependency between reactive declarations: " ++ " -> ".intercalate names,
    position, severity.getD Code.circularDependency.severity,
    "Break the cycle so that no reactive declaration reads its own result", sourceLine,
    .cycle names⟩

end Diagnostic

end ReactiveTemplate

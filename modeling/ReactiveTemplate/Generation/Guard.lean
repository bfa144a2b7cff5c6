/-
Guards: tests whether one of some names has changed.

A change set is a sequence of words of 32 bits, one bit for each binding. A guard tests one mask
for each word that holds a bit of interest.

* `wordOf`, `bitOf` — where the bit of an index is;
* `WordTest`, `wordTests` — the tests for some indices, in ascending order of words;
* `Bindings.indices`, `Bindings.arrange` — the indices of names, and names in the order of these;
* `guardText` — a guard as it is written.
-/

import ReactiveTemplate.Analysis.Bindings
import ReactiveTemplate.Generation.Error
import ReactiveTemplate.SortBy

set_option relaxedAutoImplicit false
set_option autoImplicit false

namespace ReactiveTemplate

/-! ### Words and masks -/

/-- How many bits a word has. -/
def wordBits : Nat := 32

/-- The word that the bit of an index is in. -/
def wordOf (index : Int) : Int :=
  index.fdiv wordBits

/-- The place of the bit of an index in its word. -/
def bitOf (index : Int) : Nat :=
  (index.fmod wordBits).toNat

/-- A test of some bits of a word. -/
structure WordTest where
  /-- The word. -/
  word : Int
  /-- The bits. -/
  mask : Nat
  deriving DecidableEq, Repr

/-- The bits of a word that indices stand for. -/
def maskOf (word : Int) (indices : List Int) : Nat :=
  (indices.filter fun i => wordOf i == word).foldl (fun mask i => mask ||| 1 <<< bitOf i) 0

/-- The tests for some indices, in ascending order of words. -/
def wordTests (indices : List Int) : List WordTest :=
  (sortBy (fun w => w) (indices.map wordOf).eraseDups).map fun w => ⟨w, maskOf w indices⟩

/-! ### Names and their indices -/

namespace Bindings

/-- The index of a name that must be bound. -/
def index (bindings : Bindings) (name : String) : Except GenerationError Int :=
  match bindings.index? name with
  | some i => .ok i
  | none => .error (.unbound name)

/-- The indices of names that must be bound. -/
def indices (bindings : Bindings) : List String → Except GenerationError (List Int)
  | [] => .ok []
  | name :: names => do
    let i ← bindings.index name
    let is ← indices bindings names
    return i :: is

/-- Names that must be bound, each once, in ascending order of their indices. -/
def arrange (bindings : Bindings) (names : List String) :
    Except GenerationError (List String) := do
  let distinct := Names.ofList names
  let indices ← bindings.indices distinct
  return (sortBy Prod.snd (distinct.zip indices)).map Prod.fst

end Bindings

/-! ### The text of a guard -/

/-- A test as it is written, on the change set of the given name. -/
def WordTest.render (dirty : String) (t : WordTest) : String :=
  dirty ++ "[" ++ toString t.word ++ "] & " ++ toString t.mask

/-- Tests as they are written: in parentheses if there are several. -/
def renderTests (dirty : String) (tests : List WordTest) : String :=
  match tests with
  | [only] => only.render dirty
  | several => " || ".intercalate (several.map fun t => "(" ++ t.render dirty ++ ")")

/-- The guard that tests whether one of some names is in a change set, with the names in a
comment. -/
def guardText (bindings : Bindings) (names : List String) (dirty : String) :
    Except GenerationError String := do
  let indices ← bindings.indices names
  let label ← bindings.arrange names
  return renderTests dirty (wordTests indices) ++ " /* " ++ ", ".intercalate label ++ " */"

end ReactiveTemplate

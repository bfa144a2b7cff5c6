/-
Lexical scopes.

Scopes are kept in a list, in the order in which they are opened, and known by their place in it.
Each but the outermost has a parent, which was opened before it.

* `ScopeKind`, `Scope` — a scope with its name, parent and declared names;
* `Forest` — scopes in the order of opening;
* `Forest.open`, `Forest.declare` — one more scope, and one more name;
* `Forest.chain` — a scope and the scopes around it, innermost first;
* `Forest.owner?` — the innermost scope of a chain that declares a name;
* `Forest.closestFunction` — the scope that a variable is hoisted to.
-/

import ReactiveTemplate.Names
import ReactiveTemplate.Text.Quoted

set_option relaxedAutoImplicit false
set_option autoImplicit false

namespace ReactiveTemplate

/-- What a scope belongs to. -/
inductive ScopeKind where
  | module
  | function
  | block
  /-- A scope of another kind, which hoisted variables do not pass. -/
  | other (name : String)
  deriving DecidableEq, Repr

namespace ScopeKind

/-- The word for a kind of scope. -/
def name : ScopeKind → String
  | module => "module"
  | function => "function"
  | block => "block"
  | other n => n

/-- The kind of scope that a word names. -/
def ofName : String → ScopeKind
  | "module" => module
  | "function" => function
  | "block" => block
  | n => other n

end ScopeKind

/-- Scopes are known by their place in the forest. -/
abbrev ScopeId := Nat

/-- A scope. -/
structure Scope where
  /-- Its name. -/
  name : String
  /-- What it belongs to. -/
  kind : ScopeKind
  /-- The scope around it. -/
  parent : Option ScopeId
  /-- The names declared in it, in order of first declaration. -/
  declarations : Names
  deriving DecidableEq, Repr

/-- A scope as it is described in listings. -/
def Scope.describe (s : Scope) : String :=
  "Scope(" ++ Text.quote s.name ++ ", kind=" ++ Text.quote s.kind.name ++ ", names=" ++
    Text.quoteList (Names.sort s.declarations) ++ ")"

/-- Scopes in the order in which they were opened. -/
structure Forest where
  /-- The scopes. -/
  scopes : List Scope
  deriving DecidableEq, Repr

namespace Forest

/-- The forest without scopes. -/
def empty : Forest :=
  ⟨[]⟩

/-- The scope with a given number. -/
def get? (f : Forest) (i : ScopeId) : Option Scope :=
  f.scopes[i]?

/-- Opens a scope; its number is the number of scopes opened before. -/
def addScope (f : Forest) (name : String) (kind : ScopeKind) (parent : Option ScopeId) :
    Forest × ScopeId :=
  (⟨f.scopes ++ [⟨name, kind, parent, []⟩]⟩, f.scopes.length)

/-- Declares a name in a scope. -/
def declare (f : Forest) (i : ScopeId) (name : String) : Forest :=
  ⟨f.scopes.modify i fun s => { s with declarations := s.declarations.insert name }⟩

/-- The names declared in a scope. -/
def declarations (f : Forest) (i : ScopeId) : Names :=
  ((f.get? i).map Scope.declarations).getD []

/-- Whether a scope itself declares a name. -/
def declares (f : Forest) (i : ScopeId) (name : String) : Bool :=
  name ∈ f.declarations i

/-- The scope around a scope. -/
def parent? (f : Forest) (i : ScopeId) : Option ScopeId :=
  (f.get? i).bind Scope.parent

/-- A scope and at most `n` scopes around it, innermost first. -/
def chainUpTo (f : Forest) : Nat → ScopeId → List ScopeId
  | 0, i => [i]
  | n + 1, i =>
    match f.parent? i with
    | some p => i :: f.chainUpTo n p
    | none => [i]

/-- A scope and the scopes around it, innermost first. Parents are opened first, so there are at
most as many scopes around it as were opened before it. -/
def chain (f : Forest) (i : ScopeId) : List ScopeId :=
  f.chainUpTo i i

/-- The innermost scope in the chain of a scope that declares a name. -/
def owner? (f : Forest) (i : ScopeId) (name : String) : Option ScopeId :=
  (f.chain i).find? fun j => f.declares j name

/-- Whether a scope is a block with a scope around it, which hoisted variables pass. -/
def passesHoisted (f : Forest) (i : ScopeId) : Bool :=
  match f.get? i with
  | some s => s.kind == .block && s.parent.isSome
  | none => false

/-- The scope that a hoisted variable declared in a scope belongs to. -/
def closestFunction (f : Forest) (i : ScopeId) : ScopeId :=
  ((f.chain i).find? fun j => !f.passesHoisted j).getD i

/-- The scopes directly inside a scope, in order of opening. -/
def childrenOf (f : Forest) (i : ScopeId) : List ScopeId :=
  (List.range f.scopes.length).filter fun j => f.parent? j == some i

end Forest

end ReactiveTemplate

/-
Instrumentation: changes of tracked variables are announced.

A mutation that writes a tracked variable of the module is put in a call that announces the change.
Mutations inside it need no call of their own.

* `Tracking` — what decides whether a name is tracked where it stands;
* `notifiedNames` — the tracked names that a node writes;
* `Announcement`, `announcements` — the outermost mutations that write a tracked name;
* `announce` — the patch with a call around each of them.
-/

import ReactiveTemplate.Analysis.Bindings
import ReactiveTemplate.Analysis.Mutation
import ReactiveTemplate.Script.Patch

set_option relaxedAutoImplicit false
set_option autoImplicit false

namespace ReactiveTemplate

open Script

/-- What decides whether a written name is tracked. -/
structure Tracking where
  /-- The piece of script. -/
  source : Source
  /-- All scopes. -/
  forest : Forest
  /-- What the names of the piece resolve to. -/
  resolution : Resolution
  /-- The scope of the module. -/
  moduleScope : ScopeId
  /-- The tracked names. -/
  tracked : Names
  /-- The indices of names. -/
  bindings : Bindings

/-- Whether a name written in a scope is a tracked and bound variable of the module. -/
def Tracking.notifies (t : Tracking) (scope : ScopeId) (name : String) : Bool :=
  name ∈ t.tracked && t.bindings.binds name && t.forest.owner? scope name == some t.moduleScope

/-- The tracked names that a node writes in a scope. -/
def notifiedNames (t : Tracking) (scope : ScopeId) (n : Node) : List String :=
  if n.kind.isMutation then (writtenNames t.source n).filter (t.notifies scope) else []

/-- A mutation to be announced. -/
structure Announcement where
  /-- Byte offset of the mutation. -/
  start : Nat
  /-- Byte offset behind the mutation. -/
  stop : Nat
  /-- The indices of the names that change, in ascending order. -/
  indices : List Int
  deriving DecidableEq, Repr

/-- The indices of names, each once and in ascending order. -/
def ascendingIndices (bindings : Bindings) (names : List String) : List Int :=
  sortBy (fun i => i) (names.filterMap bindings.index?).eraseDups

mutual

/-- The outermost mutations of a tree that write a tracked name, in source order. -/
def announcements (t : Tracking) (around : ScopeId) : Node → List Announcement
  | .mk k r a b i cs =>
    let n : Node := .mk k r a b i cs
    let scope := t.resolution.scopeAt n around
    match notifiedNames t scope n with
    | [] => announcementsAll t scope cs
    | names => [⟨a, b, ascendingIndices t.bindings names⟩]

/-- The outermost mutations of several trees that write a tracked name. -/
def announcementsAll (t : Tracking) (around : ScopeId) : List Node → List Announcement
  | [] => []
  | c :: cs => announcements t around c ++ announcementsAll t around cs

end

/-- Numbers separated by commas. -/
def commaSeparated (numbers : List Int) : String :=
  ", ".intercalate (numbers.map toString)

/-- The start of a call that announces the change of bindings. -/
def announcementHead (indices : List Int) : String :=
  "$$invalidate([" ++ commaSeparated indices ++ "]"

/-- A patch with a call put around a mutation. -/
def Announcement.record (p : Patch) (a : Announcement) : Patch :=
  p.wrap a.start a.stop (announcementHead a.indices ++ ", ") ")"

/-- A patch with a call put around each of several mutations. -/
def announce (p : Patch) (as : List Announcement) : Patch :=
  as.foldl Announcement.record p

/-- The text of a node with a patch applied. -/
def patchedText? (source : Source) (p : Patch) (n : Node) : Option String :=
  p.text? (Text.bytes source.text) n.start n.stop

end ReactiveTemplate

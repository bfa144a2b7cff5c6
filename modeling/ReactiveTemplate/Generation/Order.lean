/-
The order in which reactive declarations run.

A declaration runs after those that write a name it reads. Among the declarations that wait for no
other one, the first in source order runs next. When every declaration that is left waits for
another one, some of them wait for each other in a circle.

Each declaration counts the declarations it waits for. When one runs, those that wait for it count
down, and whichever comes to zero joins the queue of those that are ready.

* `feeds` — whether a declaration writes a name that another one reads;
* `Progress` — the counts and the queue between two runs, with `Progress.next?` for the next run;
* `runFrom` — all that can run, in the order in which it does;
* `findCycle?` — a circle among declarations that are left;
* `runningOrder` — the order, or the circle that keeps it from existing.
-/

import ReactiveTemplate.Analysis.Dependent

set_option relaxedAutoImplicit false
set_option autoImplicit false

namespace ReactiveTemplate

/-! ### Which declaration waits for which -/

/-- Whether a declaration writes a name that another one reads. -/
def Dependent.feeds (d e : Dependent) : Bool :=
  d.assignees.any fun name => name ∈ e.dependencies

/-- Whether the declaration at a place must run before the one at another place. -/
def feeds (ds : List Dependent) (i j : Nat) : Bool :=
  i != j &&
    match ds[i]?, ds[j]? with
    | some d, some e => d.feeds e
    | _, _ => false

/-- The places among the given ones that must run before a place. -/
def predecessors (ds : List Dependent) (places : List Nat) (j : Nat) : List Nat :=
  places.filter fun i => feeds ds i j

/-- The rank of a declaration in source order. -/
def sourceIndex (ds : List Dependent) (i : Nat) : Int :=
  match ds[i]? with
  | some d => d.index
  | none => 0

/-- All places of declarations. -/
def allPlaces (ds : List Dependent) : List Nat :=
  List.range ds.length

/-- The places that must run after a place. -/
def successors (ds : List Dependent) (i : Nat) : List Nat :=
  (allPlaces ds).filter fun j => feeds ds i j

/-! ### Running order -/

/-- Whether of two ready declarations the one at the first place runs first: it comes first in
source order, or both have one rank there and its place is the first. -/
def runsBefore (ds : List Dependent) (i j : Nat) : Bool :=
  sourceIndex ds i < sourceIndex ds j || (sourceIndex ds i == sourceIndex ds j && i < j)

/-- Puts a place in its turn in a queue of ready places. -/
def enqueue (ds : List Dependent) (j : Nat) : List Nat → List Nat
  | [] => [j]
  | i :: queue => if runsBefore ds i j then i :: enqueue ds j queue else j :: i :: queue

/-- What is known between two runs. -/
structure Progress where
  /-- For each place, how many of the declarations that it waits for have not run. -/
  waiting : List Nat
  /-- The places that wait for none and have not run, the next one first. -/
  queue : List Nat
  deriving DecidableEq, Repr

namespace Progress

/-- How many declarations a place waits for. -/
def count (s : Progress) (j : Nat) : Nat :=
  s.waiting.getD j 0

/-- Before the first run. -/
def start (ds : List Dependent) : Progress :=
  let waiting := (allPlaces ds).map fun j => (predecessors ds (allPlaces ds) j).length
  ⟨waiting, ((allPlaces ds).filter fun j => waiting.getD j 0 == 0).foldr (enqueue ds) []⟩

/-- One of the declarations that a place waits for has run. -/
def release (ds : List Dependent) (s : Progress) (j : Nat) : Progress :=
  let count := s.count j - 1
  ⟨s.waiting.set j count, if count = 0 then enqueue ds j s.queue else s.queue⟩

/-- Runs the first declaration of the queue, if there is one. -/
def next? (ds : List Dependent) (s : Progress) : Option (Nat × Progress) :=
  match s.queue with
  | [] => none
  | i :: queue => some (i, (successors ds i).foldl (release ds) ⟨s.waiting, queue⟩)

end Progress

/-- Runs up to `n` declarations. Gives the places in the order in which they run. -/
def runFrom (ds : List Dependent) : Nat → Progress → List Nat
  | 0, _ => []
  | n + 1, s =>
    match s.next? ds with
    | none => []
    | some (i, s) => i :: runFrom ds n s

/-! ### Circles -/

/-- Walks from a place to its first predecessor among the places that are left, until a place comes
again. `path` holds the places so far, the last one first. Gives the circle in the order of
dependency. -/
def walkBack (ds : List Dependent) (left : List Nat) : Nat → List Nat → Nat → Option (List Nat)
  | 0, _, _ => none
  | n + 1, path, i =>
    if i ∈ path then some (path.takeWhile (· != i) ++ [i])
    else
      match (predecessors ds left i).head? with
      | some p => walkBack ds left n (i :: path) p
      | none => none

/-- A circle among the places that are left. -/
def findCycle? (ds : List Dependent) (left : List Nat) : Option (List Nat) :=
  left.head?.bind (walkBack ds left (left.length + 1) [])

/-- The name that a declaration is known by in a circle: the first one that it writes. -/
def cycleName (ds : List Dependent) (i : Nat) : String :=
  ((ds[i]?).bind fun d => d.assignees.head?).getD "?"

/-- The names of a circle, the first one again at the end. -/
def cycleNames (ds : List Dependent) (cycle : List Nat) : List String :=
  let names := cycle.map (cycleName ds)
  names ++ names.take 1

/-- Why there is no running order. -/
inductive OrderError where
  /-- The declarations at these places wait for each other. -/
  | cycle (places : List Nat)
  /-- Declarations are left, but no circle is among them. -/
  | noPredecessor
  deriving DecidableEq, Repr

/-- The places of declarations in the order in which they run. -/
def runningOrder (ds : List Dependent) : Except OrderError (List Nat) :=
  let order := runFrom ds ds.length (.start ds)
  match (allPlaces ds).filter fun i => i ∉ order with
  | [] => .ok order
  | left =>
    match findCycle? ds left with
    | some cycle => .error (.cycle cycle)
    | none => .error .noPredecessor

end ReactiveTemplate

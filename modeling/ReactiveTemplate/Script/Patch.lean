/-
Patches: texts inserted into a source without touching it.

An insertion stands at a byte offset, on one of two sides: text that closes what ends there comes
before text that opens what starts there. A slice of the source takes the insertions that belong to
what it holds: text that opens something at its end, or closes something at its start, is a
neighbour's.

* `Side`, `Insertion`, `Patch` — insertions in the order in which they were recorded;
* `Patch.wrap` — text around a range;
* `Patch.apply` — the bytes of a slice with its insertions;
* `Patch.text?` — the same as text.
-/

import ReactiveTemplate.SortBy
import ReactiveTemplate.Text.Bytes

set_option relaxedAutoImplicit false
set_option autoImplicit false

namespace ReactiveTemplate.Script

/-- The side of an offset on which a text is inserted. -/
inductive Side where
  /-- Behind what ends at the offset. -/
  | after
  /-- In front of what starts at the offset. -/
  | before
  deriving DecidableEq, Repr

/-- A text to insert. -/
structure Insertion where
  /-- Byte offset in the source. -/
  offset : Nat
  /-- Side of the offset. -/
  side : Side
  /-- The bytes to insert. -/
  text : List UInt8
  deriving DecidableEq, Repr

/-- Insertions in the order in which they were recorded. -/
structure Patch where
  /-- The insertions. -/
  insertions : List Insertion
  deriving DecidableEq, Repr

/-- The bytes from one offset to another, as far as there are any. -/
def bytesBetween (source : List UInt8) (start stop : Nat) : List UInt8 :=
  (source.drop start).take (stop - start)

namespace Insertion

/-- Insertions are rendered in the order of their ranks: by offset, and at one offset those behind
come before those in front. -/
def rank (i : Insertion) : Nat :=
  match i.side with
  | .after => 2 * i.offset
  | .before => 2 * i.offset + 1

/-- Whether a slice of the source takes an insertion. -/
def within (start stop : Nat) (i : Insertion) : Bool :=
  start ≤ i.offset && i.offset ≤ stop &&
    !((i.offset == stop && i.side == .before) || (i.offset == start && i.side == .after))

end Insertion

namespace Patch

/-- The patch that changes nothing. -/
def empty : Patch :=
  ⟨[]⟩

/-- How many insertions there are. -/
def size (p : Patch) : Nat :=
  p.insertions.length

/-- Records an insertion. -/
def insert (p : Patch) (offset : Nat) (side : Side) (text : String) : Patch :=
  ⟨p.insertions ++ [⟨offset, side, Text.bytes text.toList⟩]⟩

/-- Records texts around a range. -/
def wrap (p : Patch) (start stop : Nat) (opening closing : String) : Patch :=
  (p.insert start .before opening).insert stop .after closing

/-- The bytes from `cursor` to `stop` with the given insertions, which are in order of rank. -/
def renderFrom (source : List UInt8) (stop : Nat) : Nat → List Insertion → List UInt8
  | cursor, [] => bytesBetween source cursor stop
  | cursor, i :: is =>
    bytesBetween source cursor i.offset ++ (i.text ++ renderFrom source stop i.offset is)

/-- The insertions in the order in which they are rendered. -/
def sorted (p : Patch) : List Insertion :=
  sortBy Insertion.rank p.insertions

/-- The bytes of a slice of the source with its insertions. -/
def apply (p : Patch) (source : List UInt8) (start stop : Nat) : List UInt8 :=
  renderFrom source stop start (p.sorted.filter (Insertion.within start stop))

/-- The text of a slice of the source with its insertions; `none` when the bytes are no text. -/
def text? (p : Patch) (source : List UInt8) (start stop : Nat) : Option String :=
  Text.decode? (p.apply source start stop)

@[simp] theorem size_empty : empty.size = 0 := rfl

@[simp] theorem size_insert (p : Patch) (offset : Nat) (side : Side) (text : String) :
    (p.insert offset side text).size = p.size + 1 := by
  simp [insert, size]

@[simp] theorem size_wrap (p : Patch) (start stop : Nat) (opening closing : String) :
    (p.wrap start stop opening closing).size = p.size + 2 := by
  simp [wrap]

end Patch

end ReactiveTemplate.Script

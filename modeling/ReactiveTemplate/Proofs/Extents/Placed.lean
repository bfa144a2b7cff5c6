/-
**Syntax trees that lie properly in their text.**

A node of a syntax tree says where it starts and where it stops, in bytes.  This module says what it
takes for these numbers to make sense: both are boundaries between characters of the text, the node
holds at least one byte, and its children follow each other inside it without overlap.  The grammar
changes the roles, kinds and numbers of nodes after reading them; none of this moves a node.

Main definitions:

* `ReactiveTemplate.Text.Boundary` — byte offsets at which a character starts or the text ends;
* `ReactiveTemplate.Script.Node.Placed`, `ReactiveTemplate.Script.Node.PlacedIn` — a node that lies
  properly in a text, and nodes that do so one after the other between two offsets.

Main results:

* `ReactiveTemplate.Script.Node.PlacedIn.append` — nodes before an offset and nodes behind it;
* `ReactiveTemplate.Script.Node.Placed.asPattern?` — the pattern that a node covers lies where the node
  does;
* `ReactiveTemplate.Script.Node.PlacedIn.numberAllFrom` — numbering moves nothing.
-/

import ReactiveTemplate.Script.Cover
import ReactiveTemplate.Text.Bytes

set_option relaxedAutoImplicit false
set_option autoImplicit false

namespace ReactiveTemplate

/-- A byte offset between two characters of a text, or at one of its ends. -/
def Text.Boundary (text : List Char) (b : Nat) : Prop :=
  ∃ before after, text = before ++ after ∧ Text.byteLength before = b

theorem Text.Boundary.le_byteLength {text : List Char} {b : Nat} (h : Text.Boundary text b) :
    b ≤ Text.byteLength text := by
  obtain ⟨before, after, rfl, rfl⟩ := h
  simp

namespace Script.Node

variable {text : List Char}

mutual

/-- A node that lies properly in a text: it starts and stops between characters, is not empty, and its
children lie in it one after the other. -/
def Placed (text : List Char) : Node → Prop
  | mk _ _ a b _ cs => Text.Boundary text a ∧ Text.Boundary text b ∧ a < b ∧ PlacedIn text a b cs

/-- Nodes that lie properly in a text, one after the other between two offsets. -/
def PlacedIn (text : List Char) : Nat → Nat → List Node → Prop
  | _, _, [] => True
  | a, b, c :: cs => a ≤ c.start ∧ Placed text c ∧ c.stop ≤ b ∧ PlacedIn text c.stop b cs

end

@[simp] theorem placedIn_nil (a b : Nat) : PlacedIn text a b [] := by
  rw [PlacedIn]
  exact trivial

theorem placedIn_cons {a b : Nat} {c : Node} {cs : List Node} :
    PlacedIn text a b (c :: cs) ↔
      a ≤ c.start ∧ c.Placed text ∧ c.stop ≤ b ∧ PlacedIn text c.stop b cs := by
  rw [PlacedIn]

theorem placed_iff {n : Node} :
    n.Placed text ↔ Text.Boundary text n.start ∧ Text.Boundary text n.stop ∧ n.start < n.stop ∧
      PlacedIn text n.start n.stop n.children := by
  cases n
  rw [Placed]
  rfl

namespace Placed

variable {n : Node}

theorem boundary_start (h : n.Placed text) : Text.Boundary text n.start := (placed_iff.1 h).1

theorem boundary_stop (h : n.Placed text) : Text.Boundary text n.stop := (placed_iff.1 h).2.1

theorem start_lt_stop (h : n.Placed text) : n.start < n.stop := (placed_iff.1 h).2.2.1

theorem children (h : n.Placed text) : PlacedIn text n.start n.stop n.children :=
  (placed_iff.1 h).2.2.2

end Placed

/-- One node between two offsets. -/
theorem placedIn_singleton {a b : Nat} {n : Node} :
    PlacedIn text a b [n] ↔ a ≤ n.start ∧ n.Placed text ∧ n.stop ≤ b := by
  simp [placedIn_cons]

theorem PlacedIn.placed_of_mem {a b : Nat} {n : Node} {ns : List Node} (h : PlacedIn text a b ns)
    (hn : n ∈ ns) : n.Placed text := by
  induction ns generalizing a with
  | nil => cases hn
  | cons m ns ih =>
      obtain ⟨-, hm, -, hrest⟩ := placedIn_cons.1 h
      rcases List.mem_cons.1 hn with rfl | hn
      · exact hm
      · exact ih hrest hn

/-- Nodes between two offsets are between offsets further out. -/
theorem PlacedIn.mono {a b a' b' : Nat} {ns : List Node} (h : PlacedIn text a b ns) (ha : a' ≤ a)
    (hb : b ≤ b') : PlacedIn text a' b' ns := by
  induction ns generalizing a a' with
  | nil => exact placedIn_nil _ _
  | cons n ns ih =>
      obtain ⟨hstart, hn, hstop, hrest⟩ := placedIn_cons.1 h
      exact placedIn_cons.2 ⟨by omega, hn, by omega, ih hrest (Nat.le_refl _)⟩

/-- Nodes before an offset and nodes behind it follow each other. -/
theorem PlacedIn.append {a b a' b' : Nat} {ns ms : List Node} (hns : PlacedIn text a b ns)
    (hms : PlacedIn text a' b' ms) (ha : a ≤ a') (hba : b ≤ a') (hb : b ≤ b') :
    PlacedIn text a b' (ns ++ ms) := by
  induction ns generalizing a with
  | nil => exact hms.mono ha (Nat.le_refl _)
  | cons n ns ih =>
      obtain ⟨hstart, hn, hstop, hrest⟩ := placedIn_cons.1 hns
      exact placedIn_cons.2 ⟨hstart, hn, by omega, ih hrest (by omega)⟩

/-- One more node behind the others. -/
theorem PlacedIn.cons {a b : Nat} {n : Node} {ns : List Node} (hn : n.Placed text)
    (hstart : a ≤ n.start) (hstop : n.stop ≤ b) (hns : PlacedIn text n.stop b ns) :
    PlacedIn text a b (n :: ns) :=
  placedIn_cons.2 ⟨hstart, hn, hstop, hns⟩

/-- A node that lies where another one does. -/
structure Supplants (text : List Char) (n p : Node) : Prop where
  start_eq : p.start = n.start
  stop_eq : p.stop = n.stop
  placed : n.Placed text → p.Placed text

theorem Supplants.refl (n : Node) : Supplants text n n :=
  ⟨rfl, rfl, fun h => h⟩

/-- The first of the nodes gives way to another one, and the others to others. -/
theorem PlacedIn.supplant {a b : Nat} {n p : Node} {ns ps : List Node}
    (h : PlacedIn text a b (n :: ns)) (hp : Supplants text n p)
    (hps : PlacedIn text n.stop b ns → PlacedIn text n.stop b ps) :
    PlacedIn text a b (p :: ps) := by
  obtain ⟨hstart, hn, hstop, hns⟩ := placedIn_cons.1 h
  refine placedIn_cons.2 ⟨hp.start_eq ▸ hstart, hp.placed hn, hp.stop_eq ▸ hstop, ?_⟩
  rw [hp.stop_eq]
  exact hps hns

/-- A nonempty list of nodes reaches from the start of the first one to the stop of the last one. -/
theorem PlacedIn.hull {a b : Nat} {n : Node} {ns : List Node} (h : PlacedIn text a b (n :: ns))
    {last : Node} (hlast : (n :: ns).getLast? = some last) :
    n.start < last.stop ∧ last.stop ≤ b ∧ last.Placed text ∧
      PlacedIn text n.start last.stop (n :: ns) := by
  induction ns generalizing a n with
  | nil =>
      obtain ⟨-, hn, hstop⟩ := placedIn_singleton.1 h
      obtain rfl : n = last := by simpa using hlast
      exact ⟨hn.start_lt_stop, hstop, hn, placedIn_singleton.2 ⟨Nat.le_refl _, hn, Nat.le_refl _⟩⟩
  | cons m ns ih =>
      obtain ⟨-, hn, -, hrest⟩ := placedIn_cons.1 h
      obtain ⟨hstart, hstop, hpl, hin⟩ := ih hrest (by simpa using hlast)
      have hm := (placedIn_cons.1 hrest).1
      have hlt := hn.start_lt_stop
      exact ⟨by omega, hstop, hpl, .cons hn (Nat.le_refl _) (by omega) (hin.mono hm (Nat.le_refl _))⟩

/-! ### Other roles and kinds -/

@[simp] theorem start_withRole (r : Role) (n : Node) : (n.withRole r).start = n.start := by
  cases n; rfl

@[simp] theorem stop_withRole (r : Role) (n : Node) : (n.withRole r).stop = n.stop := by
  cases n; rfl

@[simp] theorem placed_withRole {r : Role} {n : Node} :
    (n.withRole r).Placed text ↔ n.Placed text := by
  cases n
  rw [withRole, Placed, Placed]

@[simp] theorem start_withKind (k : Kind) (n : Node) : (n.withKind k).start = n.start := by
  cases n; rfl

@[simp] theorem stop_withKind (k : Kind) (n : Node) : (n.withKind k).stop = n.stop := by
  cases n; rfl

@[simp] theorem placed_withKind {k : Kind} {n : Node} :
    (n.withKind k).Placed text ↔ n.Placed text := by
  cases n
  rw [withKind, Placed, Placed]

@[simp] theorem placedIn_map_withRole {a b : Nat} {r : Role} {ns : List Node} :
    PlacedIn text a b (ns.map (withRole r)) ↔ PlacedIn text a b ns := by
  induction ns generalizing a with
  | nil => simp
  | cons n ns ih => simp [placedIn_cons, ih]

/-! ### Patterns -/

mutual

/-- The pattern that a node covers lies where the node does. -/
theorem Placed.asPattern? {accesses : Bool} :
    ∀ {n p : Node}, asPattern? accesses n = some p → Supplants text n p
  | .mk k r a b i cs, p, h => by
      rw [Script.asPattern?] at h
      split at h
      · cases h
        exact ⟨rfl, rfl, fun hn => hn⟩
      · split at h
        · cases h
        · obtain ⟨ps, hps, rfl⟩ := Option.map_eq_some_iff.1 h
          refine ⟨rfl, rfl, fun hn => ?_⟩
          rw [Placed] at hn ⊢
          exact ⟨hn.1, hn.2.1, hn.2.2.1, PlacedIn.asPatterns? hps hn.2.2.2⟩
      · obtain ⟨ps, hps, rfl⟩ := Option.map_eq_some_iff.1 h
        refine ⟨rfl, rfl, fun hn => ?_⟩
        rw [Placed] at hn ⊢
        exact ⟨hn.1, hn.2.1, hn.2.2.1, PlacedIn.asPatternIn? hps hn.2.2.2⟩
      · cases h

theorem PlacedIn.asPatterns? {accesses : Bool} :
    ∀ {cs ps : List Node} {a b : Nat}, asPatterns? accesses cs = some ps →
      PlacedIn text a b cs → PlacedIn text a b ps
  | [], ps, a, b, h, _ => by
      cases h
      exact placedIn_nil _ _
  | c :: cs, ps, a, b, h, hcs => by
      rw [Script.asPatterns?] at h
      obtain ⟨q, hq, h⟩ := Option.bind_eq_some_iff.1 h
      obtain ⟨qs, hqs, h⟩ := Option.bind_eq_some_iff.1 h
      cases h
      exact hcs.supplant (Placed.asPattern? hq) (PlacedIn.asPatterns? hqs)

theorem PlacedIn.asPatternIn? {accesses : Bool} {role : Role} :
    ∀ {cs ps : List Node} {a b : Nat}, asPatternIn? accesses role cs = some ps →
      PlacedIn text a b cs → PlacedIn text a b ps
  | [], ps, a, b, h, _ => by
      cases h
      exact placedIn_nil _ _
  | c :: cs, ps, a, b, h, hcs => by
      -- only the child in the given role is read as a pattern
      rw [Script.asPatternIn?] at h
      split at h
      · obtain ⟨q, hq, h⟩ := Option.bind_eq_some_iff.1 h
        obtain ⟨qs, hqs, h⟩ := Option.bind_eq_some_iff.1 h
        cases h
        exact hcs.supplant (Placed.asPattern? hq) (PlacedIn.asPatternIn? hqs)
      · obtain ⟨q, hq, h⟩ := Option.bind_eq_some_iff.1 h
        obtain ⟨qs, hqs, h⟩ := Option.bind_eq_some_iff.1 h
        cases hq
        cases h
        exact hcs.supplant (.refl c) (PlacedIn.asPatternIn? hqs)

end

/-! ### Numbers -/

mutual

/-- A node keeps its extent when it is numbered. -/
theorem Placed.numberFrom :
    ∀ (n : Node) (next : Nat), Supplants text n (n.numberFrom next).1
  | .mk k r a b i cs, next => by
      refine ⟨rfl, rfl, fun hn => ?_⟩
      rw [Node.numberFrom]
      rw [Placed] at hn ⊢
      exact ⟨hn.1, hn.2.1, hn.2.2.1, PlacedIn.numberAllFrom cs (next + 1) hn.2.2.2⟩

/-- Nodes keep their extents when they are numbered. -/
theorem PlacedIn.numberAllFrom :
    ∀ (cs : List Node) (next : Nat) {a b : Nat}, PlacedIn text a b cs →
      PlacedIn text a b (Node.numberAllFrom next cs).1
  | [], next, a, b, _ => placedIn_nil _ _
  | c :: cs, next, a, b, h => by
      rw [Node.numberAllFrom]
      exact h.supplant (Placed.numberFrom c next) (PlacedIn.numberAllFrom cs _)

end

theorem kind_number (n : Node) : n.number.kind = n.kind := by
  cases n
  rfl

theorem children_number (n : Node) : n.number.children = (Node.numberAllFrom 1 n.children).1 := by
  cases n
  rfl

end Script.Node

end ReactiveTemplate

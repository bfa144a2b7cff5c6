/-
**Nodes have the parts that their kind asks for.**

The passes over a tree take some children for granted: an assignment has two sides, an operator that
counts up or down has an operand, an access has an object and a call has a callee.  Besides its
parameters and its body a function has only a name, and nothing in an import opens a scope or declares
a variable of its own.  This file says what it is for a tree to be so, and gives the contracts with which
the rules of the grammar are followed.  Unlike in `Proofs.Extents` it does not matter where a rule starts
and how far it goes, so a contract speaks of results only.

Main definitions:

* `ReactiveTemplate.Script.Kind.requires` — the roles in which nodes of a kind have children;
* `ReactiveTemplate.Script.Kind.Fits` — what the children of functions and imports may be;
* `ReactiveTemplate.Script.Node.Whole` — a tree all of whose nodes have the children they should have;
* `ReactiveTemplate.Script.Yields` — what holds of the results of a parser;
* `ReactiveTemplate.Script.Grammar.Whole` — a grammar whose rules for nested parts give whole nodes.

Main results:

* `ReactiveTemplate.Script.Node.Whole.child` — a required child is found;
* `ReactiveTemplate.Script.nodeFrom_whole` — a node made with the children its kind requires is whole.
-/

import ReactiveTemplate.Proofs.Extents.Parser

set_option relaxedAutoImplicit false
set_option autoImplicit false

namespace ReactiveTemplate.Script

/-! ### Whole nodes -/

/-- The roles in which every node of a kind has a child. -/
def Kind.requires : Kind → List Role
  | .assignmentExpression | .augmentedAssignmentExpression => [.left, .right]
  | .updateExpression => [.argument]
  | .memberExpression | .subscriptExpression => [.object]
  | .callExpression => [.function]
  | _ => []

/-- Kinds whose nodes open a scope or declare names. -/
def Kind.introduces : Kind → Bool
  | .statementBlock | .catchClause | .lexicalDeclaration | .variableDeclaration | .classDeclaration
  | .classExpression | .importStatement => true
  | k => k.isFunction || k.isForLoop

/-- Kinds whose nodes may be part of a property's name without being read or declared. -/
def Kind.isInert (k : Kind) : Bool :=
  !k.introduces && !k.isReference

/-- All nodes of the tree are of kinds with a property. -/
def Node.Only (p : Kind → Bool) (n : Node) : Prop :=
  ∀ m ∈ n.walk, p m.kind = true

/-- A variable's name, as a leaf. -/
def Node.IsName (n : Node) : Prop :=
  n.kind = .identifier ∧ n.children = []

/-- What the name of a property may be: computed, or a word, number or string. -/
def Node.NamesProperty (n : Node) : Prop :=
  n.kind = .computedPropertyName ∨ n.Only Kind.isInert

/-- What a child of a function of the given kind may be. -/
def Kind.FunctionPart (k : Kind) (c : Node) : Prop :=
  c.role = .parameters ∨ c.role = .body ∨ c.role = .parameter ∧ c.IsName ∨
    c.role = .name ∧ (if k = .methodDefinition then c.NamesProperty else c.IsName ∧ k ≠ .arrowFunction)

/-- The children of a function are its parameters, its body and maybe its name, and nothing in an import
opens a scope or is a declaration. -/
def Kind.Fits (k : Kind) (cs : List Node) : Prop :=
  (k.isFunction = true → (cs.map Node.role).Nodup ∧ ∀ c ∈ cs, k.FunctionPart c) ∧
    (k = .importStatement → ∀ c ∈ cs, c.Only fun k => !k.introduces)

/-- Kinds whose children may be of any kind. -/
def Kind.isFree (k : Kind) : Bool :=
  !k.isFunction && k != .importStatement

/-- Kinds that ask for nothing. -/
def Kind.isPlain (k : Kind) : Bool :=
  k.requires.isEmpty && k.isFree

theorem Kind.fits_of_isFree {k : Kind} (h : k.isFree = true) (cs : List Node) : k.Fits cs := by
  rw [isFree, Bool.and_eq_true, Bool.not_eq_true', bne_iff_ne] at h
  exact ⟨fun hk => absurd hk (by simp [h.1]), fun hk => absurd hk h.2⟩

theorem Kind.isFree_of_isPlain {k : Kind} (h : k.isPlain = true) : k.isFree = true := by
  rw [isPlain, Bool.and_eq_true] at h
  exact h.2

theorem Kind.requires_of_isPlain {k : Kind} (h : k.isPlain = true) : k.requires = [] := by
  rw [isPlain, Bool.and_eq_true] at h
  exact List.isEmpty_iff.1 h.1

namespace Node

mutual

/-- Every node of the tree has the children that its kind requires, and only such as fit it. -/
def Whole : Node → Prop
  | .mk k _ _ _ _ cs => (k.requires ⊆ cs.map role ∧ k.Fits cs) ∧ AllWhole cs

/-- All trees of a list are whole. -/
def AllWhole : List Node → Prop
  | [] => True
  | c :: cs => c.Whole ∧ AllWhole cs

end

variable {n m : Node} {ns ms : List Node}

@[simp] theorem allWhole_nil : AllWhole [] := trivial

@[simp] theorem allWhole_cons : AllWhole (n :: ns) ↔ n.Whole ∧ AllWhole ns := Iff.rfl

theorem allWhole_iff : AllWhole ns ↔ ∀ n ∈ ns, n.Whole := by
  induction ns with
  | nil => simp
  | cons n ns ih => simp [ih]

@[simp] theorem allWhole_append : AllWhole (ns ++ ms) ↔ AllWhole ns ∧ AllWhole ms := by
  simp only [allWhole_iff, List.forall_mem_append]

@[simp] theorem allWhole_map_withRole (r : Role) : AllWhole (ns.map (withRole r)) ↔ AllWhole ns := by
  induction ns with
  | nil => rfl
  | cons n ns ih =>
      cases n
      exact and_congr_right fun _ => ih

@[simp] theorem whole_withRole (r : Role) : (n.withRole r).Whole ↔ n.Whole := by
  cases n
  rfl

@[simp] theorem role_withRole (r : Role) : (n.withRole r).role = r := by
  cases n
  rfl

/-- A child that the kind of a whole node requires is found. -/
theorem Whole.child (h : n.Whole) {r : Role} (hr : r ∈ n.kind.requires) : ∃ c, n.child? r = some c := by
  cases n with
  | mk k role a b i cs =>
      obtain ⟨c, hc, rfl⟩ := List.mem_map.1 (h.1.1 hr)
      have hfound : (cs.find? fun d => d.role == c.role).isSome = true :=
        List.find?_isSome.2 ⟨c, hc, by simp⟩
      exact Option.isSome_iff_exists.1 hfound

/-- The children of a whole node fit its kind. -/
theorem Whole.fits (h : n.Whole) : n.kind.Fits n.children := by
  cases n
  exact h.1.2

mutual

/-- All nodes of a whole tree are whole. -/
theorem Whole.of_mem_walk : ∀ {n m : Node}, n.Whole → m ∈ n.walk → m.Whole
  | .mk _ _ _ _ _ _, _, h, hm => by
      rcases List.mem_cons.1 hm with rfl | hm
      · exact h
      · exact AllWhole.of_mem_walkAll h.2 hm

theorem AllWhole.of_mem_walkAll : ∀ {ns : List Node} {m : Node}, AllWhole ns → m ∈ walkAll ns → m.Whole
  | [], _, _, hm => by cases hm
  | _ :: _, _, h, hm => by
      rcases List.mem_append.1 hm with hm | hm
      · exact Whole.of_mem_walk h.1 hm
      · exact AllWhole.of_mem_walkAll h.2 hm

end

/-! ### Trees of some kinds only -/

theorem mem_walkAll : m ∈ walkAll ns ↔ ∃ c ∈ ns, m ∈ c.walk := by
  induction ns with
  | nil => simp [walkAll]
  | cons c cs ih => simp [walkAll, ih]

variable {p q : Kind → Bool}

theorem only_iff : n.Only p ↔ p n.kind = true ∧ ∀ c ∈ n.children, c.Only p := by
  cases n with
  | mk k r a b i cs =>
      simp only [Only, walk, List.forall_mem_cons, mem_walkAll]
      refine and_congr_right fun _ => ⟨fun h c hc m hm => h m ⟨c, hc, hm⟩, ?_⟩
      rintro h m ⟨c, hc, hm⟩
      exact h c hc m hm

theorem Only.mono (h : n.Only p) (hpq : ∀ k, p k = true → q k = true) : n.Only q :=
  fun m hm => hpq _ (h m hm)

@[simp] theorem kind_withRole (r : Role) : (n.withRole r).kind = n.kind := by
  cases n
  rfl

@[simp] theorem children_withRole (r : Role) : (n.withRole r).children = n.children := by
  cases n
  rfl

@[simp] theorem only_withRole (r : Role) : (n.withRole r).Only p ↔ n.Only p := by
  rw [only_iff, kind_withRole, children_withRole, ← only_iff]

/-- A whole tree that declares nothing. -/
def Quiet (n : Node) : Prop :=
  n.Whole ∧ n.Only fun k => !k.introduces

@[simp] theorem quiet_withRole (r : Role) : (n.withRole r).Quiet ↔ n.Quiet :=
  and_congr (whole_withRole r) (only_withRole r)

end Node

open Node

/-! ### Contracts on results -/

variable {α β : Type}

/-- Whatever the parser gives satisfies `P`. -/
def Yields (P : α → Prop) (p : Parser α) : Prop :=
  ∀ place c, Ensures p place c fun a _ => P a

namespace Yields

variable {P : α → Prop} {Q : β → Prop} {p q : Parser α} {f : α → Parser β}

theorem pure {a : α} (h : P a) : Yields P (Pure.pure a) :=
  fun _ _ => .pure h

theorem failure : Yields P Alternative.failure :=
  fun _ _ => .failure

theorem bind (hp : Yields P p) (hf : ∀ a, P a → Yields Q (f a)) : Yields Q (p >>= f) :=
  fun place c => (hp place c).step fun a c' ha => hf a ha place c'

/-- What the first of two parsers gives may not matter. -/
theorem skip (hf : ∀ a, Yields Q (f a)) : Yields Q (p >>= f) :=
  fun place _ => .bind fun a c' _ => hf a place c'

theorem orElse (hp : Yields P p) (hq : Yields P q) : Yields P (p <|> q) :=
  fun place c => .orElse (hp place c) (hq place c)

theorem within (hp : Yields P p) (place : Place) : Yields P (Script.within place p) :=
  fun _ => hp place

theorem mono {P' : α → Prop} (hp : Yields P p) (h : ∀ a, P a → P' a) : Yields P' p :=
  fun place c => (hp place c).mono fun a _ => h a

theorem and {P' : α → Prop} (hp : Yields P p) (hp' : Yields P' p) : Yields (fun a => P a ∧ P' a) p :=
  fun place c a c' h => ⟨hp place c a c' h, hp' place c a c' h⟩

theorem ite {b : Prop} [Decidable b] (hp : Yields P p) (hq : Yields P q) : Yields P (if b then p else q) := by
  by_cases hb : b
  · rwa [if_pos hb]
  · rwa [if_neg hb]

/-- A move that is made under a condition does not matter either. -/
theorem optional {b : Bool} {p : Parser Unit} {f : Unit → Parser β} (hf : ∀ u, Yields Q (f u)) :
    Yields Q (if b then p >>= f else f ()) :=
  .ite (.skip hf) (hf ())

end Yields

section Repetition

variable {P : α → Prop} {done : Parser Bool} {p : Parser α}

theorem repeatUntil_yields (hp : Yields P p) : Yields (fun xs => ∀ x ∈ xs, P x) (repeatUntil done p) := by
  have hrounds : ∀ n, Yields (fun xs => ∀ x ∈ xs, P x) (repeatAtMost done p n) := by
    intro n
    induction n with
    | zero => exact .failure
    | succ n ih =>
        refine .skip fun b => .ite ?_ ?_
        · exact .pure (by simp)
        · exact hp.bind fun x hx => ih.bind fun xs hxs => .pure (List.forall_mem_cons.2 ⟨hx, hxs⟩)
  exact .skip fun n => hrounds n

theorem iterate_yields {step : α → Parser (Option α)} (hstep : ∀ x, P x → Yields (fun o => P (o.getD x)) (step x))
    {x : α} (hx : P x) : Yields P (iterate step x) := by
  have hrounds : ∀ n x, P x → Yields P (iterateAtMost step n x) := by
    intro n
    induction n with
    | zero => exact fun x hx => .pure hx
    | succ n ih =>
        intro x hx
        refine (hstep x hx).bind fun o ho => ?_
        cases o with
        | none => exact .pure ho
        | some y => exact ih y ho
  exact .skip fun n => hrounds n x hx

theorem repeatUntil_whole {p : Parser Node} (hp : Yields Whole p) :
    Yields AllWhole (repeatUntil done p) :=
  (repeatUntil_yields hp).mono fun _ => allWhole_iff.2

theorem separated_yields {P : Node → Prop} {close : String} {p : Parser Node} (hp : Yields P p) :
    Yields (fun ns => ∀ n ∈ ns, P n) (separated close p) := by
  refine (repeatUntil_yields ?_).bind fun ns hns => .skip fun _ => .pure hns
  refine hp.bind fun n hn => .skip fun b => .ite ?_ ?_
  · exact .pure hn
  · exact .skip fun _ => .pure hn

theorem separated_whole {close : String} {p : Parser Node} (hp : Yields Whole p) :
    Yields AllWhole (separated close p) :=
  (separated_yields hp).mono fun _ => allWhole_iff.2

theorem separatedWithHoles_whole {close : String} {p : Parser Node} (hp : Yields Whole p) :
    Yields AllWhole (separatedWithHoles close p) := by
  have hround : Yields AllWhole (do
      if ← tryPunctuator "," then
        return []
      else
        let x ← p
        if ← atPunctuator close then
          return [x]
        else
          punctuator ","
          return [x]) := by
    refine .skip fun b => .ite ?_ ?_
    · exact .pure trivial
    · refine hp.bind fun n hn => .skip fun b => .ite ?_ ?_
      · exact .pure ⟨hn, trivial⟩
      · exact .skip fun _ => .pure ⟨hn, trivial⟩
  refine (repeatUntil_yields hround).bind fun rounds hrounds => .skip fun _ => .pure (allWhole_iff.2 ?_)
  intro n hn
  obtain ⟨ns, hns, hn⟩ := List.mem_flatten.1 hn
  exact allWhole_iff.1 (hrounds ns hns) n hn

end Repetition

/-! ### Nodes -/

section Nodes

variable {kind : Kind} {cs : List Node} {start : Nat}

/-- A node is whole when its children are, the required ones are among them and all fit. -/
theorem nodeFrom_whole (hroles : kind.requires ⊆ cs.map role) (hfits : kind.Fits cs) (hcs : AllWhole cs) :
    Yields Whole (nodeFrom kind start cs) :=
  .skip fun _ => .pure ⟨⟨hroles, hfits⟩, hcs⟩

/-- A node whose children may be of any kind. -/
theorem freeNode_whole (hkind : kind.isFree = true) (hroles : kind.requires ⊆ cs.map role)
    (hcs : AllWhole cs) : Yields Whole (nodeFrom kind start cs) :=
  nodeFrom_whole hroles (Kind.fits_of_isFree hkind cs) hcs

/-- A node of a kind that asks for nothing. -/
theorem plainNode_whole (hkind : kind.isPlain = true) (hcs : AllWhole cs) :
    Yields Whole (nodeFrom kind start cs) := by
  refine freeNode_whole (Kind.isFree_of_isPlain hkind) ?_ hcs
  rw [Kind.requires_of_isPlain hkind]
  exact List.nil_subset _

theorem leaf_whole (hkind : kind.isPlain = true) : Yields Whole (leaf kind) :=
  .skip fun _ => .skip fun _ => plainNode_whole hkind trivial

theorem nameLeaf_whole (hkind : kind.isPlain = true) : Yields Whole (nameLeaf kind) := by
  refine .skip fun token => ?_
  split
  · exact .skip fun _ => leaf_whole hkind
  · exact .failure

theorem identifier_whole : Yields Whole identifier := nameLeaf_whole rfl

theorem identifier_isName : Yields IsName identifier := by
  refine .skip fun token => ?_
  split
  · exact .skip fun _ => .skip fun _ => .skip fun _ => .skip fun _ => .pure ⟨rfl, rfl⟩
  · exact .failure

theorem nodeFrom_only {p : Kind → Bool} (hkind : p kind = true) (hcs : ∀ c ∈ cs, c.Only p) :
    Yields (Only p) (nodeFrom kind start cs) :=
  .skip fun _ => .pure (only_iff.2 ⟨hkind, hcs⟩)

theorem leaf_only {p : Kind → Bool} (hkind : p kind = true) : Yields (Only p) (leaf kind) :=
  .skip fun _ => .skip fun _ => nodeFrom_only hkind (by simp)

/-- A node of a kind that asks for nothing and declares nothing, around others that declare nothing. -/
theorem quietNode_quiet (hplain : kind.isPlain = true) (hkind : kind.introduces = false)
    (hcs : ∀ c ∈ cs, c.Quiet) : Yields Quiet (nodeFrom kind start cs) := by
  refine .and (plainNode_whole hplain ?_) (nodeFrom_only (by simp [hkind]) ?_)
  · exact allWhole_iff.2 fun c hc => (hcs c hc).1
  · exact fun c hc => (hcs c hc).2

theorem leaf_quiet (hplain : kind.isPlain = true) (hkind : kind.introduces = false) :
    Yields Quiet (leaf kind) :=
  .skip fun _ => .skip fun _ => quietNode_quiet hplain hkind (by simp)

theorem identifier_quiet : Yields Quiet identifier := by
  refine .skip fun token => ?_
  split
  · exact .skip fun _ => leaf_quiet rfl rfl
  · exact .failure

/-- A node that is read under a condition. -/
theorem Yields.optionalNode {Q : β → Prop} {b : Prop} [Decidable b] {p : Parser Node} {g : Node → Node}
    {f : List Node → Parser β} (hp : Yields Whole p) (hg : ∀ n, n.Whole → (g n).Whole)
    (hf : ∀ ns, AllWhole ns → Yields Q (f ns)) :
    Yields Q (if b then p >>= fun n => Pure.pure [g n] >>= f else Pure.pure [] >>= f) := by
  refine .ite ?_ ?_
  · refine hp.bind fun n hn => ?_
    exact .bind (P := AllWhole) (.pure ⟨hg n hn, trivial⟩) hf
  · exact .bind (P := AllWhole) (.pure trivial) hf

end Nodes

/-! ### Grammars -/

/-- A grammar whose rules for nested parts give whole nodes. -/
structure Grammar.Whole (g : Grammar) : Prop where
  expression : Yields Node.Whole g.expression
  assignment : Yields Node.Whole g.assignment
  cover : Yields Node.Whole g.cover
  binary : ∀ least, Yields Node.Whole (g.binary least)
  unary : Yields Node.Whole g.unary
  access : Yields Node.Whole g.access
  callee : Yields Node.Whole g.callee
  pattern : Yields Node.Whole g.pattern
  statement : Yields Node.Whole g.statement

theorem Grammar.Whole.empty : Grammar.empty.Whole := by
  constructor
  case binary => exact fun _ => .failure
  all_goals exact .failure

end ReactiveTemplate.Script

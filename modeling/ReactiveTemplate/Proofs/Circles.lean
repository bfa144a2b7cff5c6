/-
**Circles of reactive declarations.**

When declarations wait for each other, the report names the declarations of a circle: at least two of them,
each of which reads a name that the one before it writes.  The search cannot fail, and every declaration of
the circle writes a name that it can be known by.

What a declaration reads is told by names alone.  A template is rejected exactly when there is a circle of
declarations, each of which mentions on its right side, wherever that is, a name that the one before it
writes.  Such a name may be a variable of the module, but it may also be bound on the right side itself: a
parameter of a callback that happens to have the name of a declaration closes a circle that is none for the
variables (`ReactiveTemplate.shadowed_name_rejected`).  This module tells how a name on a right side may stand.

Main definitions:

* `ReactiveTemplate.Cyclically` — a relation holds all around a list;
* `ReactiveTemplate.ReactiveAt`, `ReactiveTemplate.MentionedAt` — reactive declarations, and names on their
  right sides, by their paths in the script;
* `ReactiveTemplate.Standing` — what a name on a right side may belong to.

Main results:

* `ReactiveTemplate.Circle.cyclically` — what is found is a circle all around;
* `ReactiveTemplate.orderDeclarations_reports_circle` — **what is reported**;
* `ReactiveTemplate.ReactiveAt.standing` — names on right sides belong to the module, or are bound there;
* `ReactiveTemplate.compile_rejects_circles` — **which templates are rejected**.
-/

import ReactiveTemplate.Proofs.CalledNames
import ReactiveTemplate.Proofs.Placement
import ReactiveTemplate.Proofs.Scopes.Readings
import ReactiveTemplate.Proofs.Sessions.Runs

set_option relaxedAutoImplicit false
set_option autoImplicit false

namespace ReactiveTemplate

open Script

/-! ### Around a list -/

/-- Each element of a list is related to the next one, and the last one to the first. -/
def Cyclically {α : Type} (R : α → α → Prop) (l : List α) : Prop :=
  ∀ i a b, l[i]? = some a → l[(i + 1) % l.length]? = some b → R a b

namespace Cyclically

variable {α β : Type} {R : α → α → Prop} {S : β → β → Prop} {l : List α} {a : α}

theorem map (h : Cyclically R l) (f : α → β) (hf : ∀ a ∈ l, ∀ b ∈ l, R a b → S (f a) (f b)) :
    Cyclically S (l.map f) := by
  intro i a' b' ha hb
  rw [List.getElem?_map, Option.map_eq_some_iff] at ha
  rw [List.length_map, List.getElem?_map, Option.map_eq_some_iff] at hb
  obtain ⟨a, ha, rfl⟩ := ha
  obtain ⟨b, hb, rfl⟩ := hb
  exact hf a (List.mem_of_getElem? ha) b (List.mem_of_getElem? hb) (h i a b ha hb)

theorem of_map {f : α → β} (h : Cyclically S (l.map f)) (hf : ∀ a b, S (f a) (f b) → R a b) :
    Cyclically R l := by
  intro i a b ha hb
  refine hf a b (h i _ _ ?_ ?_)
  · rw [List.getElem?_map, ha, Option.map_some]
  · rw [List.length_map, List.getElem?_map, hb, Option.map_some]

/-- Neighbours in a list of at least two different elements are different. -/
theorem ne (h : Cyclically R l) (hnd : l.Nodup) (hl : 2 ≤ l.length) :
    Cyclically (fun a b => R a b ∧ a ≠ b) l := by
  intro i a b ha hb
  refine ⟨h i a b ha hb, ?_⟩
  rintro rfl
  have hi : i < l.length := (List.getElem?_eq_some_iff.1 ha).1
  have hsame : i = (i + 1) % l.length := (List.getElem?_inj hi hnd).1 (ha.trans hb.symm)
  rcases Nat.lt_or_ge (i + 1) l.length with hlt | hge
  · rw [Nat.mod_eq_of_lt hlt] at hsame
    omega
  · rw [show i + 1 = l.length by omega, Nat.mod_self] at hsame
    omega

/-- Following the relation all around leads back. -/
theorem transGen (h : Cyclically R l) (hl : l ≠ []) : ∃ a, Relation.TransGen R a a := by
  have hpos := List.length_pos_iff.2 hl
  have hstep (i : Nat) (hi : i + 1 < l.length) : R l[i] l[i + 1] :=
    h i _ _ (List.getElem?_eq_getElem (Nat.lt_of_succ_lt hi))
      (by rw [Nat.mod_eq_of_lt hi, List.getElem?_eq_getElem hi])
  have hreach (i : Nat) (hi : i < l.length) : Relation.ReflTransGen R l[0] l[i] := by
    induction i with
    | zero => exact .refl
    | succ i ih => exact (ih (Nat.lt_of_succ_lt hi)).tail (hstep i hi)
  have hlast : l.length - 1 < l.length := Nat.sub_lt hpos Nat.one_pos
  refine ⟨l[0], Relation.TransGen.tail' (hreach _ hlast) (h (l.length - 1) _ _ (List.getElem?_eq_getElem hlast) ?_)⟩
  rw [Nat.sub_add_cancel hpos, Nat.mod_self, List.getElem?_eq_getElem hpos]

end Cyclically

/-! ### What is reported -/

namespace Circle

variable {ds : List Dependent} {places : List Nat}

/-- In a circle, each declaration feeds the next one all around. -/
theorem cyclically (h : Circle ds places) : Cyclically (Feeds ds) places := by
  intro i a b ha hb
  obtain ⟨hi, rfl⟩ := List.getElem?_eq_some_iff.1 ha
  rcases Nat.lt_or_ge (i + 1) places.length with hlt | hge
  · rw [Nat.mod_eq_of_lt hlt] at hb
    obtain ⟨-, rfl⟩ := List.getElem?_eq_some_iff.1 hb
    exact List.isChain_iff_getElem.1 h.chain i hlt
  · -- from the last one back to the first
    have hlast : i + 1 = places.length := Nat.le_antisymm hi hge
    rw [hlast, Nat.mod_self] at hb
    obtain ⟨-, rfl⟩ := List.getElem?_eq_some_iff.1 hb
    have hclosed := h.closed
    rw [List.getLast_eq_getElem, List.head_eq_getElem] at hclosed
    simpa only [← hlast, Nat.add_sub_cancel] using hclosed

/-- No declaration is a circle by itself. -/
theorem two_le_length (h : Circle ds places) : 2 ≤ places.length := by
  obtain _ | ⟨i, _ | ⟨j, rest⟩⟩ := places
  · exact absurd rfl h.ne_nil
  · exact absurd rfl h.closed.ne
  · simp

variable {declarations circle : List ReactiveDeclaration}

theorem exists_declarations (h : Circle (declarations.map ReactiveDeclaration.toDependent) places) :
    ∃ circle : List ReactiveDeclaration, (places.map fun i => declarations[i]?) = circle.map some := by
  have hlt : ∀ i ∈ places, i < declarations.length := by
    intro i hi
    obtain ⟨j, hfeeds⟩ := h.exists_feeds hi
    simpa using hfeeds.left_lt
  refine ⟨places.filterMap fun i => declarations[i]?, ?_⟩
  clear h
  induction places with
  | nil => rfl
  | cons i places ih =>
      obtain ⟨hi, hplaces⟩ := List.forall_mem_cons.1 hlt
      rw [List.map_cons, ih hplaces, List.filterMap_cons, List.getElem?_eq_getElem hi]
      rfl

theorem cyclically_declarations (h : Circle (declarations.map ReactiveDeclaration.toDependent) places)
    (hmap : (places.map fun i => declarations[i]?) = circle.map some) :
    Cyclically (fun c c' => ∃ name ∈ c.assignees, name ∈ c'.dependencies) circle := by
  have haround := h.cyclically.map (fun i => declarations[i]?)
    (S := fun o o' => ∀ c c', o = some c → o' = some c' → ∃ name ∈ c.assignees, name ∈ c'.dependencies) ?_
  · rw [hmap] at haround
    exact haround.of_map fun c c' h => h c c' rfl rfl
  · rintro i - j - ⟨-, a, b, ha, hb, name, hwritten, hread⟩ c c' hc hc'
    simp only [List.getElem?_map, hc, hc', Option.map_some, Option.some.injEq] at ha hb
    exact ⟨name, ha ▸ hwritten, hb ▸ hread⟩

/-- The names of a circle are the first names that its declarations write. -/
theorem head?_assignees (h : Circle (declarations.map ReactiveDeclaration.toDependent) places)
    (hmap : (places.map fun i => declarations[i]?) = circle.map some) : (circle.map fun c => c.assignees.head?) =
      (places.map (cycleName (declarations.map ReactiveDeclaration.toDependent))).map some := by
  calc (circle.map fun c => c.assignees.head?)
      = (circle.map some).map fun o => o.bind fun c => c.assignees.head? := by simp
    _ = places.map fun i => declarations[i]?.bind fun c => c.assignees.head? := by
        rw [← hmap, List.map_map]
        rfl
    _ = _ := by
        rw [List.map_map]
        refine List.map_congr_left fun i hi => ?_
        obtain ⟨c, hc, hhead⟩ := h.exists_cycleName hi
        rw [List.getElem?_map] at hc
        obtain ⟨r, hr, rfl⟩ := Option.map_eq_some_iff.1 hc
        rw [hr]
        exact hhead

end Circle

/-- The report of a circle is placed at its first declaration. -/
theorem cycleError_eq {d : Document} {declarations circle : List ReactiveDeclaration} {places : List Nat}
    {first : ReactiveDeclaration} (hmap : (places.map fun i => declarations[i]?) = circle.map some)
    (hfirst : circle.head? = some first) : cycleError d declarations places =
      .cyclic (cycleNames (declarations.map ReactiveDeclaration.toDependent) places)
        (declarationPosition d first) := by
  have hhead := congrArg List.head? hmap
  rw [List.head?_map, List.head?_map, hfirst] at hhead
  obtain ⟨i, hi, hplace⟩ := Option.map_eq_some_iff.1 hhead
  rw [cycleError, hi, Option.bind_some, hplace, Option.bind_some]

/-- **What is reported when there is no order**: a circle of at least two declarations, each of which writes a
name that the next one reads.  They are known by the first names that they write, the first one again at the
end, and the report is placed at the first declaration. -/
theorem orderDeclarations_reports_circle {d : Document} {declarations : List ReactiveDeclaration}
    {e : GenerationError} (h : orderDeclarations d declarations = .error e) :
    ∃ (places : List Nat) (circle : List ReactiveDeclaration) (names : List String)
        (first : ReactiveDeclaration),
      (places.map fun i => declarations[i]?) = circle.map some ∧ places.Nodup ∧ 2 ≤ circle.length ∧
      Cyclically (fun c c' => ∃ name ∈ c.assignees, name ∈ c'.dependencies) circle ∧
      (circle.map fun c => c.assignees.head?) = names.map some ∧
      circle.head? = some first ∧
      e = .cyclic (names ++ names.take 1) (declarationPosition d first) := by
  rcases orderDeclarations_cases d declarations with ⟨ordered, hok, -⟩ | ⟨places, hcircle, herror⟩
  · rw [hok] at h
    cases h
  · rw [herror] at h
    cases h
    obtain ⟨circle, hmap⟩ := hcircle.exists_declarations
    have hlength : places.length = circle.length := by simpa using congrArg List.length hmap
    have htwo : 2 ≤ circle.length := hlength ▸ hcircle.two_le_length
    obtain ⟨first, hfirst⟩ : ∃ first, circle.head? = some first :=
      ⟨_, List.head?_eq_some_head (List.length_pos_iff.1 (Nat.lt_of_lt_of_le Nat.zero_lt_two htwo))⟩
    exact ⟨places, circle, _, first, hmap, hcircle.nodup, htwo, hcircle.cyclically_declarations hmap,
      hcircle.head?_assignees hmap, hfirst, cycleError_eq hmap hfirst⟩

/-- A declaration that only waits for a circle is not reported. -/
theorem orderDeclarations_reports_circle_downstream :
    ∃ d position, Document.parse "<script>$: c = b; $: a = b; $: b = a</script>" "circle" = .ok d ∧
      orderDeclarations d (d.analyze .default).1.reactive = .error (.cyclic ["a", "b", "a"] position) ∧
      ∃ circle first, 2 ≤ circle.length ∧
        Cyclically (fun c c' => ∃ name ∈ c.assignees, name ∈ c'.dependencies) circle ∧
        circle.head? = some first ∧ position = declarationPosition d first := by
  have hrun : ((Document.parse "<script>$: c = b; $: a = b; $: b = a</script>" "circle").toOption.any fun d =>
      let ds := (d.analyze .default).1.reactive.map ReactiveDeclaration.toDependent
      runningOrder ds == .error (.cycle [1, 2]) && cycleNames ds [1, 2] == ["a", "b", "a"]) = true := by
    decide +kernel
  obtain ⟨d, hd, hrun⟩ := (Option.any_eq_true _ _).1 hrun
  simp only [Bool.and_eq_true, beq_iff_eq] at hrun
  obtain ⟨horder, hnames⟩ := hrun
  have herror : orderDeclarations d (d.analyze .default).1.reactive =
      .error (cycleError d (d.analyze .default).1.reactive [1, 2]) := by
    rw [orderDeclarations, horder]
  rw [cycleError, hnames] at herror
  obtain ⟨places, circle, names, first, -, -, htwo, haround, -, hfirst, hreport⟩ :=
    orderDeclarations_reports_circle herror
  exact ⟨d, _, toOption_eq_some_iff.1 hd, herror, circle, first, htwo, haround, hfirst,
    (GenerationError.cyclic.inj hreport).2⟩

/-! ### Declarations and their right sides -/

/-- A reactive declaration stands at a path: the assignment of a statement of the script. -/
def ReactiveAt (source : Source) (label : String) (p : List Nat) : Prop :=
  ∃ i rest statement assignment, p = i :: rest ∧ source.root.at? [i] = some statement ∧
    source.root.at? p = some assignment ∧ DeclaresReactive source label statement assignment

/-- The assignment at a path writes a name. -/
def WrittenAt (source : Source) (p : List Nat) (x : String) : Prop :=
  ∃ assignment, source.root.at? p = some assignment ∧ x ∈ writtenNames source assignment

/-- The right side of the assignment at a path stands at another path. -/
def RightSide (source : Source) (p side : List Nat) : Prop :=
  ∃ assignment i right, source.root.at? p = some assignment ∧ assignment.child? .right = some right ∧
    assignment.children[i]? = some right ∧ side = p ++ [i]

/-- A name is mentioned at a path. -/
def MentionedAt (source : Source) (p : List Nat) (x : String) : Prop :=
  ∃ m, source.root.at? p = some m ∧ m.kind.isReference = true ∧ source.slice m = x

/-- What is mentioned at a path is recorded as a reference, and is a variable of the module or not declared. -/
def OwnedByModule (source : Source) (p : List Nat) (x : String) : Prop :=
  ∃ r ∈ (resolveScript source).2.references, source.root.at? p = some r.node ∧
    ∀ owner, (resolveScript source).1.owner? r.scope x = some owner → owner = (resolveScript source).2.root

/-- How a name may stand on a right side. -/
inductive Standing (source : Source) (side p : List Nat) (x : String) : Prop
  /-- It is a variable of the module, or not declared. -/
  | free (h : OwnedByModule source p x)
  /-- It is a parameter or variable of a scope on the right side. -/
  | bound {scope : List Nat} (hscope : scope ∈ source.root.scopesAt p) (hinside : side <+: scope)
      (h : source.root.DeclaresAt source scope x)
  /-- It declares a parameter or variable, or names a function or class there. -/
  | declaring {m construct : Node} {q : List Nat} (hm : source.root.at? p = some m) (hinside : side <+: q)
      (hq : q <+: p) (hconstruct : source.root.at? q = some construct)
      (h : m.id ∈ construct.declaringLeaves.map Node.id)
  /-- It belongs to an import in a function. -/
  | imported (h : source.root.inImport p = true)
  /-- It is read to compute the name of a method. -/
  | computed (h : source.root.inMethodName p = true)

variable {source : Source} {label : String} {text : List Char} {offset : Nat}

/-- The way along a path passes nothing that declares names or opens a scope. -/
def Script.Node.Passable (n : Node) (path : List Nat) : Prop :=
  ∀ q m, q <+: path → n.at? q = some m → m.kind.introduces = false

theorem Script.Node.Passable.cons {n c : Node} {i : Nat} {path : List Nat} (h : c.Passable path)
    (hn : n.kind.introduces = false) (hc : n.children[i]? = some c) : n.Passable (i :: path) := by
  intro q m hq hm
  cases q with
  | nil => exact Option.some.inj hm ▸ hn
  | cons j q =>
      obtain ⟨rfl, hq'⟩ := List.cons_prefix_cons.1 hq
      rw [Node.at?, hc] at hm
      exact h q m hq' hm

theorem InParentheses.exists_passable {e n : Node} (h : InParentheses e n) (he : e.kind.introduces = false) :
    ∃ path, n.at? path = some e ∧ n.Passable path := by
  induction h with
  | bare =>
      refine ⟨[], rfl, fun q m hq hm => ?_⟩
      obtain rfl := List.prefix_nil.1 hq
      exact Option.some.inj hm ▸ he
  | wrapped kind children _ ih =>
      obtain ⟨path, hpath, hpass⟩ := ih
      refine ⟨0 :: path, ?_, hpass.cons (by rw [kind]; rfl) (by rw [children]; rfl)⟩
      rw [Node.at?, children]
      exact hpath

/-- The way from the statement of a reactive declaration to its assignment is passable. -/
theorem DeclaresReactive.exists_passable {statement assignment : Node}
    (h : DeclaresReactive source label statement assignment) :
    ∃ path, statement.at? path = some assignment ∧ statement.Passable path := by
  obtain ⟨body, inner, hbody, hkind, hinner, hparentheses⟩ := h.body
  have hassignment : assignment.kind.introduces = false := by
    have := h.assignment
    generalize assignment.kind = k at this
    cases k <;> first | rfl | cases this
  obtain ⟨path, hpath, hpass⟩ := hparentheses.exists_passable hassignment
  obtain ⟨i, hi⟩ := List.getElem?_of_mem (List.mem_of_find?_eq_some hbody)
  have hstatement : body.Passable (0 :: path) := hpass.cons (by rw [hkind]; rfl) (by rw [hinner]; rfl)
  refine ⟨i :: 0 :: path, ?_, hstatement.cons (by rw [h.kind]; rfl) hi⟩
  rw [Node.at?, hi, Option.bind_some, Node.at?, hinner]
  exact hpath

namespace ReactiveAt

variable {p side : List Nat} {x : String}

theorem isAssignment (hp : ReactiveAt source label p) {n : Node} (hn : source.root.at? p = some n) :
    n.kind.isAssignment = true := by
  obtain ⟨_, _, _, assignment, -, -, hassignment, hreactive⟩ := hp
  obtain rfl : assignment = n := Option.some.inj (hassignment.symm.trans hn)
  exact hreactive.assignment

/-- The way from the root to a reactive declaration is passable. -/
theorem passable (h : Source.ofScript? text offset = some source) (hp : ReactiveAt source label p) :
    source.root.Passable p := by
  obtain ⟨i, rest, statement, assignment, rfl, hstatement, hassignment, hreactive⟩ := hp
  have hv := starts_scriptVisit h
  obtain ⟨path, hpath, hpass⟩ := hreactive.exists_passable
  have hchild : source.root.children[i]? = some statement := by simpa [Node.at?] using hstatement
  have hat : source.root.at? (i :: path) = some assignment := by
    rw [Node.at?, hchild]
    exact hpath
  rw [Node.path_eq_of_id_eq hv.ids hassignment hat rfl]
  exact hpass.cons (by rw [show source.root.kind = .program from hv.kind]; rfl) hchild

/-- What stands around a name on a right side and introduces something stands on the right side. -/
theorem inside (h : Source.ofScript? text offset = some source) (hp : ReactiveAt source label p)
    (hside : RightSide source p side) {q r : List Nat} {n : Node} (hr : side <+: r) (hq : q <+: r)
    (hn : source.root.at? q = some n) (hintroduces : n.kind.introduces = true) : side <+: q := by
  obtain ⟨assignment, i, right, -, -, -, rfl⟩ := hside
  rcases List.prefix_or_prefix_of_prefix hq hr with hq | hq
  · rcases List.prefix_concat_iff.1 hq with rfl | hq
    · exact List.prefix_rfl
    · rw [hp.passable h q n hq hn] at hintroduces
      cases hintroduces
  · exact hq

/-- A name on a right side that is recorded belongs to the module, or to a scope on the right side. -/
theorem standing_of_reads (h : Source.ofScript? text offset = some source) (hp : ReactiveAt source label p)
    (hside : RightSide source p side) {r : List Nat} {m : Node} (hr : side <+: r)
    (hm : source.root.at? r = some m) (hreads : source.root.reads r = true) :
    Standing source side r (source.slice m) := by
  have hv := starts_scriptVisit h
  let scope := source.root.scopePaths.idxOf ((source.root.scopesAt r).headD [])
  have hrecorded : (⟨m, scope⟩ : Reference) ∈ (resolveScript source).2.references := by
    have hreferences : (resolveScript source).2.references = source.root.readings := hv.references_after rfl rfl
    rw [hreferences]
    exact Node.mem_readings.2 ⟨r, m, hm, hreads, rfl⟩
  by_cases hfree : ∀ owner, (resolveScript source).1.owner? scope (source.slice m) = some owner →
      owner = (resolveScript source).2.root
  · exact .free ⟨_, hrecorded, hm, hfree⟩
  · -- the owner is the innermost scope around the name that declares it
    obtain ⟨owner, howner, hne⟩ := not_forall₂.1 hfree
    obtain ⟨q, hfind, rfl⟩ := Option.map_eq_some_iff.1 ((hv.owner?_eq hreads _).symm.trans howner)
    have hq := List.mem_of_find?_eq_some hfind
    have hdeclares := List.find?_some hfind
    obtain ⟨hpre, hopens⟩ := Node.mem_scopesAt.1 hq
    rcases hopens with rfl | hopens
    · exact absurd hv.scopeOf_nil hne
    · obtain ⟨n, hn, -⟩ := (Option.any_eq_true _ _).1 hopens
      refine .bound hq (hp.inside h hside hr hpre hn ?_) ((hv.declares_scopeOf_iff hreads hq).1 hdeclares)
      by_contra hnot
      have hclosed := Node.opensScope_of_not_introduces hn (Bool.eq_false_iff.2 hnot)
      exact absurd hopens (Bool.eq_false_iff.1 hclosed)

/-- **How a name on a right side stands**: it belongs to the module, or it is bound on the right side, unless
it is not looked at. -/
theorem standing (h : Source.ofScript? text offset = some source) (hp : ReactiveAt source label p)
    (hside : RightSide source p side) {r : List Nat} (hr : side <+: r) (hx : MentionedAt source r x) :
    Standing source side r x := by
  obtain ⟨m, hm, href, rfl⟩ := hx
  cases hreads : source.root.reads r with
  | true => exact hp.standing_of_reads h hside hr hm hreads
  | false =>
      cases hname : source.root.inMethodName r with
      | true => exact .computed hname
      | false =>
          cases himport : source.root.inImport r with
          | true => exact .imported himport
          | false =>
              have hdeclaring : source.root.isDeclaring r = true := by
                simpa [Node.reads, Node.mayRead, hm, href, hname, himport] using hreads
              obtain ⟨q, construct, hq, hconstruct, hid⟩ := (Node.isDeclaring_iff hm).1 hdeclaring
              refine .declaring hm (hp.inside h hside hr hq hconstruct ?_) hq hconstruct hid
              by_contra hnot
              rw [Node.declaringLeaves_of_not_introduces (Bool.eq_false_iff.2 hnot)] at hid
              cases hid

end ReactiveAt

/-! ### Circles in a script -/

/-- The declaration at a path writes a name that the one at another path mentions on its right side. -/
def FeedsAt (source : Source) (p q : List Nat) : Prop :=
  ∃ side r x, WrittenAt source p x ∧ RightSide source q side ∧ side <+: r ∧ MentionedAt source r x ∧
    Standing source side r x

theorem Script.Node.at?_below {n m c : Node} {p : List Nat} {i : Nat} (hm : n.at? p = some m)
    (hc : m.children[i]? = some c) (t : List Nat) : n.at? (p ++ [i] ++ t) = c.at? t := by
  rw [List.append_assoc, at?_append, hm, Option.bind_some, List.singleton_append, at?, hc]
  rfl

/-- What an assignment depends on is mentioned on its right side. -/
theorem mem_dependencies_iff {p : List Nat} {assignment : Node} (hp : source.root.at? p = some assignment)
    {index : Nat} {x : String} : x ∈ (ReactiveDeclaration.ofAssignment source assignment index).dependencies ↔
      ∃ side r, RightSide source p side ∧ side <+: r ∧ MentionedAt source r x := by
  rw [ReactiveDeclaration.ofAssignment]
  constructor
  · intro hx
    cases hright : assignment.child? .right with
    | none =>
        rw [hright] at hx
        cases hx
    | some right =>
        rw [hright] at hx
        obtain ⟨m, hm, href, hname⟩ := mem_map_references.1 (Names.mem_ofList.1 hx)
        obtain ⟨i, hi⟩ := List.getElem?_of_mem (List.mem_of_find?_eq_some hright)
        obtain ⟨t, ht⟩ := Node.exists_at?_of_mem_walk hm
        exact ⟨p ++ [i], p ++ [i] ++ t, ⟨assignment, i, right, hp, hright, hi, rfl⟩, List.prefix_append _ _, m,
          (Node.at?_below hp hi t).trans ht, href, hname⟩
  · rintro ⟨side, r, ⟨assignment', i, right, hp', hright, hi, rfl⟩, ⟨t, rfl⟩, m, hm, href, hname⟩
    obtain rfl : assignment = assignment' := Option.some.inj (hp.symm.trans hp')
    rw [hright]
    rw [Node.at?_below hp hi] at hm
    exact Names.mem_ofList.2 (mem_map_references.2 ⟨m, Node.mem_walk_of_at? hm, href, hname⟩)

/-- The assignments of reactive declarations are those of the statements that have one. -/
theorem map_node_reactiveDeclarations (source : Source) (label : String) :
    ∀ (index : Nat) (ss : List Node), (reactiveDeclarations source label index ss).map ReactiveDeclaration.node =
      ss.filterMap (reactiveAssignment? source label)
  | _, [] => rfl
  | index, s :: ss => by
      rw [reactiveDeclarations, List.filterMap_cons]
      cases reactiveAssignment? source label s with
      | none => exact map_node_reactiveDeclarations source label (index + 1) ss
      | some a => exact congrArg (a :: ·) (map_node_reactiveDeclarations source label (index + 1) ss)

/-- Assignments of different declarations are different. -/
theorem nodup_reactiveDeclarations (h : Source.ofScript? text offset = some source) (label : String) :
    ((reactiveDeclarations source label 0 source.statements).map fun r => r.node.id).Nodup := by
  have hsub (ss : List Node) : (ss.filterMap (reactiveAssignment? source label)).Sublist (Node.walkAll ss) := by
    induction ss with
    | nil => exact .slnil
    | cons s ss ih =>
        rw [List.filterMap_cons]
        cases hs : reactiveAssignment? source label s with
        | none => exact ih.trans (List.sublist_append_right _ _)
        | some a => exact (List.singleton_sublist.2 (mem_walk_of_reactiveAssignment? hs)).append ih
  have hids := (starts_scriptVisit h).ids
  rw [Node.walk_eq] at hids
  have hnodes := (List.nodup_cons.1 hids).2.sublist ((hsub source.statements).map Node.id)
  rwa [← map_node_reactiveDeclarations source label 0, List.map_map] at hnodes

/-- The declaration with the given number stands at a path. -/
def NumberedAt (source : Source) (label : String) (i : Nat) (p : List Nat) : Prop :=
  ReactiveAt source label p ∧ ∃ r, (reactiveDeclarations source label 0 source.statements)[i]? = some r ∧
    source.root.at? p = some r.node

namespace NumberedAt

variable {i j : Nat} {p q : List Nat}

/-- Numbers and paths tell the same declarations apart. -/
theorem eq_iff (hp : NumberedAt source label i p) (hq : NumberedAt source label j q)
    (h : Source.ofScript? text offset = some source) : i = j ↔ p = q := by
  obtain ⟨-, r, hr, hp⟩ := hp
  obtain ⟨-, r', hr', hq⟩ := hq
  constructor
  · rintro rfl
    obtain rfl : r = r' := Option.some.inj (hr.symm.trans hr')
    exact Node.path_eq_of_id_eq (starts_scriptVisit h).ids hp hq rfl
  · rintro rfl
    have hnode : r.node = r'.node := Option.some.inj (hp.symm.trans hq)
    have hlt : i < ((reactiveDeclarations source label 0 source.statements).map fun r => r.node.id).length := by
      rw [List.length_map]
      exact (List.getElem?_eq_some_iff.1 hr).1
    refine (List.getElem?_inj hlt (nodup_reactiveDeclarations h label)).1 ?_
    rw [List.getElem?_map, List.getElem?_map, hr, hr', Option.map_some, Option.map_some, hnode]

/-- What feeds what, by numbers and by paths. -/
theorem feeds_iff (hp : NumberedAt source label i p) (hq : NumberedAt source label j q)
    (h : Source.ofScript? text offset = some source) :
    Feeds ((reactiveDeclarations source label 0 source.statements).map ReactiveDeclaration.toDependent) i j ↔
      FeedsAt source p q ∧ p ≠ q := by
  have hsame := hp.eq_iff hq h
  obtain ⟨-, r, hr, hp⟩ := hp
  obtain ⟨hreactive, r', hr', hq⟩ := hq
  obtain ⟨index, hmade⟩ := eq_ofAssignment_of_mem (List.mem_of_getElem? hr)
  obtain ⟨index', hmade'⟩ := eq_ofAssignment_of_mem (List.mem_of_getElem? hr')
  have hassignees : r.assignees = writtenNames source r.node := congrArg (fun d => d.assignees) hmade
  have hdependencies (x : String) : x ∈ r'.dependencies ↔
      ∃ side t, RightSide source q side ∧ side <+: t ∧ MentionedAt source t x := by
    rw [hmade']
    exact mem_dependencies_iff hq
  constructor
  · rintro ⟨hne, d, e, hd, he, x, hx, hdepends⟩
    rw [List.getElem?_map, hr] at hd
    rw [List.getElem?_map, hr'] at he
    cases hd
    cases he
    obtain ⟨side, t, hside, ht, hmentioned⟩ := (hdependencies x).1 hdepends
    exact ⟨⟨side, t, x, ⟨r.node, hp, hassignees ▸ hx⟩, hside, ht, hmentioned,
      hreactive.standing h hside ht hmentioned⟩, fun heq => hne (hsame.2 heq)⟩
  · rintro ⟨⟨side, t, x, ⟨assignment, hassignment, hx⟩, hside, ht, hmentioned, -⟩, hne⟩
    obtain rfl : r.node = assignment := Option.some.inj (hp.symm.trans hassignment)
    refine ⟨fun heq => hne (hsame.1 heq), r.toDependent, r'.toDependent, ?_, ?_, x, hassignees ▸ hx, ?_⟩
    · rw [List.getElem?_map, hr, Option.map_some]
    · rw [List.getElem?_map, hr', Option.map_some]
    · exact (hdependencies x).2 ⟨side, t, hside, ht, hmentioned⟩

end NumberedAt

/-- Places that all run are not cyclic. -/
theorem LeastOrder.acyclic {ds : List Dependent} {order : List Nat} (h : LeastOrder ds [] order)
    (hperm : order.Perm (allPlaces ds)) : ¬ Cyclic ds :=
  h.not_cyclic fun _ hi => hperm.mem_iff.2 (mem_allPlaces.2 hi)

theorem not_cyclic_of_orderDeclarations {d : Document} {declarations ordered : List ReactiveDeclaration}
    (h : orderDeclarations d declarations = .ok ordered) :
    ¬ Cyclic (declarations.map ReactiveDeclaration.toDependent) := by
  rw [orderDeclarations] at h
  rcases runningOrder_cases (declarations.map ReactiveDeclaration.toDependent) with
    ⟨order, -, hleast, hperm⟩ | ⟨places, herror, -⟩
  · exact hleast.acyclic hperm
  · rw [herror] at h
    cases h

/-- The errors of generation are those of templates that can be read. -/
theorem compile_eq_ungenerated_iff {options : Options} {template : String} {e : GenerationError} :
    compile options template = .error (.ungenerated e) ↔
      options.problems = [] ∧ ∃ d, Document.parse template options.filename = .ok d ∧
        ((d.analyze options).2.generate options (d.analyze options).1).result = .error e := by
  unfold compile
  cases options.problems with
  | cons problem problems => simp
  | nil =>
      cases Document.parse template options.filename with
      | error l => simp
      | ok d =>
          cases hresult : ((d.analyze options).2.generate options (d.analyze options).1).result <;> simp [hresult]

/-- Generation reports a circle when the declarations are cyclic. -/
theorem generate_eq_cyclic_iff {options : Options} {template : String} {d : Document}
    (hd : Document.parse template options.filename = .ok d) :
    (∃ names position,
        ((d.analyze options).2.generate options (d.analyze options).1).result = .error (.cyclic names position)) ↔
      Cyclic ((d.analyze options).1.reactive.map ReactiveDeclaration.toDependent) := by
  have hsound := (Session.Sound.start hd).analyze options
  rcases (hsound.generate_cases (a := (d.analyze options).1) rfl options).2 with
    ⟨g, ordered, hok, -⟩ | ⟨places, hcircle, herror, -⟩
  · constructor
    · rintro ⟨names, position, herror⟩
      cases hok.symm.trans herror
    · -- what is generated has an order
      intro hcyclic
      obtain ⟨markup, ordered, -, hordered, -⟩ := exists_assemble_of_generate hok
      exact absurd hcyclic (not_cyclic_of_orderDeclarations hordered)
  · exact ⟨fun _ => hcircle.cyclic, fun _ => ⟨_, _, herror⟩⟩

/-- The declarations of a template that can be read are those of its script. -/
theorem reactive_analyze_of_parse {options : Options} {template : String} {d : Document} {s : ScriptBlock}
    (hd : Document.parse template options.filename = .ok d) (hs : d.script = some s) :
    ∃ text offset, Source.ofScript? text offset = some s.program ∧ (d.analyze options).1.reactive =
      reactiveDeclarations s.program options.reactiveLabel 0 s.program.statements := by
  rcases exists_ofScript?_of_content (Document.derives_of_parse hd).content hs with
    hnone | ⟨text, offset, program, hread, hprogram, hbody⟩
  · cases hnone
  · refine ⟨text, offset, hprogram ▸ hread, ?_⟩
    rw [(collects_analyze options d).reactive, Document.scriptAnalysis, hs, hprogram, ← hbody, ← hprogram]
    rfl

end ReactiveTemplate

/-
**The visits of the pass that opens scopes.**

One pass over a tree opens its scopes: it goes down the tree and hands each node the scope it is in.  A
visit of the pass is described by what it starts with (`ReactiveTemplate.Visit`).  The visit of a node
leads to the visits of its children, so the visits of a tree are found along paths.  This module says what
a visit may change, and that all that is recorded comes from a visit.

Main definitions:

* `ReactiveTemplate.Script.Node.at?` — the node at a path;
* `ReactiveTemplate.Resolver.Declares`, `ReactiveTemplate.Resolver.Grows` — what declarations and visits
  may change;
* `ReactiveTemplate.Entered` — what happens at a node before its children;
* `ReactiveTemplate.Visit`, `ReactiveTemplate.Visit.at?` — the visits that the pass makes;
* `ReactiveTemplate.Visit.Traces` — what is new comes from the visits of a tree.

Main results:

* `ReactiveTemplate.Script.Node.nodup_ids_number`, `ReactiveTemplate.Script.Node.path_eq_of_id_eq` —
  numbers are given once, so a number belongs to one path;
* `ReactiveTemplate.declares_declareNames`, `ReactiveTemplate.grows_visitNode` — the rest is left alone;
* `ReactiveTemplate.Visit.traces_after` — references and scopes come from visits.
-/

import ReactiveTemplate.Proofs.Announcements

set_option relaxedAutoImplicit false
set_option autoImplicit false

namespace ReactiveTemplate

open Script

/-! ### Numbers and paths -/

namespace Script.Node

theorem numberAllFrom_cons (next : Nat) (c : Node) (cs : List Node) :
    numberAllFrom next (c :: cs) =
      ((numberFrom next c).1 :: (numberAllFrom (numberFrom next c).2 cs).1,
        (numberAllFrom (numberFrom next c).2 cs).2) :=
  rfl

mutual

theorem exists_ids_numberFrom : ∀ (n : Node) (next : Nat), ∃ size,
    (numberFrom next n).2 = next + size ∧
      (numberFrom next n).1.walk.map Node.id = List.range' next size
  | .mk k r a b i cs, next => by
      obtain ⟨size, hnext, hids⟩ := exists_ids_numberAllFrom cs (next + 1)
      refine ⟨size + 1, ?_, ?_⟩
      · rw [numberFrom, hnext]
        omega
      · rw [numberFrom, walk, List.map_cons, hids]
        rfl

theorem exists_ids_numberAllFrom : ∀ (cs : List Node) (next : Nat), ∃ size,
    (numberAllFrom next cs).2 = next + size ∧
      (walkAll (numberAllFrom next cs).1).map Node.id = List.range' next size
  | [], next => ⟨0, rfl, rfl⟩
  | c :: cs, next => by
      obtain ⟨size, hnext, hids⟩ := exists_ids_numberFrom c next
      obtain ⟨rest, hlast, hall⟩ := exists_ids_numberAllFrom cs (next + size)
      refine ⟨size + rest, ?_, ?_⟩
      · rw [numberAllFrom_cons, hnext, hlast, Nat.add_assoc]
      · rw [numberAllFrom_cons, walkAll, List.map_append, hids, hnext, hall, List.range'_append_1]

end

/-- Numbers are given once. -/
theorem nodup_ids_number (n : Node) : (n.number.walk.map Node.id).Nodup := by
  obtain ⟨size, -, hids⟩ := exists_ids_numberFrom n 0
  rw [number, hids]
  exact List.nodup_range'

/-- The node at a path. -/
def at? (n : Node) : List Nat → Option Node
  | [] => some n
  | i :: path => n.children[i]?.bind fun c => c.at? path

theorem walk_eq (n : Node) : n.walk = n :: walkAll n.children := by
  obtain ⟨k, r, a, b, i, cs⟩ := n
  rw [walk, children]

theorem walkAll_append (xs ys : List Node) : walkAll (xs ++ ys) = walkAll xs ++ walkAll ys := by
  induction xs with
  | nil => rfl
  | cons c cs ih => rw [List.cons_append, walkAll, walkAll, ih, List.append_assoc]

theorem walk_sublist_walkAll {c : Node} {cs : List Node} (h : c ∈ cs) : c.walk.Sublist (walkAll cs) := by
  obtain ⟨before, after, rfl⟩ := List.append_of_mem h
  rw [walkAll_append, walkAll]
  exact (List.sublist_append_left _ _).trans (List.sublist_append_right _ _)

theorem mem_walk_self (n : Node) : n ∈ n.walk := by
  rw [walk_eq]
  exact List.mem_cons_self

theorem walk_subset_of_mem {n m : Node} (h : m ∈ n.children) : m.walk ⊆ n.walk := by
  rw [walk_eq n]
  exact fun _ hx => List.mem_cons_of_mem _ ((walk_sublist_walkAll h).subset hx)

theorem mem_walk_of_at? {n m : Node} {path : List Nat} (h : n.at? path = some m) : m ∈ n.walk := by
  induction path generalizing n with
  | nil =>
      obtain rfl : n = m := Option.some.inj h
      rw [walk_eq]
      exact List.mem_cons_self
  | cons i path ih =>
      obtain ⟨c, hc, h⟩ := Option.bind_eq_some_iff.1 h
      rw [walk_eq]
      exact List.mem_cons_of_mem _
        ((walk_sublist_walkAll (List.mem_of_getElem? hc)).mem (ih h))

/-- A number belongs to one of several trees. -/
theorem index_eq_of_id_eq {cs : List Node} {c c' m m' : Node} {i i' : Nat}
    (hids : ((walkAll cs).map Node.id).Nodup) (hc : cs[i]? = some c) (hc' : cs[i']? = some c')
    (hm : m ∈ c.walk) (hm' : m' ∈ c'.walk) (hid : m.id = m'.id) : i = i' := by
  induction cs generalizing i i' with
  | nil => cases hc
  | cons d cs ih =>
      rw [walkAll, List.map_append, List.nodup_append] at hids
      obtain ⟨-, hcs, hdisjoint⟩ := hids
      -- a node of the first tree and one of the others
      have hapart : ∀ {j : Nat} {e x y : Node}, cs[j]? = some e → x ∈ d.walk → y ∈ e.walk →
          x.id ≠ y.id := by
        intro j e x y he hx hy
        exact hdisjoint _ (List.mem_map_of_mem hx) _
          (List.mem_map_of_mem ((walk_sublist_walkAll (List.mem_of_getElem? he)).mem hy))
      cases i with
      | zero =>
          obtain rfl : d = c := by simpa using hc
          cases i' with
          | zero => rfl
          | succ i' => exact absurd hid (hapart hc' hm hm')
      | succ i =>
          cases i' with
          | zero =>
              obtain rfl : d = c' := by simpa using hc'
              exact absurd hid.symm (hapart hc hm' hm)
          | succ i' => rw [ih hcs hc hc']

/-- A number belongs to one path. -/
theorem path_eq_of_id_eq {n m m' : Node} {path path' : List Nat} (hids : (n.walk.map Node.id).Nodup)
    (h : n.at? path = some m) (h' : n.at? path' = some m') (hid : m.id = m'.id) : path = path' := by
  -- the root's number is not given again below it
  have hroot : ∀ {n m : Node} {i : Nat} {path : List Nat}, (n.walk.map Node.id).Nodup →
      n.at? (i :: path) = some m → m.id ≠ n.id := by
    intro n m i path hids h hid
    obtain ⟨c, hc, h⟩ := Option.bind_eq_some_iff.1 h
    rw [walk_eq, List.map_cons, List.nodup_cons] at hids
    refine hids.1 (hid ▸ List.mem_map_of_mem ?_)
    exact (walk_sublist_walkAll (List.mem_of_getElem? hc)).mem (mem_walk_of_at? h)
  induction path generalizing n path' with
  | nil =>
      cases path' with
      | nil => rfl
      | cons i' path' =>
          obtain rfl : n = m := Option.some.inj h
          exact absurd hid.symm (hroot hids h')
  | cons i path ih =>
      cases path' with
      | nil =>
          obtain rfl : n = m' := Option.some.inj h'
          exact absurd hid (hroot hids h)
      | cons i' path' =>
          obtain ⟨c, hc, h⟩ := Option.bind_eq_some_iff.1 h
          obtain ⟨c', hc', h'⟩ := Option.bind_eq_some_iff.1 h'
          rw [walk_eq, List.map_cons, List.nodup_cons] at hids
          obtain rfl : i = i' := index_eq_of_id_eq hids.2 hc hc' (mem_walk_of_at? h) (mem_walk_of_at? h') hid
          obtain rfl : c = c' := Option.some.inj (hc.symm.trans hc')
          have hsub := (walk_sublist_walkAll (List.mem_of_getElem? hc)).map Node.id
          rw [ih (hids.2.sublist hsub) h h']

end Script.Node

/-! ### What declarations change -/

/-- The scopes of a forest without what they declare: their kinds and parents. -/
def Forest.outline (f : Forest) : List (ScopeKind × Option ScopeId) :=
  f.scopes.map fun s => (s.kind, s.parent)

theorem Forest.parent?_eq (f : Forest) (i : ScopeId) : f.parent? i = f.outline[i]?.bind Prod.snd := by
  rw [parent?, get?, outline, List.getElem?_map]
  cases f.scopes[i]? <;> rfl

theorem Forest.outline_declare (f : Forest) (i : ScopeId) (name : String) :
    (f.declare i name).outline = f.outline := by
  refine List.ext_getElem? fun j => ?_
  simp only [declare, outline, List.getElem?_map, List.getElem?_modify]
  cases f.scopes[j]? with
  | none => rfl
  | some s => by_cases h : i = j <;> simp [h]

theorem Forest.get?_declare_of_ne {f : Forest} {i j : ScopeId} (name : String) (h : i ≠ j) :
    (f.declare i name).get? j = f.get? j := by
  simp [get?, declare, h]

/-- Only names were declared, and only in scopes with a property. -/
structure Resolver.Declares (p : ScopeId → Prop) (s s' : Resolver) : Prop where
  openings : s'.openings = s.openings
  references : s'.references = s.references
  outline : s'.forest.outline = s.forest.outline
  others : ∀ j, ¬p j → s'.forest.get? j = s.forest.get? j

namespace Resolver.Declares

variable {p q : ScopeId → Prop} {s s' s'' : Resolver}

theorem refl (p : ScopeId → Prop) (s : Resolver) : Declares p s s :=
  ⟨rfl, rfl, rfl, fun _ _ => rfl⟩

theorem trans (h : Declares p s s') (h' : Declares p s' s'') : Declares p s s'' :=
  ⟨h'.openings.trans h.openings, h'.references.trans h.references, h'.outline.trans h.outline,
    fun j hj => (h'.others j hj).trans (h.others j hj)⟩

theorem mono (h : Declares p s s') (hpq : ∀ j, p j → q j) : Declares q s s' :=
  ⟨h.openings, h.references, h.outline, fun j hj => h.others j fun hp => hj (hpq j hp)⟩

theorem foldl {α : Type} {f : Resolver → α → Resolver} (hf : ∀ s x, Declares p s (f s x)) :
    ∀ (xs : List α) (s : Resolver), Declares p s (xs.foldl f s)
  | [], s => refl p s
  | x :: xs, s => (hf s x).trans (foldl hf xs (f s x))

end Resolver.Declares

variable {source : Source} {p : ScopeId → Prop}

theorem declares_declareLeaves {i : ScopeId} (hi : p i) (s : Resolver) (leaves : List Node) :
    Resolver.Declares p s (s.declareLeaves source i leaves) := by
  refine Resolver.Declares.foldl (fun s leaf => ?_) leaves s
  refine ⟨rfl, rfl, Forest.outline_declare _ _ _, fun j hj => ?_⟩
  exact Forest.get?_declare_of_ne _ fun h => hj (h ▸ hi)

theorem declares_declarePattern {i : ScopeId} (hi : p i) (s : Resolver) (pattern : Option Node) :
    Resolver.Declares p s (s.declarePattern source i pattern) :=
  declares_declareLeaves hi s _

/-- A function declares its name around it or inside, and its parameters inside. -/
theorem declares_declareFunction {outer inner : ScopeId} (houter : p outer) (hinner : p inner) (n : Node)
    (s : Resolver) : Resolver.Declares p s (declareFunction source n outer inner s) := by
  refine .trans ?_ (declares_declarePattern hinner _ _)
  refine .trans ?_ (declares_declarePattern hinner _ _)
  split
  · exact declares_declarePattern houter _ _
  · split
    · exact declares_declarePattern hinner _ _
    · exact .refl _ _

/-- The declarations that a node makes are made in the scope around it, in its own, in the outermost
one, or in the one that variables are hoisted to. -/
theorem declares_declareNames {root outer inner : ScopeId} {s : Resolver} (hroot : p root)
    (houter : p outer) (hinner : p inner) (hhoisted : p (s.forest.closestFunction outer)) (n : Node) :
    Resolver.Declares p s (declareNames source root n outer inner s) := by
  have hdeclarators : ∀ {i : ScopeId}, p i → Resolver.Declares p s
      (n.children.foldl (fun r d => r.declarePattern source i (d.child? .name)) s) :=
    fun hi => .foldl (fun _ _ => declares_declarePattern hi _ _) _ _
  unfold declareNames
  split
  · exact declares_declareFunction houter hinner n s
  · split
    · exact (declares_declarePattern hhoisted _ _).trans (declares_declarePattern hinner _ _)
    · split
      · exact hdeclarators houter
      · exact hdeclarators hhoisted
      · exact declares_declarePattern houter _ _
      · split
        · exact ⟨rfl, rfl, rfl, fun _ _ => rfl⟩
        · exact .refl _ _
      · exact declares_declareLeaves hroot _ _
      · exact declares_declarePattern hinner _ _
      · exact .refl _ _

/-! ### What visits change -/

/-- What a part of the pass may change: it opens scopes for nodes with the given numbers, behind the
ones that are there. -/
structure Resolver.Grows (ids : List Nat) (s s' : Resolver) : Prop where
  outline : s.forest.outline <+: s'.forest.outline
  openings : ∃ added, s'.openings = s.openings ++ added ∧ ∀ o ∈ added, o.node ∈ ids

namespace Resolver.Grows

variable {ids ids' : List Nat} {s s' s'' : Resolver}

theorem refl (ids : List Nat) (s : Resolver) : Grows ids s s :=
  ⟨List.prefix_rfl, [], (List.append_nil _).symm, fun _ ho => nomatch ho⟩

theorem trans (h : Grows ids s s') (h' : Grows ids' s' s'') : Grows (ids ++ ids') s s'' := by
  obtain ⟨houtline, added, hadded, hids⟩ := h
  obtain ⟨houtline', added', hadded', hids'⟩ := h'
  refine ⟨houtline.trans houtline', added ++ added', ?_, fun o ho => ?_⟩
  · rw [hadded', hadded, List.append_assoc]
  · rcases List.mem_append.1 ho with ho | ho
    · exact List.mem_append_left _ (hids o ho)
    · exact List.mem_append_right _ (hids' o ho)

theorem mono (h : Grows ids s s') (hids : ids ⊆ ids') : Grows ids' s s' := by
  obtain ⟨added, hadded, hmem⟩ := h.openings
  exact ⟨h.outline, added, hadded, fun o ho => hids (hmem o ho)⟩

theorem parent?_of_lt {i : ScopeId} (h : Grows ids s s') (hi : i < s.forest.scopes.length) :
    s'.forest.parent? i = s.forest.parent? i := by
  obtain ⟨more, hmore⟩ := h.outline
  rw [Forest.parent?_eq, Forest.parent?_eq, ← hmore, List.getElem?_append_left]
  rwa [Forest.outline, List.length_map]

theorem parent?_eq {i parent : ScopeId} (h : Grows ids s s') (hi : s.forest.parent? i = some parent) :
    s'.forest.parent? i = some parent := by
  obtain ⟨scope, hscope, -⟩ := Option.bind_eq_some_iff.1 hi
  rw [h.parent?_of_lt (List.getElem?_eq_some_iff.1 hscope).1, hi]

end Resolver.Grows

theorem Resolver.Declares.grows {s s' : Resolver} (h : Resolver.Declares p s s') (ids : List Nat) :
    Resolver.Grows ids s s' :=
  ⟨h.outline ▸ List.prefix_rfl, [], by rw [h.openings, List.append_nil], fun _ ho => nomatch ho⟩

/-- What a visit does before it goes to the children: either the node opens no scope and may be recorded
as a reference, or it opens one behind all others, whose parent is the scope around the node. -/
inductive Entered (n : Node) (scope : ScopeId) (s : Resolver) : Resolver → ScopeId → Prop
  | stays {s' : Resolver} : s'.openings = s.openings → s'.forest.outline = s.forest.outline →
      s'.references = s.references ∨ s'.references = s.references ++ [⟨n, scope⟩] →
      Entered n scope s s' scope
  | opens {s' : Resolver} {kind : ScopeKind} : n.kind.opens? = some kind →
      s'.openings = s.openings ++ [⟨n.id, s.forest.scopes.length⟩] →
      s'.forest.outline = s.forest.outline ++ [(kind, some scope)] → s'.references = s.references →
      Entered n scope s s' s.forest.scopes.length

theorem entered_enterNode (source : Source) (root : ScopeId) (n : Node) (shared : Bool) (scope : ScopeId)
    (s : Resolver) :
    Entered n scope s (enterNode source root n shared scope s).1
      (enterNode source root n shared scope s).2 := by
  have hdeclares : ∀ (inner : ScopeId) (s : Resolver),
      Resolver.Declares (fun _ => True) s (declareNames source root n scope inner s) :=
    fun inner s => declares_declareNames trivial trivial trivial trivial n
  unfold enterNode
  split
  · exact .stays rfl rfl (.inl rfl)
  · split
    · next kind hkind =>
        have h := hdeclares s.forest.scopes.length (s.openScope n kind scope).1
        refine .opens hkind h.openings (h.outline.trans ?_) h.references
        simp [Resolver.openScope, Forest.addScope, Forest.outline]
    · have h := hdeclares scope s
      split
      · simp only [Resolver.refer]
        split
        · exact .stays h.openings h.outline (.inl h.references)
        · exact .stays h.openings h.outline (.inr (by rw [h.references]))
      · exact .stays h.openings h.outline (.inl h.references)

theorem Entered.grows {n : Node} {scope inner : ScopeId} {s s' : Resolver} (h : Entered n scope s s' inner) :
    Resolver.Grows [n.id] s s' := by
  cases h with
  | stays hopenings houtline _ =>
      exact ⟨houtline ▸ List.prefix_rfl, [], by rw [hopenings, List.append_nil], fun _ ho => nomatch ho⟩
  | opens _ hopenings houtline _ =>
      exact ⟨houtline ▸ List.prefix_append _ _, _, hopenings, by simp⟩

/-! ### Visits -/

/-- What happens to a child that is not skipped, and to one that is. -/
theorem visitChildren_cons (source : Source) (root : ScopeId) (parent : Kind) (scope : ScopeId) (c : Node)
    (cs : List Node) (s : Resolver) :
    visitChildren source root parent scope (c :: cs) s =
      visitChildren source root parent scope cs
        (if treatment parent c = .skip then s
          else visitNode source root (treatment parent c == .share) scope c s) := by
  rw [visitChildren]
  cases treatment parent c <;> rfl

theorem visitChildren_append (source : Source) (root : ScopeId) (parent : Kind) (scope : ScopeId)
    (xs ys : List Node) (s : Resolver) :
    visitChildren source root parent scope (xs ++ ys) s =
      visitChildren source root parent scope ys (visitChildren source root parent scope xs s) := by
  induction xs generalizing s with
  | nil => rw [List.nil_append, visitChildren]
  | cons c cs ih => rw [List.cons_append, visitChildren_cons, visitChildren_cons, ih]

mutual

/-- A visit opens scopes for the nodes of its tree only. -/
theorem grows_visitNode (source : Source) (root : ScopeId) : ∀ (n : Node) (shared : Bool)
    (scope : ScopeId) (s : Resolver),
    Resolver.Grows (n.walk.map Node.id) s (visitNode source root shared scope n s)
  | .mk k r a b i cs, shared, scope, s => by
      rw [visitNode, Node.walk, List.map_cons, ← List.singleton_append]
      exact (entered_enterNode source root _ shared scope s).grows.trans
        (grows_visitChildren source root cs k _ _)

theorem grows_visitChildren (source : Source) (root : ScopeId) : ∀ (cs : List Node) (parent : Kind)
    (scope : ScopeId) (s : Resolver),
    Resolver.Grows ((Node.walkAll cs).map Node.id) s (visitChildren source root parent scope cs s)
  | [], parent, scope, s => by
      rw [visitChildren]
      exact .refl _ _
  | c :: cs, parent, scope, s => by
      rw [visitChildren_cons, Node.walkAll, List.map_append]
      refine .trans ?_ (grows_visitChildren source root cs parent scope _)
      split
      · exact .refl _ _
      · exact grows_visitNode source root c _ scope s

end

/-- A visit of a node, by what it starts with. -/
structure Visit where
  /-- The node. -/
  node : Node
  /-- The node opens no scope whatever its kind. -/
  shared : Bool
  /-- The scope around the node. -/
  around : ScopeId
  /-- What the pass has found before. -/
  before : Resolver

namespace Visit

variable (source : Source) (root : ScopeId)

/-- What the pass has found when it goes to the children. -/
def entered (v : Visit) : Resolver :=
  (enterNode source root v.node v.shared v.around v.before).1

/-- The scope that the pass uses at the node. -/
def inner (v : Visit) : ScopeId :=
  (enterNode source root v.node v.shared v.around v.before).2

/-- What the pass has found when the visit ends. -/
def after (v : Visit) : Resolver :=
  visitNode source root v.shared v.around v.node v.before

/-- The visit of the child at a place, if the child is visited. -/
def child? (v : Visit) (i : Nat) : Option Visit :=
  v.node.children[i]?.bind fun c =>
    if treatment v.node.kind c = .skip then none
    else some ⟨c, treatment v.node.kind c == .share, v.inner source root,
      visitChildren source root v.node.kind (v.inner source root) (v.node.children.take i)
        (v.entered source root)⟩

/-- The visit of the node at a path, if the node is visited. -/
def at? (v : Visit) : List Nat → Option Visit
  | [] => some v
  | i :: path => (v.child? source root i).bind fun w => w.at? path

variable {source : Source} {root : ScopeId} {v w : Visit} {i : Nat}

theorem after_eq (v : Visit) :
    v.after source root = visitChildren source root v.node.kind (v.inner source root) v.node.children
      (v.entered source root) := by
  obtain ⟨⟨k, r, a, b, i, cs⟩, shared, around, before⟩ := v
  rw [after, visitNode]
  rfl

/-- The visit of a child stands between the visits of the children before it and behind it. -/
theorem child?_cases (h : v.child? source root i = some w) :
    v.node.children[i]? = some w.node ∧ w.around = v.inner source root ∧
      w.before = visitChildren source root v.node.kind (v.inner source root) (v.node.children.take i)
        (v.entered source root) ∧
      v.after source root = visitChildren source root v.node.kind (v.inner source root)
        (v.node.children.drop (i + 1)) (w.after source root) := by
  obtain ⟨c, hc, h⟩ := Option.bind_eq_some_iff.1 h
  split at h
  · cases h
  · next hskip =>
      cases h
      refine ⟨hc, rfl, rfl, ?_⟩
      obtain ⟨hi, rfl⟩ := List.getElem?_eq_some_iff.1 hc
      have hsplit : v.node.children =
          v.node.children.take i ++ v.node.children[i] :: v.node.children.drop (i + 1) := by
        rw [← List.drop_eq_getElem_cons hi, List.take_append_drop]
      rw [after_eq]
      refine (congrArg (fun cs => visitChildren source root _ _ cs _) hsplit).trans ?_
      rw [visitChildren_append, visitChildren_cons, if_neg hskip]
      rfl

theorem node_at? {path : List Nat} (h : v.at? source root path = some w) :
    v.node.at? path = some w.node := by
  induction path generalizing v with
  | nil =>
      obtain rfl : v = w := Option.some.inj h
      rfl
  | cons i path ih =>
      obtain ⟨u, hu, h⟩ := Option.bind_eq_some_iff.1 h
      exact Option.bind_eq_some_iff.2 ⟨u.node, (child?_cases hu).1, ih h⟩

/-! ### Where references and scopes come from -/

variable (source root)

/-- A reference that one of the visits of a tree records. -/
def Refers (v : Visit) (ref : Reference) : Prop :=
  ∃ path w, v.at? source root path = some w ∧ w.node = ref.node ∧ w.inner source root = ref.scope

/-- A scope that one of the visits of a tree opens: its parent is the scope around the node. -/
def Opens (v : Visit) (forest : Forest) (o : Opening) : Prop :=
  ∃ path w, v.at? source root path = some w ∧ w.node.id = o.node ∧ w.inner source root = o.scope ∧
    forest.parent? o.scope = some w.around

/-- What is new in a part of the pass comes from the visits of a tree. -/
structure Traces (v : Visit) (s s' : Resolver) : Prop where
  references : ∀ ref ∈ s'.references, ref ∈ s.references ∨ v.Refers source root ref
  openings : ∀ o ∈ s'.openings, o ∈ s.openings ∨ v.Opens source root s'.forest o

variable {source root} {s s' s'' : Resolver} {ids : List Nat}

theorem Traces.trans (h : v.Traces source root s s') (h' : v.Traces source root s' s'')
    (hgrows : Resolver.Grows ids s' s'') : v.Traces source root s s'' where
  references ref href := by
    rcases h'.references ref href with href | href
    · exact h.references ref href
    · exact .inr href
  openings o ho := by
    rcases h'.openings o ho with ho | ho
    · rcases h.openings o ho with ho | ⟨path, w, hw, hid, hscope, hparent⟩
      · exact .inl ho
      · exact .inr ⟨path, w, hw, hid, hscope, hgrows.parent?_eq hparent⟩
    · exact .inr ho

/-- The visits below a child are visits below the node. -/
theorem Traces.ofChild (hw : v.child? source root i = some w) (h : w.Traces source root s s') :
    v.Traces source root s s' where
  references ref href := by
    rcases h.references ref href with href | ⟨path, u, hu, h⟩
    · exact .inl href
    · exact .inr ⟨i :: path, u, Option.bind_eq_some_iff.2 ⟨w, hw, hu⟩, h⟩
  openings o ho := by
    rcases h.openings o ho with ho | ⟨path, u, hu, h⟩
    · exact .inl ho
    · exact .inr ⟨i :: path, u, Option.bind_eq_some_iff.2 ⟨w, hw, hu⟩, h⟩

theorem entered_inner (v : Visit) :
    Entered v.node v.around v.before (v.entered source root) (v.inner source root) :=
  entered_enterNode source root v.node v.shared v.around v.before

theorem traces_entered (v : Visit) : v.Traces source root v.before (v.entered source root) := by
  have hself : v.at? source root [] = some v := rfl
  have h : Entered v.node v.around v.before (v.entered source root) (v.inner source root) :=
    v.entered_inner
  generalize hinner : v.inner source root = inner at h
  generalize v.entered source root = s' at h
  cases h with
  | stays hopenings _ hreferences =>
      refine ⟨fun ref href => ?_, fun o ho => .inl (hopenings ▸ ho)⟩
      rcases hreferences with hsame | hmore
      · exact .inl (hsame ▸ href)
      · rw [hmore, List.mem_append, List.mem_singleton] at href
        exact href.imp_right fun h => ⟨[], v, hself, by rw [h], by rw [hinner, h]⟩
  | opens _ hopenings houtline hreferences =>
      refine ⟨fun ref href => .inl (hreferences ▸ href), fun o ho => ?_⟩
      rw [hopenings, List.mem_append, List.mem_singleton] at ho
      refine ho.imp_right fun h => ⟨[], v, hself, by rw [h], by rw [hinner, h], ?_⟩
      rw [h, Forest.parent?_eq, houtline]
      simp [Forest.outline]

mutual

theorem traces_after : ∀ (n : Node) (shared : Bool) (around : ScopeId) (before : Resolver),
    (⟨n, shared, around, before⟩ : Visit).Traces source root before
      ((⟨n, shared, around, before⟩ : Visit).after source root)
  | .mk k r a b i cs, shared, around, before => by
      rw [after_eq]
      have hrest := traces_children cs [] ⟨.mk k r a b i cs, shared, around, before⟩ rfl
      rw [visitChildren] at hrest
      exact (traces_entered _).trans hrest (grows_visitChildren source root _ _ _ _)

theorem traces_children : ∀ (cs done : List Node) (v : Visit), v.node.children = done ++ cs →
    v.Traces source root
      (visitChildren source root v.node.kind (v.inner source root) done (v.entered source root))
      (visitChildren source root v.node.kind (v.inner source root) cs
        (visitChildren source root v.node.kind (v.inner source root) done (v.entered source root)))
  | [], done, v, h => by
      rw [visitChildren]
      exact ⟨fun ref href => .inl href, fun o ho => .inl ho⟩
  | c :: cs, done, v, h => by
      have hrest := traces_children cs (done ++ [c]) v (by simpa using h)
      rw [visitChildren_append, visitChildren_cons, visitChildren] at hrest
      rw [visitChildren_cons]
      refine Traces.trans ?_ hrest (grows_visitChildren source root _ _ _ _)
      split
      · exact ⟨fun ref href => .inl href, fun o ho => .inl ho⟩
      · next hskip =>
          have hchild : v.child? source root done.length = some ⟨c, treatment v.node.kind c == .share,
              v.inner source root, visitChildren source root v.node.kind (v.inner source root) done
                (v.entered source root)⟩ := by
            rw [child?, h]
            simp [hskip]
          exact (traces_after c _ _ _).ofChild hchild

end

end Visit

end ReactiveTemplate

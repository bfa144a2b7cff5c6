/-
**The pass that opens scopes and the walks that look scopes up agree.**

Walks over a tree go without the pass that opened its scopes: they start in the outermost scope and look
up, at each node, whether the node has opened a scope.  This module shows that a walk is in the scope that
the pass used, at every node that the pass visits.  Nodes have numbers of their own, so what a visit notes
about a node is not touched by the visits of other nodes, and is found again by the number.

Main definitions:

* `ReactiveTemplate.Visit.Settled` — a visit whose nodes are noted as they will be looked up;
* `ReactiveTemplate.Resolution.Nearest` — the scope noted nearest above a node;
* `ReactiveTemplate.Resolution.WalkAgrees`, `ReactiveTemplate.Resolution.Agrees` — what is shown.

Main results:

* `ReactiveTemplate.Visit.Settled.scopedAt?_eq` — a walk is where the visit was;
* `ReactiveTemplate.nearest_of_scopedAt?` — and that is the scope noted nearest;
* `ReactiveTemplate.resolve_agrees` — **the pass and the walks agree** on scripts and on handlers.
-/

import ReactiveTemplate.Proofs.Extents.Statements
import ReactiveTemplate.Proofs.Markup.Grammar
import ReactiveTemplate.Proofs.Scopes.Visits

set_option relaxedAutoImplicit false
set_option autoImplicit false

namespace ReactiveTemplate

open Script

variable {source : Source}

/-! ### What walks look up -/

/-- The scope noted for a number; the last entry counts. -/
def openedIn (openings : List Opening) (id : Nat) : Option ScopeId :=
  (openings.reverse.find? fun o => o.node == id).map Opening.scope

theorem Resolution.opened?_eq (r : Resolution) (n : Node) : r.opened? n = openedIn r.openings n.id :=
  rfl

theorem openedIn_append (old added : List Opening) (id : Nat) :
    openedIn (old ++ added) id = (openedIn added id).or (openedIn old id) := by
  rw [openedIn, List.reverse_append, List.find?_append, Option.map_or]
  rfl

theorem openedIn_eq_none_iff {openings : List Opening} {id : Nat} :
    openedIn openings id = none ↔ ∀ o ∈ openings, o.node ≠ id := by
  simp [openedIn]

theorem exists_of_openedIn {openings : List Opening} {id : Nat} {scope : ScopeId}
    (h : openedIn openings id = some scope) : ⟨id, scope⟩ ∈ openings := by
  obtain ⟨⟨node, scope⟩, ho, rfl⟩ := Option.map_eq_some_iff.1 h
  have hid : node = id := by simpa using List.find?_some ho
  have hmem := List.mem_reverse.1 (List.mem_of_find?_eq_some ho)
  exact hid ▸ hmem

/-- What a part of the pass notes for its nodes leaves other nodes alone. -/
theorem Resolver.Grows.openedIn_eq {ids : List Nat} {s s' : Resolver} {id : Nat} (h : Grows ids s s')
    (hid : id ∉ ids) : openedIn s'.openings id = openedIn s.openings id := by
  obtain ⟨added, hadded, hids⟩ := h.openings
  have hnone : openedIn added id = none :=
    openedIn_eq_none_iff.2 fun o ho heq => hid (heq ▸ hids o ho)
  rw [hadded, openedIn_append, hnone, Option.none_or]

/-- A visit whose nodes are noted as they will be looked up: their numbers differ, nothing was noted for
them before but the scope around the first, and nothing is noted for them later. -/
structure Visit.Settled (source : Source) (r : Resolution) (v : Visit) : Prop where
  ids : (v.node.walk.map Node.id).Nodup
  fresh : ∀ m ∈ Node.walkAll v.node.children, openedIn v.before.openings m.id = none
  own : (openedIn v.before.openings v.node.id).getD v.around = v.around
  noted : ∀ m ∈ v.node.walk,
    openedIn r.openings m.id = openedIn (v.after source r.root).openings m.id

namespace Visit.Settled

variable {source : Source} {r : Resolution} {v w : Visit} {i : Nat}

/-- The scope that is looked up at the node of a visit is the scope that the visit uses. -/
theorem scopeAt_eq (h : v.Settled source r) : r.scopeAt v.node v.around = v.inner source r.root := by
  have hids := h.ids
  rw [Node.walk_eq, List.map_cons, List.nodup_cons] at hids
  -- the visits of the children leave the node alone
  have hnoted : openedIn r.openings v.node.id =
      openedIn (v.entered source r.root).openings v.node.id := by
    rw [h.noted v.node (by rw [Node.walk_eq]; exact List.mem_cons_self), v.after_eq]
    exact (grows_visitChildren source r.root _ _ _ _).openedIn_eq hids.1
  rw [Resolution.scopeAt, Resolution.opened?_eq, hnoted]
  have hown := h.own
  have hentered : Entered v.node v.around v.before (v.entered source r.root) (v.inner source r.root) :=
    v.entered_inner
  generalize v.inner source r.root = inner at hentered
  generalize v.entered source r.root = s' at hentered
  cases hentered with
  | stays hopenings _ _ => rw [hopenings, hown]
  | opens _ hopenings _ _ =>
      rw [hopenings, openedIn_append]
      simp [openedIn]

theorem child (h : v.Settled source r) (hw : v.child? source r.root i = some w) :
    w.Settled source r := by
  obtain ⟨hnode, haround, hbefore, hafter⟩ := Visit.child?_cases hw
  obtain ⟨hi, hnode⟩ := List.getElem?_eq_some_iff.1 hnode
  have hsplit : v.node.children = v.node.children.take i ++ w.node :: v.node.children.drop (i + 1) := by
    rw [← hnode, ← List.drop_eq_getElem_cons hi, List.take_append_drop]
  have hids := h.ids
  rw [Node.walk_eq, List.map_cons, List.nodup_cons, hsplit, Node.walkAll_append, Node.walkAll,
    List.map_append, List.map_append, List.nodup_append, List.nodup_append] at hids
  obtain ⟨hroot, -, ⟨hwalk, -, hbehind⟩, hfront⟩ := hids
  have hmem : ∀ m ∈ w.node.walk, m.id ∈ w.node.walk.map Node.id := fun m hm => List.mem_map_of_mem hm
  -- neither the node around nor the children in front have noted anything for the nodes of the child
  have hnone : ∀ m ∈ w.node.walk, openedIn w.before.openings m.id = none := by
    intro m hm
    have hsiblings : m.id ∉ (Node.walkAll (v.node.children.take i)).map Node.id :=
      fun hin => hfront _ hin _ (List.mem_append_left _ (hmem m hm)) rfl
    have hparent : m.id ∉ [v.node.id] := by
      rw [List.mem_singleton]
      intro heq
      exact hroot (heq ▸ List.mem_append_right _ (List.mem_append_left _ (hmem m hm)))
    rw [hbefore, (grows_visitChildren source r.root _ _ _ _).openedIn_eq hsiblings,
      v.entered_inner.grows.openedIn_eq hparent]
    refine h.fresh m ?_
    rw [hsplit, Node.walkAll_append, Node.walkAll]
    exact List.mem_append_right _ (List.mem_append_left _ hm)
  refine ⟨hwalk, fun m hm => hnone m ?_, ?_, fun m hm => ?_⟩
  · rw [Node.walk_eq]
    exact List.mem_cons_of_mem _ hm
  · rw [hnone w.node (by rw [Node.walk_eq]; exact List.mem_cons_self)]
    rfl
  · rw [h.noted m, hafter]
    · exact (grows_visitChildren source r.root _ _ _ _).openedIn_eq
        fun hin => hbehind _ (hmem m hm) _ hin rfl
    · rw [Node.walk_eq, hsplit, Node.walkAll_append, Node.walkAll]
      exact List.mem_cons_of_mem _ (List.mem_append_right _ (List.mem_append_left _ hm))

/-- A walk is in the scope that the pass used, at every node that the pass visits. -/
theorem scopedAt?_eq {path : List Nat} (h : v.Settled source r) (hw : v.at? source r.root path = some w) :
    scopedAt? r v.around v.node path = some ⟨w.node, w.inner source r.root⟩ := by
  induction path generalizing v with
  | nil =>
      obtain rfl : v = w := Option.some.inj hw
      rw [scopedAt?, h.scopeAt_eq]
  | cons i path ih =>
      obtain ⟨u, hu, hw⟩ := Option.bind_eq_some_iff.1 hw
      obtain ⟨hnode, haround, -⟩ := Visit.child?_cases hu
      rw [scopedAt?, h.scopeAt_eq, hnode, ← haround]
      exact ih (h.child hu) hw

theorem at?_settled {path : List Nat} (h : v.Settled source r) (hw : v.at? source r.root path = some w) :
    w.Settled source r := by
  induction path generalizing v with
  | nil => exact Option.some.inj hw ▸ h
  | cons i path ih =>
      obtain ⟨u, hu, hw⟩ := Option.bind_eq_some_iff.1 hw
      exact ih (h.child hu) hw

/-- A node for which something is noted has the scope that its visit uses. -/
theorem opened?_eq {o : Opening} (h : v.Settled source r) (ho : o ∈ r.openings) (hid : v.node.id = o.node) :
    r.opened? v.node = some (v.inner source r.root) := by
  cases hopened : r.opened? v.node with
  | none => exact absurd hid.symm (openedIn_eq_none_iff.1 hopened o ho)
  | some scope =>
      have hscope := h.scopeAt_eq
      rw [Resolution.scopeAt, hopened] at hscope
      exact congrArg some hscope

end Visit.Settled

/-! ### The nearest scope noted -/

/-- The scope noted nearest above the node at a path, or at the node itself. -/
structure Resolution.Nearest (r : Resolution) (n : Node) (path : List Nat) (scope : ScopeId) : Prop where
  noted : ∃ q m, q <+: path ∧ n.at? q = some m ∧ r.opened? m = some scope ∧
    ∀ q' m', q' <+: path → q.length < q'.length → n.at? q' = some m' → r.opened? m' = none

variable {r : Resolution} {n : Node} {path : List Nat} {around : ScopeId}

/-- Walks carry the scope noted nearest, or the one they started in if none is noted on the way. -/
theorem nearest_or_of_scopedAt? {w : ScopedNode} (h : scopedAt? r around n path = some w) :
    r.Nearest n path w.scope ∨
      (w.scope = around ∧ ∀ q m, q <+: path → n.at? q = some m → r.opened? m = none) := by
  induction path generalizing n around with
  | nil =>
      obtain rfl : (⟨n, r.scopeAt n around⟩ : ScopedNode) = w := Option.some.inj h
      cases hopened : r.opened? n with
      | none =>
          refine .inr ⟨by rw [Resolution.scopeAt, hopened]; rfl, fun q m hq hm => ?_⟩
          rw [List.prefix_nil.1 hq] at hm
          rwa [← Option.some.inj hm]
      | some scope =>
          refine .inl ⟨[], n, List.prefix_rfl, rfl, ?_, fun q' m' hq' hlt => ?_⟩
          · rw [Resolution.scopeAt, hopened]
            rfl
          · rw [List.prefix_nil.1 hq'] at hlt
            exact absurd hlt (Nat.lt_irrefl _)
  | cons i path ih =>
      obtain ⟨c, hc, h⟩ := Option.bind_eq_some_iff.1 h
      have hat : ∀ q, n.at? (i :: q) = c.at? q := fun q => by rw [Node.at?, hc, Option.bind_some]
      rcases ih h with ⟨q, m, hq, hm, hopened, hnone⟩ | ⟨hscope, hnone⟩
      · refine .inl ⟨i :: q, m, List.cons_prefix_cons.2 ⟨rfl, hq⟩, (hat q).trans hm, hopened, ?_⟩
        intro q' m' hq' hlt hm'
        cases q' with
        | nil => cases hlt
        | cons j q' =>
            obtain ⟨rfl, hpre⟩ := List.cons_prefix_cons.1 hq'
            exact hnone q' m' hpre (Nat.lt_of_succ_lt_succ hlt) ((hat q').symm.trans hm')
      · -- nothing is noted below the node, so it is the node or the scope around it
        cases hopened : r.opened? n with
        | none =>
            refine .inr ⟨by rw [hscope, Resolution.scopeAt, hopened]; rfl, fun q m hq hm => ?_⟩
            cases q with
            | nil => rwa [← Option.some.inj hm]
            | cons j q =>
                obtain ⟨rfl, hpre⟩ := List.cons_prefix_cons.1 hq
                exact hnone q m hpre ((hat q).symm.trans hm)
        | some scope =>
            refine .inl ⟨[], n, List.nil_prefix, rfl, ?_, fun q' m' hq' hlt hm' => ?_⟩
            · rw [hscope, Resolution.scopeAt, hopened]
              rfl
            · cases q' with
              | nil => cases hlt
              | cons j q' =>
                  obtain ⟨rfl, hpre⟩ := List.cons_prefix_cons.1 hq'
                  exact hnone q' m' hpre ((hat q').symm.trans hm')

theorem nearest_of_scopedAt? {w : ScopedNode} {scope : ScopeId} (hroot : r.opened? n = some scope)
    (h : scopedAt? r around n path = some w) : r.Nearest n path w.scope := by
  rcases nearest_or_of_scopedAt? h with hnearest | ⟨-, hnone⟩
  · exact hnearest
  · have := hnone [] n List.nil_prefix rfl
    rw [hroot] at this
    cases this

mutual

/-- What a walk lists is what stands at the paths. -/
theorem mem_scopedWalk : ∀ {n : Node} {around : ScopeId} {w : ScopedNode},
    w ∈ scopedWalk r around n ↔ ∃ path, scopedAt? r around n path = some w
  | .mk k role a b i cs, around, w => by
      rw [scopedWalk, List.mem_cons, mem_scopedWalkAll]
      constructor
      · rintro (rfl | ⟨j, c, path, hc, h⟩)
        · exact ⟨[], rfl⟩
        · exact ⟨j :: path, Option.bind_eq_some_iff.2 ⟨c, hc, h⟩⟩
      · rintro ⟨path, h⟩
        cases path with
        | nil => exact .inl (Option.some.inj h).symm
        | cons j path =>
            obtain ⟨c, hc, h⟩ := Option.bind_eq_some_iff.1 h
            exact .inr ⟨j, c, path, hc, h⟩

theorem mem_scopedWalkAll : ∀ {cs : List Node} {around : ScopeId} {w : ScopedNode},
    w ∈ scopedWalkAll r around cs ↔ ∃ (j : Nat) (c : Node) (path : List Nat), cs[j]? = some c ∧
      scopedAt? r around c path = some w
  | [], around, w => by simp [scopedWalkAll]
  | c :: cs, around, w => by
      rw [scopedWalkAll, List.mem_append, mem_scopedWalk, mem_scopedWalkAll]
      constructor
      · rintro (⟨path, h⟩ | ⟨j, c', path, hc', h⟩)
        · exact ⟨0, c, path, rfl, h⟩
        · exact ⟨j + 1, c', path, hc', h⟩
      · rintro ⟨j, c', path, hc', h⟩
        cases j with
        | zero =>
            obtain rfl : c = c' := by simpa using hc'
            exact .inl ⟨path, h⟩
        | succ j => exact .inr ⟨j, c', path, hc', h⟩

end

theorem node_of_scopedAt? {w : ScopedNode} (h : scopedAt? r around n path = some w) :
    n.at? path = some w.node := by
  induction path generalizing n around with
  | nil => rw [← Option.some.inj h]; rfl
  | cons i path ih =>
      obtain ⟨c, hc, h⟩ := Option.bind_eq_some_iff.1 h
      exact Option.bind_eq_some_iff.2 ⟨c, hc, ih h⟩

/-! ### Agreement -/

/-- Walks that start at a node in the outermost scope of a tree are in the scope that the pass used, at
every node that they share with the pass; `p` is the path to the node they start at.  The names found to
change are collected by one such walk, and the mutations to announce are searched by another. -/
structure Resolution.WalkAgrees (source : Source) (forest : Forest) (r : Resolution) (start : Visit)
    (n : Node) (p : List Nat) : Prop where
  carried : ∀ path v, start.at? source r.root (p ++ path) = some v →
    scopedAt? r r.root n path = some ⟨v.node, v.inner source r.root⟩
  listed : ∀ path v, start.at? source r.root (p ++ path) = some v →
    ∀ w ∈ scopedWalk r r.root n, w.node.id = v.node.id → w.scope = v.inner source r.root ∧
      ∀ name, forest.owner? w.scope name = forest.owner? (v.inner source r.root) name
  announced : ∀ t : Tracking, t.resolution = r → ∀ a ∈ announcements t r.root n,
    ∃ path w, scopedAt? r r.root n path = some w ∧ t.Announces w a ∧
      ∀ v, start.at? source r.root (p ++ path) = some v → w.scope = v.inner source r.root ∧
        ∀ name, forest.owner? w.scope name = forest.owner? (v.inner source r.root) name

/-- What is noted about a tree agrees with the visits of the pass.

* A reference was recorded in the scope noted nearest above it.
* All that is noted belongs to nodes of the tree, and is what a lookup finds; only the outermost scope,
  which is noted for the root first, gives way when the root opens a scope of its own.
* The parent of a scope is the one noted nearest above the node that opened it.
* Walks are in the scopes that the pass used. -/
structure Resolution.Agrees (source : Source) (forest : Forest) (r : Resolution) (start : Visit) :
    Prop where
  reference : ∀ ref ∈ r.references, ∃ path v, start.at? source r.root path = some v ∧
    v.node = ref.node ∧ v.inner source r.root = ref.scope ∧ r.Nearest start.node path ref.scope
  opening : ∀ o ∈ r.openings, ∃ path m, start.node.at? path = some m ∧ m.id = o.node ∧
    (r.opened? m = some o.scope ∨ path = [] ∧ o.scope = r.root)
  parent : ∀ path i m scope, start.node.at? (path ++ [i]) = some m → r.opened? m = some scope →
    ∃ outer, r.Nearest start.node path outer ∧ forest.parent? scope = some outer
  walk : r.WalkAgrees source forest start start.node []

/-- The first visit of a pass over a tree whose outermost scope has just been opened. -/
def firstVisit (n : Node) (forest : Forest) (root : ScopeId) : Visit :=
  ⟨n, false, root, ⟨forest, [⟨n.id, root⟩], [], [], 0⟩⟩

section

variable (source : Source) (forest : Forest) (root : ScopeId)

theorem settled_firstVisit (hids : (n.walk.map Node.id).Nodup) :
    (firstVisit n forest root).Settled source (resolveIn source n forest root).2 := by
  refine ⟨hids, fun m hm => ?_, ?_, fun m _ => rfl⟩
  · rw [Node.walk_eq, List.map_cons, List.nodup_cons] at hids
    refine openedIn_eq_none_iff.2 fun o ho heq => hids.1 ?_
    obtain rfl := List.mem_singleton.1 ho
    obtain heq : n.id = m.id := heq
    exact heq ▸ List.mem_map_of_mem hm
  · simp [firstVisit, openedIn]

theorem traces_firstVisit (n : Node) :
    (firstVisit n forest root).Traces source root (firstVisit n forest root).before
      ((firstVisit n forest root).after source root) :=
  Visit.traces_after n false root _

/-- What is noted for the root is the scope that its visit uses. -/
theorem opened?_firstVisit (hids : (n.walk.map Node.id).Nodup) :
    (resolveIn source n forest root).2.opened? n = some ((firstVisit n forest root).inner source root) := by
  refine (settled_firstVisit source forest root hids).opened?_eq (o := ⟨n.id, root⟩) ?_ rfl
  -- the outermost scope is noted for the root before the pass starts
  obtain ⟨added, hadded, -⟩ :=
    (grows_visitNode source root n false root (firstVisit n forest root).before).openings
  change _ ∈ (visitNode source root false root n (firstVisit n forest root).before).openings
  rw [hadded]
  exact List.mem_append_left _ (List.mem_singleton.2 rfl)

end

variable {forest : Forest} {root : ScopeId}

theorem Script.Node.at?_append (n : Node) (p q : List Nat) : n.at? (p ++ q) = (n.at? p).bind (·.at? q) := by
  induction p generalizing n with
  | nil => rfl
  | cons i p ih =>
      rw [List.cons_append, at?, at?, Option.bind_assoc]
      exact congrArg _ (funext fun c => ih c)

theorem Visit.at?_append (v : Visit) (p q : List Nat) :
    v.at? source root (p ++ q) = (v.at? source root p).bind (·.at? source root q) := by
  induction p generalizing v with
  | nil => rfl
  | cons i p ih =>
      rw [List.cons_append, at?, at?, Option.bind_assoc]
      exact congrArg _ (funext fun w => ih w)

theorem exists_scopedAt?_of_mem_announcements {t : Tracking} {a : Announcement}
    (h : a ∈ announcements t around n) :
    ∃ path w, scopedAt? t.resolution around n path = some w ∧ t.Announces w a := by
  have hall := announces_outermost (t := t) n around
  obtain ⟨k, hk, rfl⟩ := List.getElem_of_mem h
  have hk' : k < (outermost t around n).length := hall.length_eq ▸ hk
  exact ⟨_, hall.get hk' hk⟩

/-- A walk that carries the scopes of the pass lists them and announces in them. -/
theorem Resolution.WalkAgrees.ofCarried {start : Visit} {p : List Nat}
    (hids : (n.walk.map Node.id).Nodup) (hn : start.node.at? p = some n)
    (hcarried : ∀ path v, start.at? source r.root (p ++ path) = some v →
      scopedAt? r r.root n path = some ⟨v.node, v.inner source r.root⟩) :
    r.WalkAgrees source forest start n p where
  carried := hcarried
  listed path v hv w hw hid := by
    obtain ⟨path', hw⟩ := mem_scopedWalk.1 hw
    have hnode : n.at? path = some v.node := by
      have h := Visit.node_at? hv
      rwa [Node.at?_append, hn, Option.bind_some] at h
    obtain rfl := Node.path_eq_of_id_eq hids (node_of_scopedAt? hw) hnode hid
    rw [Option.some.inj (hw.symm.trans (hcarried _ v hv))]
    exact ⟨rfl, fun _ => rfl⟩
  announced t ht a ha := by
    subst ht
    obtain ⟨path, w, hw, hannounces⟩ := exists_scopedAt?_of_mem_announcements ha
    refine ⟨path, w, hw, hannounces, fun v hv => ?_⟩
    rw [Option.some.inj (hw.symm.trans (hcarried _ v hv))]
    exact ⟨rfl, fun _ => rfl⟩

/-- The pass over a tree whose nodes have numbers of their own agrees with the walks over it. -/
theorem agrees_resolveIn (source : Source) (forest : Forest) (root : ScopeId)
    (hids : (n.walk.map Node.id).Nodup) :
    (resolveIn source n forest root).2.Agrees source (resolveIn source n forest root).1
      (firstVisit n forest root) := by
  have hsettled := settled_firstVisit source forest root hids
  have htraces := traces_firstVisit source forest root n
  have hcarried : ∀ path v, (firstVisit n forest root).at? source root path = some v →
      scopedAt? (resolveIn source n forest root).2 root n path = some ⟨v.node, v.inner source root⟩ :=
    fun path v hv => hsettled.scopedAt?_eq hv
  have hnearest : ∀ path v, (firstVisit n forest root).at? source root path = some v →
      (resolveIn source n forest root).2.Nearest n path (v.inner source root) :=
    fun path v hv => nearest_of_scopedAt? (opened?_firstVisit source forest root hids) (hcarried path v hv)
  refine ⟨fun ref href => ?_, fun o ho => ?_, fun path i m scope hm hscope => ?_,
    .ofCarried hids rfl hcarried⟩
  · rcases htraces.references ref href with href | ⟨path, v, hv, hnode, hinner⟩
    · cases href
    · exact ⟨path, v, hv, hnode, hinner, hinner ▸ hnearest path v hv⟩
  · rcases htraces.openings o ho with hfirst | ⟨path, v, hv, hid, hinner, -⟩
    · obtain rfl := List.mem_singleton.1 hfirst
      exact ⟨[], n, rfl, rfl, .inr ⟨rfl, rfl⟩⟩
    · have hopened := (hsettled.at?_settled hv).opened?_eq ho hid
      exact ⟨path, v.node, Visit.node_at? hv, hid, .inl (hopened.trans (congrArg some hinner))⟩
  · rcases htraces.openings _ (exists_of_openedIn hscope) with hfirst | ⟨path', v, hv, hid, -, hparent⟩
    · -- the first entry belongs to the root, which stands at no longer path
      have hid : m.id = n.id := congrArg Opening.node (List.mem_singleton.1 hfirst)
      have hpath := Node.path_eq_of_id_eq hids hm (show n.at? [] = some n from rfl) hid
      simp at hpath
    · obtain rfl := Node.path_eq_of_id_eq hids (Visit.node_at? hv) hm hid
      rw [Visit.at?_append] at hv
      obtain ⟨u, hu, hv⟩ := Option.bind_eq_some_iff.1 hv
      obtain ⟨w, hw, hv⟩ := Option.bind_eq_some_iff.1 hv
      obtain rfl : w = v := Option.some.inj hv
      rw [(Visit.child?_cases hw).2.1] at hparent
      exact ⟨u.inner source root, hnearest path u hu, hparent⟩

/-! ### Scripts and handlers -/

theorem nodup_ids_parseProgram? {cs : List Char} (h : parseProgram? cs = some n) :
    (n.walk.map Node.id).Nodup := by
  obtain ⟨result, -, rfl⟩ := Option.map_eq_some_iff.1 h
  exact result.1.nodup_ids_number

/-- The one expression of a program stands in it. -/
theorem walk_sublist_of_onlyExpression? {size : Nat} {program inner : Node}
    (h : onlyExpression? size program = some inner) : inner.walk.Sublist program.walk := by
  have hchild : ∀ {c n : Node}, c ∈ n.children → c.walk.Sublist n.walk := fun {c n} hc => by
    rw [n.walk_eq]
    exact (Node.walk_sublist_walkAll hc).cons _
  unfold onlyExpression? at h
  split at h
  · next statement hstatement =>
      split at h
      · split at h
        · next outer houter =>
            split at h
            · split at h
              · next inner' hinner =>
                  cases h
                  refine (hchild (n := outer) ?_).trans
                    ((hchild (n := statement) ?_).trans (hchild (n := program) ?_))
                  · rw [hinner]; exact List.mem_singleton.2 rfl
                  · rw [houter]; exact List.mem_singleton.2 rfl
                  · rw [hstatement]; exact List.mem_singleton.2 rfl
              · cases h
            · cases h
        · cases h
      · cases h
  · cases h

theorem nodup_ids_embedded? {slice : List Char} {offset : Nat} {e : Embedded}
    (h : embedded? slice offset = some e) : (e.node.walk.map Node.id).Nodup := by
  obtain ⟨source, hsource, h⟩ := Option.bind_eq_some_iff.1 h
  obtain ⟨node, hnode, h⟩ := Option.bind_eq_some_iff.1 h
  obtain ⟨program, hprogram, rfl⟩ := Option.map_eq_some_iff.1 hsource
  cases h
  exact (nodup_ids_parseProgram? hprogram).sublist ((walk_sublist_of_onlyExpression? hnode).map _)

/-- The scope that the first visit uses: a new one if the root opens one, and else the outermost one. -/
theorem inner_firstVisit (source : Source) (n : Node) (forest : Forest) (root : ScopeId) :
    (firstVisit n forest root).inner source root =
      if n.kind.opens?.isSome then forest.scopes.length else root := by
  rw [Visit.inner, firstVisit, enterNode]
  cases n.kind.opens? <;> rfl

theorem parent?_resolveIn {i : ScopeId} (source : Source) (n : Node) (root : ScopeId)
    (hi : i < forest.scopes.length) :
    (resolveIn source n forest root).1.parent? i = forest.parent? i :=
  (grows_visitNode source root n false root (firstVisit n forest root).before).parent?_of_lt hi

theorem parent?_own {kind : ScopeKind} (source : Source) (hroot : root < forest.scopes.length)
    (hkind : n.kind.opens? = some kind) :
    (resolveIn source n forest root).1.parent? forest.scopes.length = some root := by
  have hinner : (firstVisit n forest root).inner source root = forest.scopes.length := by
    rw [inner_firstVisit, hkind]
    rfl
  have hentered : Entered n root (firstVisit n forest root).before
      ((firstVisit n forest root).entered source root) ((firstVisit n forest root).inner source root) :=
    (firstVisit n forest root).entered_inner
  have hparent : ((firstVisit n forest root).entered source root).forest.parent? forest.scopes.length =
      some root := by
    generalize (firstVisit n forest root).inner source root = inner at hinner hentered
    generalize (firstVisit n forest root).entered source root = s' at hentered
    cases hentered with
    | stays => exact absurd hinner (Nat.ne_of_lt hroot)
    | opens _ _ houtline _ =>
        rw [Forest.parent?_eq, houtline]
        simp [firstVisit, Forest.outline]
  have hafter : (resolveIn source n forest root).1 =
      ((firstVisit n forest root).after source root).forest := rfl
  rw [hafter, Visit.after_eq]
  exact (grows_visitChildren source root _ _ _ _).parent?_eq hparent

/-- The first visit of the pass over a script. -/
def scriptVisit (source : Source) : Visit :=
  firstVisit source.root (Forest.empty.addScope "module" .module none).1 0

/-- The first visit of the pass over a handler that sees a scope opened before. -/
def handlerVisit (n : Node) (forest : Forest) (around : ScopeId) : Visit :=
  firstVisit n (forest.addScope "expression" .function (some around)).1 forest.scopes.length

/-- In a script the outermost scope is noted for the root and has no parent, so walks may also start at a
statement. -/
theorem resolveScript_agrees {text : List Char} {offset : Nat} (h : Source.ofScript? text offset = some source) :
    let pass := resolveScript source
    pass.2.Agrees source pass.1 (scriptVisit source) ∧
      pass.2.opened? source.root = some pass.2.root ∧ pass.1.parent? pass.2.root = none ∧
      ∀ i statement, source.statements[i]? = some statement →
        pass.2.WalkAgrees source pass.1 (scriptVisit source) statement [i] := by
  intro pass
  obtain ⟨program, hprogram, rfl⟩ := Option.map_eq_some_iff.1 h
  have hids := nodup_ids_parseProgram? hprogram
  have hagrees : pass.2.Agrees _ pass.1 (scriptVisit _) := agrees_resolveIn _ _ _ hids
  have hroot : pass.2.opened? program = some pass.2.root := by
    refine (opened?_firstVisit _ _ _ hids).trans ?_
    rw [inner_firstVisit, (parseProgram?_placed hprogram).1]
    rfl
  refine ⟨hagrees, hroot, parent?_resolveIn _ program _ Nat.one_pos, fun i statement hi => ?_⟩
  have hsub : statement.walk.Sublist program.walk := by
    rw [program.walk_eq]
    exact (Node.walk_sublist_walkAll (List.mem_of_getElem? hi)).cons _
  have hstatement : program.at? [i] = some statement := Option.bind_eq_some_iff.2 ⟨statement, hi, rfl⟩
  refine .ofCarried (hids.sublist (hsub.map _)) hstatement fun path v hv => ?_
  -- a walk from the root goes into the statement with the outermost scope
  have hcarried := hagrees.walk.carried (i :: path) v hv
  obtain ⟨c, hc, hcarried⟩ := Option.bind_eq_some_iff.1 hcarried
  obtain rfl : c = statement := Option.some.inj (hc.symm.trans hi)
  have hscope : pass.2.scopeAt program pass.2.root = pass.2.root := by
    rw [Resolution.scopeAt, hroot]
    rfl
  rwa [scriptVisit, firstVisit, hscope] at hcarried

/-- In a handler the outermost scope is the fresh one of the handler.  It is the parent of the scope that
the handler's own node opens, and else it is noted for the node. -/
theorem resolveHandler_agrees {rest : List Char} {offset stop : Nat} {e : Embedded}
    (h : parseEmbedded rest offset = .ok (e, stop)) (before : Forest) (around : ScopeId) :
    let pass := resolveHandler e.toSource e.node before around
    pass.2.Agrees e.toSource pass.1 (handlerVisit e.node before around) ∧
      pass.1.parent? pass.2.root = some around ∧
      (e.node.kind.opens? = none → pass.2.opened? e.node = some pass.2.root) ∧
      ∀ kind, e.node.kind.opens? = some kind → ∃ own, pass.2.opened? e.node = some own ∧
        own ≠ pass.2.root ∧ pass.1.parent? own = some pass.2.root := by
  intro pass
  obtain ⟨inner, -, -, -, he⟩ := parseEmbedded_eq_ok h
  have hids := nodup_ids_embedded? he
  have hlt : before.scopes.length < (before.addScope "expression" .function (some around)).1.scopes.length := by
    simp [Forest.addScope]
  have hroot := opened?_firstVisit e.toSource (before.addScope "expression" .function (some around)).1
    before.scopes.length hids
  rw [inner_firstVisit] at hroot
  refine ⟨agrees_resolveIn _ _ _ hids, ?_, fun hkind => ?_, fun kind hkind => ?_⟩
  · refine (parent?_resolveIn e.toSource e.node _ hlt).trans ?_
    simp [Forest.addScope, Forest.parent?, Forest.get?]
  · rw [hkind] at hroot
    exact hroot
  · rw [hkind] at hroot
    exact ⟨_, hroot, Nat.ne_of_gt hlt, parent?_own e.toSource hlt hkind⟩

/-- **The pass that opens scopes and the walks that look them up agree**, over every script and over every
handler, whatever scopes were opened before it. -/
theorem resolve_agrees :
    (∀ (text : List Char) (offset : Nat) (source : Source), Source.ofScript? text offset = some source →
      let pass := resolveScript source
      pass.2.Agrees source pass.1 (scriptVisit source) ∧
        pass.2.opened? source.root = some pass.2.root ∧ pass.1.parent? pass.2.root = none ∧
        ∀ i statement, source.statements[i]? = some statement →
          pass.2.WalkAgrees source pass.1 (scriptVisit source) statement [i]) ∧
    (∀ (rest : List Char) (offset stop : Nat) (e : Embedded) (before : Forest) (around : ScopeId),
      parseEmbedded rest offset = .ok (e, stop) →
      let pass := resolveHandler e.toSource e.node before around
      pass.2.Agrees e.toSource pass.1 (handlerVisit e.node before around) ∧
        pass.1.parent? pass.2.root = some around ∧
        (e.node.kind.opens? = none → pass.2.opened? e.node = some pass.2.root) ∧
        ∀ kind, e.node.kind.opens? = some kind → ∃ own, pass.2.opened? e.node = some own ∧
          own ≠ pass.2.root ∧ pass.1.parent? own = some pass.2.root) :=
  ⟨fun _ _ _ h => resolveScript_agrees h,
    fun _ _ _ _ before around h => resolveHandler_agrees h before around⟩

/-- A script with a loop in a function, and a handler that is a function and is visited behind it. -/
theorem resolve_agrees_counter :
    ∃ source e stop, Source.ofScript?
        "let n = 0; function add(k) \x7b for (let i = 0; i < k; i++) \x7b n += i \x7d \x7d".toList 8 =
          some source ∧
      parseEmbedded "k => \x7b n = k \x7d\x7d".toList 90 = .ok (e, stop) ∧
      let script := resolveScript source
      let handler := resolveHandler e.toSource e.node script.1 script.2.root
      (script.2.Agrees source script.1 (scriptVisit source) ∧ script.2.openings.length = 4 ∧
        script.2.references.length = 5) ∧
      (handler.2.Agrees e.toSource handler.1 (handlerVisit e.node script.1 script.2.root) ∧
        handler.2.openings.length = 2 ∧ handler.2.references.length = 2) := by
  have hrun : ((Source.ofScript?
      "let n = 0; function add(k) \x7b for (let i = 0; i < k; i++) \x7b n += i \x7d \x7d".toList 8).any
      fun source => match parseEmbedded "k => \x7b n = k \x7d\x7d".toList 90 with
        | .ok (e, _) =>
            let script := resolveScript source
            let handler := resolveHandler e.toSource e.node script.1 script.2.root
            script.2.openings.length == 4 && script.2.references.length == 5 &&
              handler.2.openings.length == 2 && handler.2.references.length == 2
        | .error _ => false) = true := by
    decide +kernel
  obtain ⟨source, hsource, hrun⟩ := (Option.any_eq_true _ _).1 hrun
  split at hrun
  · next e stop he =>
      simp only [Bool.and_eq_true, beq_iff_eq] at hrun
      obtain ⟨⟨⟨hopenings, hreferences⟩, hopenings'⟩, hreferences'⟩ := hrun
      exact ⟨source, e, stop, hsource, he, ⟨(resolve_agrees.1 _ _ _ hsource).1, hopenings, hreferences⟩,
        (resolve_agrees.2 _ _ _ _ _ _ he).1, hopenings', hreferences'⟩
  · cases hrun

end ReactiveTemplate

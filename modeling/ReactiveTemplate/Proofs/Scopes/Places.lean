/-
**The scopes that the pass opens are those of the tree.**

Visits go along the paths of a tree.  The scope that is used at a node is the innermost one of the scoping
rules, its chain is made of the scopes around the node, and variables are hoisted to the nearest function
among them.  The pass leaves out imports, and of functions all but parameters and body.  What it leaves out
declares nothing, as names are just words, unless it is the computed name of a method.  Scopes are therefore
numbered as they stand in the source.

Main definitions:

* `ReactiveTemplate.Visit.Starts` — the first visit of the pass over a script;
* `ReactiveTemplate.Visit.scopeOf` — the number of the scope that is used at a path;
* `ReactiveTemplate.Script.Node.Unread` — what the nodes are that are not visited.

Main results:

* `ReactiveTemplate.Visit.Starts.chain_inner` — the chain of a scope is the scopes around its node;
* `ReactiveTemplate.Visit.Starts.quiet_of_unvisited` — what is not visited declares nothing;
* `ReactiveTemplate.Visit.Starts.scopeOf_scopePaths` — scopes are numbered in source order;
* `ReactiveTemplate.Visit.Starts.scopeOf_homeAt` — names are declared in the scopes of their homes.
-/

import ReactiveTemplate.Proofs.Scopes.Rules

set_option relaxedAutoImplicit false
set_option autoImplicit false

namespace ReactiveTemplate

open Script

variable {source : Source}

/-! ### Visits and the scopes of the tree -/

/-- When a block shares the scope of its parent. -/
theorem treatment_eq_share_iff {k : Kind} {c : Node} : treatment k c = .share ↔
    c.kind = .statementBlock ∧ (k.isFunction = true ∧ c.role = .body ∨ k = .catchClause) := by
  have hcatch : k = .catchClause → k.isFunction = false := by
    rintro rfl
    rfl
  rw [treatment]
  split_ifs <;> grind

/-- The parts of a tree that are not visited are those of imports, and of functions besides parameters
and body. -/
theorem treatment_eq_skip_iff {k : Kind} {c : Node} : treatment k c = .skip ↔
    k.isFunction = true ∧ c.role ≠ .parameters ∧ c.role ≠ .body ∨ k = .importStatement := by
  have himport : k = .importStatement → k.isFunction = false := by
    rintro rfl
    rfl
  rw [treatment]
  split_ifs <;> grind

namespace Visit

variable {root : ScopeId} {v w : Visit} {p : List Nat} {i : Nat}

theorem at?_append_singleton : v.at? source root (p ++ [i]) = some w ↔
    ∃ u, v.at? source root p = some u ∧ u.child? source root i = some w := by
  rw [at?_append, Option.bind_eq_some_iff]
  refine exists_congr fun u => and_congr_right fun _ => ?_
  simp [at?]

/-- Whether the node of a visit opens a scope. -/
def opens (w : Visit) : Bool :=
  !w.shared && w.node.kind.opens?.isSome

/-- The scope at a node is its own, or the one around it. -/
theorem inner_eq (w : Visit) : w.inner source root =
    if w.opens then w.before.forest.scopes.length else w.around := by
  rw [inner, enterNode, opens]
  cases w.shared with
  | true => rfl
  | false => cases w.node.kind.opens? <;> rfl

theorem treatment_of_child? (h : v.child? source root i = some w) :
    treatment v.node.kind w.node ≠ .skip ∧ w.shared = (treatment v.node.kind w.node == .share) := by
  obtain ⟨c, -, h⟩ := Option.bind_eq_some_iff.1 h
  split at h
  · cases h
  · next hskip =>
      cases h
      exact ⟨hskip, rfl⟩

/-- The scope of a visit is shared when its node is a body. -/
theorem shared_eq (hv : v.shared = false) (hw : v.at? source root p = some w) :
    w.shared = v.node.isBody p := by
  induction p using List.reverseRecOn with
  | nil =>
      obtain rfl : v = w := Option.some.inj hw
      rw [hv, Node.isBody_nil]
  | append_singleton p i _ =>
      have hnode := node_at? hw
      obtain ⟨u, hu, hw⟩ := at?_append_singleton.1 hw
      rw [Node.isBody, Node.parentAt?_append_singleton, node_at? hu, hnode, (treatment_of_child? hw).2]
      rw [Bool.eq_iff_iff, beq_iff_eq, treatment_eq_share_iff]
      simp

theorem opens_eq (hv : v.shared = false) (hw : v.at? source root p = some w) :
    w.opens = v.node.opensScope p := by
  rw [opens, shared_eq hv hw, Node.opensScope_eq (node_at? hw), Bool.and_comm]

/-- What a visit notes about the scope that it opens. -/
theorem outline_opened (hv : v.Inside) (hw : v.at? source root p = some w) (hopens : w.opens = true) :
    ∃ kind, w.node.kind.opens? = some kind ∧
      (v.after source root).forest.outline[w.inner source root]? = some (kind, some w.around) := by
  have hinside : w.around < w.before.forest.outline.length := hv.at? hw
  have hinner : w.inner source root = w.before.forest.scopes.length := by rw [inner_eq, if_pos hopens]
  obtain ⟨more, hmore⟩ := outline_entered_initial hw
  have hentered : Entered w.node w.around w.before (w.entered source root) (w.inner source root) :=
    w.entered_inner
  rw [← hmore]
  generalize w.inner source root = inner at hinner hentered
  generalize w.entered source root = s' at hentered
  cases hentered with
  | stays => exact absurd hinner (Nat.ne_of_lt (length_outline _ ▸ hinside))
  | opens hkind _ houtline _ =>
      refine ⟨_, hkind, ?_⟩
      rw [houtline, ← length_outline]
      simp

variable (source) in
/-- The scope that is used at a path. -/
def scopeOf (v : Visit) (q : List Nat) : ScopeId :=
  ((v.at? source 0 q).map (inner source 0)).getD 0

theorem scopeOf_eq (hw : v.at? source 0 p = some w) : v.scopeOf source p = w.inner source 0 := by
  rw [scopeOf, hw]
  rfl

/-- The first visit of the pass over a script: only the outermost scope has been opened. -/
structure Starts (v : Visit) : Prop where
  kind : v.node.kind = .program
  whole : v.node.Whole
  ids : (v.node.walk.map Node.id).Nodup
  shared : v.shared = false
  around : v.around = 0
  scopes : v.before.forest.scopes = [⟨"module", .module, none, []⟩]
  openings : v.before.openings = [⟨v.node.id, 0⟩]

namespace Starts

theorem inside (hv : v.Starts) : v.Inside := by
  rw [Inside, length_outline, hv.scopes, hv.around]
  exact Nat.one_pos

theorem opens_eq_false (hv : v.Starts) : v.opens = false := by
  rw [Visit.opens, hv.kind, Bool.and_eq_false_iff]
  exact .inr rfl

theorem inner_eq_zero (hv : v.Starts) : v.inner source root = 0 := by
  rw [Visit.inner_eq, hv.opens_eq_false, hv.around]
  rfl

theorem outline_before (hv : v.Starts) : v.before.forest.outline = [(.module, none)] := by
  rw [Forest.outline, hv.scopes]
  rfl

theorem numbered (hv : v.Starts) : v.before.Numbered := by
  refine ⟨by rw [hv.openings, hv.scopes]; rfl, fun i kind q hi => ?_⟩
  rw [hv.outline_before, List.getElem?_singleton] at hi
  split at hi <;> cases hi

theorem ordered_after (hv : v.Starts) : (v.after source root).forest.Ordered :=
  (hv.numbered.after hv.inside).1.ordered

/-- The outermost scope has no scope around it. -/
theorem outline_root (hv : v.Starts) : (v.after source root).forest.outline[0]? = some (.module, none) := by
  obtain ⟨more, hmore⟩ := (grows_visitNode source root v.node v.shared v.around v.before).outline
  rw [Visit.after, ← hmore, hv.outline_before]
  rfl

theorem scopeOf_nil (hv : v.Starts) : v.scopeOf source [] = 0 :=
  (scopeOf_eq (w := v) rfl).trans hv.inner_eq_zero

/-- **The chain of the scope at a node** is made of the scopes around the node. -/
theorem chain_inner (hv : v.Starts) (hw : v.at? source 0 p = some w) :
    (v.after source 0).forest.chain (w.inner source 0) = (v.node.scopesAt p).map (v.scopeOf source) := by
  -- along the path, a node that opens a scope puts it in front of the scopes around the node
  induction p using List.reverseRecOn generalizing w with
  | nil =>
      obtain rfl : v = w := Option.some.inj hw
      have hparent : (v.after source 0).forest.parent? 0 = none := by
        rw [Forest.parent?_eq, hv.outline_root]
        rfl
      rw [hv.inner_eq_zero, Forest.Ordered.chain_of_root hparent, Node.scopesAt_nil, List.map_singleton,
        hv.scopeOf_nil]
  | append_singleton p i ih =>
      obtain ⟨u, hu, hchild⟩ := at?_append_singleton.1 hw
      have haround : w.around = u.inner source 0 := (child?_cases hchild).2.1
      have hopens := Visit.opens_eq hv.shared hw
      rw [Node.scopesAt_append_singleton, ← hopens]
      cases ho : w.opens with
      | true =>
          obtain ⟨kind, -, houtline⟩ := outline_opened hv.inside hw ho
          have hparent : (v.after source 0).forest.parent? (w.inner source 0) = some (u.inner source 0) := by
            rw [Forest.parent?_eq, houtline, haround]
            rfl
          rw [hv.ordered_after.chain_of_parent? hparent, ih hu, if_pos rfl, List.map_cons, scopeOf_eq hw]
      | false =>
          rw [Visit.inner_eq, ho, if_neg Bool.false_ne_true, haround, ih hu, if_neg Bool.false_ne_true]

/-- The innermost scope at a node is the one that its visit uses. -/
theorem scopeOf_innermost (hv : v.Starts) (hw : v.at? source 0 p = some w) :
    v.scopeOf source ((v.node.scopesAt p).headD []) = w.inner source 0 := by
  have hhead : ((v.after source 0).forest.chain (w.inner source 0)).head? = some (w.inner source 0) := by
    cases hparent : (v.after source 0).forest.parent? (w.inner source 0) with
    | none => rw [Forest.Ordered.chain_of_root hparent, List.head?_cons]
    | some q => rw [hv.ordered_after.chain_of_parent? hparent, List.head?_cons]
  rw [hv.chain_inner hw] at hhead
  cases hscopes : v.node.scopesAt p with
  | nil =>
      rw [hscopes] at hhead
      cases hhead
  | cons q qs =>
      rw [hscopes] at hhead
      exact Option.some.inj hhead

/-- The scope around a node is the innermost one at its parent. -/
theorem scopeOf_around (hv : v.Starts) (hw : v.at? source 0 p = some w) :
    v.scopeOf source ((v.node.scopesAt p.dropLast).headD []) = w.around := by
  induction p using List.reverseRecOn with
  | nil =>
      obtain rfl : v = w := Option.some.inj hw
      exact hv.scopeOf_nil.trans hv.around.symm
  | append_singleton p i _ =>
      obtain ⟨u, hu, hchild⟩ := at?_append_singleton.1 hw
      rw [List.dropLast_concat, hv.scopeOf_innermost hu, (child?_cases hchild).2.1]

/-- Variables are hoisted to the nearest function around a node. -/
theorem scopeOf_hoisted (hv : v.Starts) (hw : v.at? source 0 p = some w) :
    v.scopeOf source (((v.node.scopesAt p).find? v.node.isFunctionAt).getD []) =
      (v.after source 0).forest.closestFunction (w.inner source 0) := by
  induction p using List.reverseRecOn generalizing w with
  | nil =>
      obtain rfl : v = w := Option.some.inj hw
      have hstops : (v.after source 0).forest.passesHoisted 0 = false := by
        rw [Forest.passesHoisted_eq, hv.outline_root]
        rfl
      have hfind : ([[]].find? v.node.isFunctionAt).getD [] = [] := by
        cases h : v.node.isFunctionAt [] <;> simp [h]
      rw [hv.inner_eq_zero, Forest.Ordered.closestFunction_of_stops hstops, Node.scopesAt_nil, hfind,
        hv.scopeOf_nil]
  | append_singleton p i ih =>
      have hnode := node_at? hw
      obtain ⟨u, hu, hchild⟩ := at?_append_singleton.1 hw
      have haround : w.around = u.inner source 0 := (child?_cases hchild).2.1
      have hopens := Visit.opens_eq hv.shared hw
      rw [Node.scopesAt_append_singleton, ← hopens]
      cases ho : w.opens with
      | false =>
          rw [Visit.inner_eq, ho, if_neg Bool.false_ne_true, if_neg Bool.false_ne_true, haround, ih hu]
      | true =>
          obtain ⟨kind, hkind, houtline⟩ := outline_opened hv.inside hw ho
          have hfunction : v.node.isFunctionAt (p ++ [i]) = w.node.kind.isFunction := by
            rw [Node.isFunctionAt, hnode]
            rfl
          rw [if_pos rfl, List.find?_cons, hfunction]
          unfold Kind.opens? at hkind
          split at hkind
          · next hk =>
              -- a function keeps what is hoisted to it
              obtain rfl : .function = kind := Option.some.inj hkind
              have hstops : (v.after source 0).forest.passesHoisted (w.inner source 0) = false := by
                rw [Forest.passesHoisted_eq, houtline]
                rfl
              rw [Forest.Ordered.closestFunction_of_stops hstops, hk]
              exact scopeOf_eq hw
          · next hk =>
              -- what is hoisted passes any other scope
              split at hkind
              · obtain rfl : .block = kind := Option.some.inj hkind
                rw [hv.ordered_after.closestFunction_of_block houtline, haround, Bool.eq_false_iff.2 hk]
                exact ih hu
              · cases hkind

end Starts

end Visit

/-! ### What is not visited -/

/-- A child that is alone in its role is found. -/
theorem Script.Node.child?_of_nodup {n c : Node} (h : (n.children.map Node.role).Nodup) (hc : c ∈ n.children) :
    n.child? c.role = some c := by
  obtain ⟨before, after, hsplit⟩ := List.append_of_mem hc
  have hfront : ∀ d ∈ before, (d.role == c.role) = false := by
    intro d hd
    rw [hsplit, List.map_append, List.nodup_append] at h
    exact beq_eq_false_iff_ne.2 (h.2.2 _ (List.mem_map_of_mem hd) _ (List.mem_map_of_mem (List.mem_cons_self ..)))
  rw [child?, hsplit, List.find?_append, List.find?_eq_none.2 (by simpa using hfront)]
  simp

/-- A name that is neither among the parameters nor in the body of a function is one that the function
declares. -/
theorem mem_sites_of_isName {f c : Node} (hfunction : f.kind.isFunction = true)
    (hroles : (f.children.map Node.role).Nodup) (hc : c ∈ f.children) (hname : c.IsName)
    (hrole : c.role = .parameter ∨ c.role = .name ∧ f.kind ≠ .methodDefinition ∧ f.kind ≠ .arrowFunction) :
    c ∈ f.sites.map Prod.snd := by
  have hfound := Node.child?_of_nodup hroles hc
  have hleaf : boundLeaves c = [c] := boundLeaves_of_bound (by rw [hname.1]; rfl)
  have hsite (home : Home) (h : (home, c) ∈ f.bindings) : c ∈ f.sites.map Prod.snd := by
    refine List.mem_map.2 ⟨(home, c), List.mem_flatMap.2 ⟨(home, c), h, ?_⟩, rfl⟩
    simp [hleaf]
  have hkinds := Kind.eq_of_isFunction hfunction
  rcases hrole with hrole | ⟨hrole, hmethod, harrow⟩
  · rw [hrole] at hfound
    refine hsite .own ?_
    rcases hkinds with hk | hk | hk | hk | hk | hk <;> simp [Node.bindings, hk, hfound]
  · rw [hrole] at hfound
    rcases hkinds with hk | hk | hk | hk | hk | hk
    · exact hsite .around (by simp [Node.bindings, hk, hfound])
    · exact hsite .around (by simp [Node.bindings, hk, hfound])
    · exact hsite .own (by simp [Node.bindings, hk, hfound])
    · exact hsite .own (by simp [Node.bindings, hk, hfound])
    · exact absurd hk harrow
    · exact absurd hk hmethod

/-- What an unvisited node may be: it declares nothing, and a name among them stands in an import or is
declared by a function. -/
structure Script.Node.Unread (n : Node) (p : List Nat) (m : Node) : Prop where
  quiet : m.kind.introduces = false
  name : m.kind.isReference = true → ∃ q f, q <+: p ∧ n.at? q = some f ∧
    (f.kind = .importStatement ∨ m ∈ f.sites.map Prod.snd)

namespace Visit.Starts

variable {v w : Visit} {p : List Nat} {m : Node}

/-- The pass does not go into computed names of methods. -/
theorem inMethodName_eq_false (hw : v.at? source 0 p = some w) :
    v.node.inMethodName p = false := by
  rw [Node.inMethodName, List.any_eq_false]
  intro q hq
  obtain ⟨rest, rfl⟩ := (List.mem_inits q p).1 hq
  rw [at?_append] at hw
  obtain ⟨u, hu, -⟩ := Option.bind_eq_some_iff.1 hw
  induction q using List.reverseRecOn with
  | nil => simp
  | append_singleton q i _ =>
      have hnode := node_at? hu
      obtain ⟨u', hu', hchild⟩ := at?_append_singleton.1 hu
      have hskip := (treatment_of_child? hchild).1
      rw [Node.parentAt?_append_singleton, node_at? hu', hnode]
      intro h
      obtain ⟨⟨hkind, hrole⟩, -⟩ : (u'.node.kind = .methodDefinition ∧ u.node.role = .name) ∧ _ := by
        simpa using h
      exact hskip (treatment_eq_skip_iff.2 (.inl ⟨by rw [hkind]; rfl, by rw [hrole]; decide, by rw [hrole]; decide⟩))

/-- **What is not visited declares nothing**, except in computed names of methods. -/
theorem quiet_of_unvisited (hv : v.Starts) (hm : v.node.at? p = some m) (hnone : v.at? source 0 p = none)
    (hname : v.node.inMethodName p = false) : v.node.Unread p m := by
  obtain ⟨q, i, rest, u, c, rfl, hu, hc, hskip, hm'⟩ := exists_skipped hm hnone
  have hpre : q <+: q ++ i :: rest := List.prefix_append _ _
  have hfits := (hv.whole.of_mem_walk (Node.mem_walk_of_at? (node_at? hu))).fits
  have hmem : c ∈ u.node.children := List.mem_of_getElem? hc
  -- a part that is just a name has nothing below it
  have hleaf (h : c.IsName) (hrole : c.role = .parameter ∨
      c.role = .name ∧ u.node.kind ≠ .methodDefinition ∧ u.node.kind ≠ .arrowFunction)
      (hfunction : u.node.kind.isFunction = true) : v.node.Unread (q ++ i :: rest) m := by
    cases rest with
    | nil =>
        obtain rfl : c = m := Option.some.inj hm'
        refine ⟨by rw [h.1]; rfl, fun _ => ⟨q, u.node, hpre, node_at? hu, .inr ?_⟩⟩
        exact mem_sites_of_isName hfunction (hfits.1 hfunction).1 hmem h hrole
    | cons j rest =>
        rw [Node.at?, h.2] at hm'
        cases hm'
  rcases treatment_eq_skip_iff.1 hskip with ⟨hfunction, hparameters, hbody⟩ | himport
  · rcases (hfits.1 hfunction).2 c hmem with h | h | ⟨hrole, h⟩ | ⟨hrole, h⟩
    · exact absurd h hparameters
    · exact absurd h hbody
    · exact hleaf h (.inl hrole) hfunction
    · split at h
      · next hmethod =>
          rcases h with hcomputed | hinert
          · -- the part is a computed name, which is excluded
            rw [Node.inMethodName, List.any_eq_false] at hname
            refine absurd ?_ (hname (q ++ [i]) ((List.mem_inits _ _).2 ⟨rest, by simp⟩))
            have hat : v.node.at? (q ++ [i]) = some c := by
              rw [Node.at?_append, node_at? hu, Option.bind_some, Node.at?, hc]
              rfl
            rw [Node.parentAt?_append_singleton, node_at? hu, hat]
            simp [hmethod, hrole, hcomputed]
          · have hkind := hinert m (Node.mem_walk_of_at? hm')
            obtain ⟨hquiet, hread⟩ : m.kind.introduces = false ∧ m.kind.isReference = false := by
              simpa [Kind.isInert] using hkind
            exact ⟨hquiet, fun h => absurd h (by simp [hread])⟩
      · next hmethod => exact hleaf h.1 (.inr ⟨hrole, hmethod, h.2⟩) hfunction
  · have hkind := hfits.2 himport c hmem m (Node.mem_walk_of_at? hm')
    exact ⟨by simpa using hkind, fun _ => ⟨q, u.node, hpre, node_at? hu, .inl himport⟩⟩

end Visit.Starts

/-! ### Numbers of scopes -/

namespace Visit

variable {root : ScopeId} {v w : Visit} {p q : List Nat}

/-- The state when the scope of a node has been opened and nothing is declared yet. -/
def opened (w : Visit) : Resolver :=
  match w.shared, w.node.kind.opens? with
  | false, some kind => (w.before.openScope w.node kind w.around).1
  | _, _ => w.before

/-- What happens at a node: its scope is opened, its names are declared, and it may be recorded. -/
theorem entered_eq (hshared : w.shared = true → w.node.kind = .statementBlock) :
    w.entered source root =
      let s := declareNames source root w.node w.around (w.inner source root) w.opened
      if w.node.kind.isReference then s.refer w.node w.around else s := by
  rw [entered, inner, opened, enterNode]
  cases hs : w.shared with
  | true =>
      simp only [declareNames, hshared hs, Kind.isFunction, Kind.isFunctionDeclaration,
        Kind.isFunctionExpression, Kind.isForLoop, Kind.isReference]
      rfl
  | false =>
      cases hkind : w.node.kind.opens? with
      | none => rfl
      | some kind =>
          have href : w.node.kind.isReference = false := by
            cases hk : w.node.kind <;> first | rfl | (rw [hk] at hkind; cases hkind)
          simp only [href]
          rfl

theorem forest_refer (r : Resolver) (n : Node) (i : ScopeId) : (r.refer n i).forest = r.forest := by
  rw [Resolver.refer]
  split <;> rfl

theorem forest_entered (hshared : w.shared = true → w.node.kind = .statementBlock) :
    (w.entered source root).forest = w.opened.forest.declareAll source (w.node.sites.map fun site =>
      (site.1.scope root w.around (w.inner source root) (w.opened.forest.closestFunction w.around), site.2)) := by
  rw [entered_eq hshared]
  dsimp only
  split
  · rw [forest_refer, forest_declareNames]
  · rw [forest_declareNames]

theorem openings_entered (w : Visit) : (w.entered source root).openings =
    w.before.openings ++ if w.opens then [⟨w.node.id, w.inner source root⟩] else [] := by
  have hdeclares : ∀ (inner : ScopeId) (s : Resolver),
      (declareNames source root w.node w.around inner s).openings = s.openings :=
    fun inner s => (declares_declareNames (p := fun _ => True) trivial trivial trivial trivial w.node).openings
  rw [entered, inner, opens, enterNode]
  cases w.shared with
  | true => simp
  | false =>
      cases w.node.kind.opens? with
      | some kind => exact hdeclares _ _
      | none =>
          simp only [Bool.not_false, Option.isSome_none, Bool.and_false, Bool.false_eq_true, if_false,
            List.append_nil]
          split
          · simp only [Resolver.refer]
            split <;> exact hdeclares _ _
          · exact hdeclares _ _

theorem statementBlock_of_shared (hv : v.shared = false) (hw : v.at? source root p = some w)
    (hshared : w.shared = true) : w.node.kind = .statementBlock :=
  Node.kind_of_isBody (node_at? hw) (shared_eq hv hw ▸ hshared)

/-- The openings that the visits of a tree note. -/
theorem openings_after (v : Visit) : (v.after source root).openings =
    v.before.openings ++ (v.visits source root).flatMap fun w =>
      if w.opens then [⟨w.node.id, w.inner source root⟩] else [] :=
  v.run_visits.append_eq Resolver.openings _ fun w _ => openings_entered w

namespace Starts

variable (source) in
/-- **Scopes are numbered in source order.** -/
theorem scopeOf_scopePaths (hv : v.Starts) : v.node.scopePaths.map (v.scopeOf source) =
    List.range (v.after source 0).forest.scopes.length := by
  have hpaths : ((v.visits source 0).flatMap fun w =>
      (if w.opens then [(⟨w.node.id, w.inner source 0⟩ : Opening)] else []).map Opening.scope) =
      (v.node.paths.filter fun p => v.node.opensScope p && !v.node.inMethodName p).map (v.scopeOf source) := by
    rw [← List.filterMap_eq_map (f := v.scopeOf source), List.filterMap_filter, List.filterMap_eq_flatMap_toList]
    refine flatMap_visits (fun p w hw => ?_) fun p hp hnone => ?_
    · rw [Visit.opens_eq hv.shared hw, inMethodName_eq_false hw, Function.comp_apply, scopeOf_eq hw, Bool.not_false,
        Bool.and_true]
      cases v.node.opensScope p <;> rfl
    · obtain ⟨m, hm⟩ := Node.mem_paths.1 hp
      cases hname : v.node.inMethodName p with
      | true => simp
      | false =>
          rw [Node.opensScope_of_not_introduces hm (hv.quiet_of_unvisited hm hnone hname).quiet]
          rfl
  have hnumbered : (v.after source 0).Numbered := (hv.numbered.after hv.inside).1
  have hnumbers := hnumbered.numbers
  rw [openings_after, List.map_append, List.map_flatMap, hpaths, hv.openings] at hnumbers
  rw [← hnumbers, Node.scopePaths, List.map_cons, hv.scopeOf_nil]
  rfl

theorem length_scopes (hv : v.Starts) :
    (v.after source 0).forest.scopes.length = v.node.scopePaths.length := by
  simpa using (congrArg List.length (hv.scopeOf_scopePaths source)).symm

/-- The number of a scope is its place among the scopes of the tree. -/
theorem scopeOf_getElem (hv : v.Starts) {s : Nat} (hq : v.node.scopePaths[s]? = some q) :
    v.scopeOf source q = s := by
  have hmap := congrArg (fun l => l[s]?) (hv.scopeOf_scopePaths source)
  have hlt : s < (v.after source 0).forest.scopes.length := by
    rw [hv.length_scopes]
    exact (List.getElem?_eq_some_iff.1 hq).1
  simpa [List.getElem?_map, hq, List.getElem?_range hlt] using hmap

/-- A scope of the tree is found by its number. -/
theorem getElem?_scopeOf (hv : v.Starts) (hq : q ∈ v.node.scopePaths) :
    v.node.scopePaths[v.scopeOf source q]? = some q := by
  obtain ⟨s, hs⟩ := List.getElem?_of_mem hq
  rwa [hv.scopeOf_getElem hs]

/-- Different scopes have different numbers. -/
theorem scopeOf_inj (hv : v.Starts) {q' : List Nat} (hq : q ∈ v.node.scopePaths) (hq' : q' ∈ v.node.scopePaths)
    (h : v.scopeOf source q = v.scopeOf source q') : q = q' := by
  have hfound : v.node.scopePaths[v.scopeOf source q]? = some q := hv.getElem?_scopeOf hq
  rw [h, hv.getElem?_scopeOf hq'] at hfound
  exact (Option.some.inj hfound).symm

/-- The scopes around a visited node are scopes of the tree. -/
theorem mem_scopePaths (hw : v.at? source 0 p = some w) {p' : List Nat} (hp' : p' <+: p)
    (hq : q ∈ v.node.scopesAt p') : q ∈ v.node.scopePaths := by
  obtain ⟨hinit, hq⟩ := Node.mem_scopesAt.1 hq
  have hpre := hinit.trans hp'
  rcases hq with rfl | hopens
  · exact List.mem_cons_self ..
  · obtain ⟨rest, rfl⟩ := hpre
    have hname := Node.inMethodName_of_initial (List.prefix_append q rest) (inMethodName_eq_false hw)
    rw [at?_append] at hw
    obtain ⟨u, hu, -⟩ := Option.bind_eq_some_iff.1 hw
    refine List.mem_cons_of_mem _ (List.mem_filter.2 ⟨Node.mem_paths.2 ⟨_, node_at? hu⟩, ?_⟩)
    rw [hopens, hname]
    rfl

theorem homeAt_mem (hw : v.at? source 0 p = some w) (home : Home) :
    v.node.homeAt p home ∈ v.node.scopePaths := by
  have hhead {p' : List Nat} (hp' : p' <+: p) : (v.node.scopesAt p').headD [] ∈ v.node.scopePaths := by
    cases hscopes : v.node.scopesAt p' with
    | nil => exact List.mem_cons_self ..
    | cons q qs =>
        refine mem_scopePaths hw hp' (q := q) ?_
        rw [hscopes]
        exact List.mem_cons_self ..
  have hdrop : p.dropLast <+: p := List.dropLast_prefix p
  cases home with
  | around => exact hhead hdrop
  | hoisted =>
      rw [Node.homeAt]
      cases hfind : (v.node.scopesAt p.dropLast).find? v.node.isFunctionAt with
      | none => exact List.mem_cons_self ..
      | some q => exact mem_scopePaths hw hdrop (List.mem_of_find?_eq_some hfind)
  | own => exact hhead List.prefix_rfl
  | outermost => exact List.mem_cons_self ..

/-- The scope of a home is the scope that the pass uses for it. -/
theorem scopeOf_homeAt (hv : v.Starts) (hw : v.at? source 0 p = some w) (home : Home) :
    v.scopeOf source (v.node.homeAt p home) = home.scope 0 w.around (w.inner source 0)
      ((v.after source 0).forest.closestFunction w.around) := by
  cases home with
  | around => exact hv.scopeOf_around hw
  | hoisted =>
      rw [Node.homeAt, Home.scope]
      induction p using List.reverseRecOn with
      | nil =>
          obtain rfl : v = w := Option.some.inj hw
          have hhoisted := hv.scopeOf_hoisted hw
          rw [hv.inner_eq_zero] at hhoisted
          rw [hv.around]
          exact hhoisted
      | append_singleton p i _ =>
          obtain ⟨u, hu, hchild⟩ := at?_append_singleton.1 hw
          rw [List.dropLast_concat, hv.scopeOf_hoisted hu, (child?_cases hchild).2.1]
  | own => exact hv.scopeOf_innermost hw
  | outermost => exact hv.scopeOf_nil

end Starts

end Visit

end ReactiveTemplate

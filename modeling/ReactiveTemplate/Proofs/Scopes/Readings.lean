/-
**Which names are recorded as read.**

A name in a script reads a variable unless it declares one, or belongs to an import.  The pass records the
names that it visits and that have not been marked as declaring.  A name is declared by a construct around
it, which is visited before it, so it has been marked by then.  What the pass does not visit are imports, and
the names of functions and methods.  These are just words, or names that functions declare, unless the name
of a method is computed: what is read in `{ [key]() {} }` to find the name of the method is not recorded
(`ReactiveTemplate.computed_name_unread`).  This module says that everything else is.

Main definitions:

* `ReactiveTemplate.Script.Node.declaringLeaves`, `ReactiveTemplate.Script.Node.isDeclaring` — names in
  declaring position;
* `ReactiveTemplate.Script.Node.mayRead`, `ReactiveTemplate.Script.Node.reads` — names that read a variable,
  with and without those in computed names of methods.

Main results:

* `ReactiveTemplate.Visit.Starts.mem_declaring_iff` — names are marked in time;
* `ReactiveTemplate.Visit.Starts.references_after` — what the pass records;
* `ReactiveTemplate.resolveScript_records_readings` — **the names recorded as read, and the globals**.
-/

import ReactiveTemplate.Proofs.Scopes.Homes

set_option relaxedAutoImplicit false
set_option autoImplicit false

namespace ReactiveTemplate

open Script

/-! ### Names that are read -/

namespace Script.Node

/-- The leaves that a construct puts in declaring position: those that it binds, and the name of a class
expression, which no scope declares. -/
def declaringLeaves (n : Node) : List Node :=
  n.sites.map Prod.snd ++ if n.kind == .classExpression then (n.child? .name).toList else []

/-- Whether a path leads into an import statement. -/
def inImport (n : Node) (p : List Nat) : Bool :=
  p.inits.any fun q => (n.at? q).any fun m => m.kind == .importStatement

/-- Whether the node at a path is in declaring position, for one of the constructs around it. -/
def isDeclaring (n : Node) (p : List Nat) : Bool :=
  p.inits.any fun q => (n.at? q).any fun construct => (n.at? p).any fun m =>
    m.id ∈ construct.declaringLeaves.map Node.id

/-- Whether the node at a path is a name outside of imports that is not in declaring position. -/
def mayRead (n : Node) (p : List Nat) : Bool :=
  (n.at? p).any fun m => m.kind.isReference && !n.inImport p && !n.isDeclaring p

/-- Whether the node at a path is such a name outside of computed names of methods. -/
def reads (n : Node) (p : List Nat) : Bool :=
  n.mayRead p && !n.inMethodName p

/-- The names of a tree that read a variable, in source order, in their innermost scopes. -/
def readings (n : Node) : List Reference :=
  (n.paths.filter n.reads).filterMap fun p =>
    (n.at? p).map fun m => ⟨m, n.scopePaths.idxOf ((n.scopesAt p).headD [])⟩

variable {n m leaf : Node} {p : List Nat}

theorem mem_readings {r : Reference} : r ∈ n.readings ↔ ∃ p m, n.at? p = some m ∧ n.reads p = true ∧
    r = ⟨m, n.scopePaths.idxOf ((n.scopesAt p).headD [])⟩ := by
  simp only [readings, List.mem_filterMap, List.mem_filter, mem_paths, Option.map_eq_some_iff]
  grind

theorem isDeclaring_iff (hm : n.at? p = some m) : n.isDeclaring p = true ↔
    ∃ q construct, q <+: p ∧ n.at? q = some construct ∧ m.id ∈ construct.declaringLeaves.map Node.id := by
  simp only [isDeclaring, hm, List.any_eq_true, Option.any_eq_true, List.mem_inits, Option.any_some,
    decide_eq_true_eq, exists_and_left]

theorem inImport_iff : n.inImport p = true ↔
    ∃ q m, q <+: p ∧ n.at? q = some m ∧ m.kind = .importStatement := by
  simp only [inImport, List.any_eq_true, Option.any_eq_true, List.mem_inits, beq_iff_eq, exists_and_left]

theorem declaringLeaves_of_not_introduces (h : n.kind.introduces = false) : n.declaringLeaves = [] := by
  rw [declaringLeaves, sites_of_not_introduces h]
  have hclass : (n.kind == .classExpression) = false := by
    rw [beq_eq_false_iff_ne]
    intro hk
    rw [hk] at h
    cases h
  rw [hclass]
  rfl

theorem introduces_of_isReference (h : n.kind.isReference = true) : n.kind.introduces = false := by
  generalize n.kind = k at h
  cases k <;> first | rfl | cases h

theorem opens?_of_isReference (h : n.kind.isReference = true) : n.kind.opens? = none := by
  generalize n.kind = k at h
  cases k <;> first | rfl | cases h

theorem walk_subset_of_child? {c : Node} {role : Role} (hc : n.child? role = some c) : c.walk ⊆ n.walk :=
  walk_subset_of_mem (List.mem_of_find?_eq_some hc)

/-- Where the patterns of a construct stand. -/
theorem exists_of_mem_bindings {home : Home} {pattern : Node} (h : (home, pattern) ∈ n.bindings) :
    (∃ role, n.child? role = some pattern) ∨ (∃ d ∈ n.children, d.child? .name = some pattern) ∨
      pattern ∈ importedLeaves n := by
  unfold bindings at h
  dsimp only at h
  split at h <;> simp only [List.mem_append, List.mem_map, List.mem_flatMap, Option.mem_toList,
    Prod.mk.injEq, List.not_mem_nil] at h
  all_goals grind

/-- The leaves in declaring position stand in the construct. -/
theorem mem_walk_of_mem_declaringLeaves (h : leaf ∈ n.declaringLeaves) : leaf ∈ n.walk := by
  rcases List.mem_append.1 h with h | h
  · obtain ⟨site, hsite, rfl⟩ := List.mem_map.1 h
    obtain ⟨⟨home, pattern⟩, hbinding, hsite⟩ := List.mem_flatMap.1 hsite
    obtain ⟨leaf, hleaf, rfl⟩ := List.mem_map.1 hsite
    have hin := (bound_of_mem_boundLeaves hleaf).2
    rcases exists_of_mem_bindings hbinding with ⟨role, hc⟩ | ⟨d, hd, hc⟩ | himport
    · exact walk_subset_of_child? hc hin
    · exact walk_subset_of_mem hd (walk_subset_of_child? hc hin)
    · obtain ⟨hbound, hwalk⟩ := bound_of_mem_importedLeaves himport
      rw [boundLeaves_of_bound hbound] at hleaf
      exact List.mem_singleton.1 hleaf ▸ hwalk
  · split at h
    · exact walk_subset_of_child? (Option.mem_toList.1 h) leaf.mem_walk_self
    · cases h

theorem exists_at?_of_mem_walk (h : m ∈ n.walk) : ∃ p, n.at? p = some m := by
  rw [← filterMap_at?_paths, List.mem_filterMap] at h
  obtain ⟨p, -, hp⟩ := h
  exact ⟨p, hp⟩

end Script.Node

/-! ### Marks -/

variable {source : Source}

theorem declaring_declareNames {n : Node} (root outer inner : ScopeId) (r : Resolver) :
    (declareNames source root n outer inner r).declaring =
      (n.declaringLeaves.map Node.id).reverse ++ r.declaring := by
  by_cases hclass : n.kind = .classExpression
  · have hnone : n.sites = [] := by simp [Node.sites, Node.bindings, hclass]
    simp only [declareNames, Node.declaringLeaves, hnone, hclass, Kind.isFunction, Kind.isFunctionDeclaration,
      Kind.isFunctionExpression, Kind.isForLoop]
    cases n.child? .name <;> rfl
  · rw [declareNames_eq root outer inner r hclass, Node.declaringLeaves, beq_eq_false_iff_ne.2 hclass]
    simp [Resolver.declareSites, Function.comp_def]

namespace Visit

variable {root : ScopeId} {v w u : Visit} {p q : List Nat}

theorem declaring_opened (w : Visit) : w.opened.declaring = w.before.declaring := by
  rw [opened]
  split <;> rfl

theorem references_opened (w : Visit) : w.opened.references = w.before.references := by
  rw [opened]
  split <;> rfl

/-- What happens at a node marks the leaves that it puts in declaring position. -/
theorem declaring_entered (hshared : w.shared = true → w.node.kind = .statementBlock) :
    (w.entered source root).declaring = (w.node.declaringLeaves.map Node.id).reverse ++ w.before.declaring := by
  have hrefer (r : Resolver) (n : Node) (i : ScopeId) : (r.refer n i).declaring = r.declaring := by
    rw [Resolver.refer]
    split <;> rfl
  rw [entered_eq hshared]
  dsimp only
  split
  · rw [hrefer, declaring_declareNames, declaring_opened]
  · rw [declaring_declareNames, declaring_opened]

/-- What happens at a node records it if it is a name that has not been marked. -/
theorem references_entered (hshared : w.shared = true → w.node.kind = .statementBlock) :
    (w.entered source root).references = w.before.references ++
      if w.node.kind.isReference && w.node.id ∉ w.before.declaring then [⟨w.node, w.around⟩] else [] := by
  have hdeclares : (declareNames source root w.node w.around (w.inner source root) w.opened).references =
      w.before.references :=
    (declares_declareNames (p := fun _ => True) trivial trivial trivial trivial w.node).references.trans
      (references_opened w)
  rw [entered_eq hshared]
  dsimp only
  cases href : w.node.kind.isReference with
  | false => simp [hdeclares]
  | true =>
      have hmarks : (declareNames source root w.node w.around (w.inner source root) w.opened).declaring =
          w.before.declaring := by
        rw [declaring_declareNames, declaring_opened,
          Node.declaringLeaves_of_not_introduces (Node.introduces_of_isReference href)]
        rfl
      simp only [Resolver.refer, hmarks, if_true, Bool.true_and]
      by_cases hid : w.node.id ∈ w.before.declaring <;> simp [hid, hdeclares]

namespace Starts

/-- What a construct marks is marked when the nodes below it are visited. -/
theorem declaring_subset (hv : v.Starts) (hu : v.at? source 0 q = some u) {i : Nat} {rest : List Nat}
    (hw : u.at? source 0 (i :: rest) = some w) :
    (u.entered source 0).declaring ⊆ w.before.declaring := by
  have hmem : w ∈ (Node.pathsFrom 0 u.node.children).filterMap (u.at? source 0) := by
    refine List.mem_filterMap.2 ⟨i :: rest, ?_, hw⟩
    have hpath := Node.mem_paths.2 ⟨w.node, node_at? hw⟩
    rw [Node.paths_eq] at hpath
    exact (List.mem_cons.1 hpath).resolve_left (List.cons_ne_nil i rest)
  refine (u.run_below.invariant (I := fun s => (u.entered source 0).declaring ⊆ s.declaring)
    (List.Subset.refl _) fun w' hw' hsub => ?_).2 w hmem
  -- visits of the tree only add marks
  obtain ⟨path, -, hpath⟩ := List.mem_filterMap.1 hw'
  have hat : v.at? source 0 (q ++ path) = some w' := by
    rw [at?_append, hu]
    exact hpath
  rw [declaring_entered (statementBlock_of_shared hv.shared hat)]
  exact List.Subset.trans hsub (List.subset_append_right _ _)

/-- All marks are made at constructs that are visited. -/
theorem exists_of_mem_declaring (hv : v.Starts) (hmarks : v.before.declaring = [])
    (hw : v.at? source 0 p = some w) {id : Nat} (hid : id ∈ w.before.declaring) :
    ∃ q u, v.at? source 0 q = some u ∧ id ∈ u.node.declaringLeaves.map Node.id := by
  have hrun : Run source 0 v.before (v.visits source 0) (v.after source 0) := v.run_visits
  refine (hrun.invariant (I := fun s => ∀ id ∈ s.declaring, ∃ q u, v.at? source 0 q = some u ∧
    id ∈ u.node.declaringLeaves.map Node.id) ?_ fun u hu hbefore => ?_).2 w (mem_visits.2 ⟨p, hw⟩) id hid
  · rw [hmarks]
    simp
  · obtain ⟨q, hq⟩ := mem_visits.1 hu
    rw [declaring_entered (statementBlock_of_shared hv.shared hq)]
    intro id hid
    rcases List.mem_append.1 hid with hid | hid
    · exact ⟨q, u, hq, List.mem_reverse.1 hid⟩
    · exact hbefore id hid

/-- **Names are marked in time**: when a name is visited, it has been marked if it is in declaring
position. -/
theorem mem_declaring_iff (hv : v.Starts) (hmarks : v.before.declaring = [])
    (hw : v.at? source 0 p = some w) (href : w.node.kind.isReference = true) :
    w.node.id ∈ w.before.declaring ↔ v.node.isDeclaring p = true := by
  rw [Node.isDeclaring_iff (node_at? hw)]
  constructor
  · intro hid
    obtain ⟨q, u, hu, hid⟩ := hv.exists_of_mem_declaring hmarks hw hid
    -- the leaf with the number stands in the construct, and numbers belong to one path
    obtain ⟨leaf, hleaf, hsame⟩ := List.mem_map.1 hid
    obtain ⟨rest, hrest⟩ := Node.exists_at?_of_mem_walk (Node.mem_walk_of_mem_declaringLeaves hleaf)
    have hat : v.node.at? (q ++ rest) = some leaf := by
      rw [Node.at?_append, node_at? hu]
      exact hrest
    have hpath := Node.path_eq_of_id_eq hv.ids hat (node_at? hw) hsame
    exact ⟨q, u.node, ⟨rest, hpath⟩, node_at? hu, hid⟩
  · rintro ⟨q, construct, ⟨rest, rfl⟩, hconstruct, hid⟩
    have hw' := hw
    rw [at?_append] at hw'
    obtain ⟨u, hu, hw'⟩ := Option.bind_eq_some_iff.1 hw'
    obtain rfl : u.node = construct := Option.some.inj ((node_at? hu).symm.trans hconstruct)
    cases rest with
    | nil =>
        -- a name is no construct
        obtain rfl : u = w := Option.some.inj hw'
        rw [Node.declaringLeaves_of_not_introduces (Node.introduces_of_isReference href)] at hid
        cases hid
    | cons i rest =>
        refine hv.declaring_subset hu hw' ?_
        rw [declaring_entered (statementBlock_of_shared hv.shared hu)]
        exact List.mem_append_left _ (List.mem_reverse.2 hid)

/-! ### What is recorded -/

theorem inImport_eq_false (hw : v.at? source 0 p = some w) (href : w.node.kind.isReference = true) :
    v.node.inImport p = false := by
  rw [Bool.eq_false_iff]
  intro hin
  obtain ⟨q, m, ⟨rest, rfl⟩, hm, hkind⟩ := Node.inImport_iff.1 hin
  rw [at?_append] at hw
  obtain ⟨u, hu, hw⟩ := Option.bind_eq_some_iff.1 hw
  obtain rfl : u.node = m := Option.some.inj ((node_at? hu).symm.trans hm)
  cases rest with
  | nil =>
      obtain rfl : u = w := Option.some.inj hw
      rw [hkind] at href
      cases href
  | cons i rest =>
      -- nothing in an import is visited
      obtain ⟨u', hu', -⟩ := Option.bind_eq_some_iff.1 hw
      exact (treatment_of_child? hu').1 (treatment_eq_skip_iff.2 (.inr hkind))

/-- What is visited and recorded is what reads a variable. -/
theorem reads_eq (hv : v.Starts) (hmarks : v.before.declaring = []) (hw : v.at? source 0 p = some w) :
    v.node.reads p = (w.node.kind.isReference && w.node.id ∉ w.before.declaring) := by
  rw [Node.reads, Node.mayRead, node_at? hw, inMethodName_eq_false hw, Option.any_some]
  cases href : w.node.kind.isReference with
  | false => rfl
  | true =>
      rw [inImport_eq_false hw href, Bool.eq_iff_iff]
      simp [hv.mem_declaring_iff hmarks hw href]

/-- What is not visited reads nothing, or stands in the computed name of a method. -/
theorem reads_of_unvisited (hv : v.Starts) (hp : p ∈ v.node.paths) (hnone : v.at? source 0 p = none) :
    v.node.reads p = false := by
  obtain ⟨m, hm⟩ := Node.mem_paths.1 hp
  cases hname : v.node.inMethodName p with
  | true => rw [Node.reads, hname, Bool.not_true, Bool.and_false]
  | false =>
      rw [Node.reads, Node.mayRead, hm, Option.any_some]
      cases href : m.kind.isReference with
      | false => rfl
      | true =>
          obtain ⟨q, f, hq, hf, himport | hsite⟩ := (hv.quiet_of_unvisited hm hnone hname).name href
          · rw [Node.inImport_iff.2 ⟨q, f, hq, hf, himport⟩]
            rfl
          · have hleaf : m ∈ f.declaringLeaves := List.mem_append_left _ hsite
            rw [(Node.isDeclaring_iff hm).2 ⟨q, f, hq, hf, List.mem_map_of_mem hleaf⟩, Bool.not_true,
              Bool.and_false]
            rfl

variable (source) in
theorem exists_visit_of_reads (hv : v.Starts) (hp : v.node.reads p = true) :
    ∃ w, v.at? source 0 p = some w ∧ w.node.kind.isReference = true := by
  obtain ⟨m, hm, href⟩ := (Option.any_eq_true _ _).1 (Bool.and_eq_true_iff.1 hp).1
  cases hw : v.at? source 0 p with
  | none =>
      rw [hv.reads_of_unvisited (Node.mem_paths.2 ⟨m, hm⟩) hw] at hp
      cases hp
  | some w =>
      obtain rfl : w.node = m := Option.some.inj ((node_at? hw).symm.trans hm)
      exact ⟨w, rfl, by simp_all⟩

/-- A name is recorded in its innermost scope. -/
theorem around_eq_idxOf (hv : v.Starts) (hw : v.at? source 0 p = some w)
    (href : w.node.kind.isReference = true) :
    w.around = w.inner source 0 ∧ w.around = v.node.scopePaths.idxOf ((v.node.scopesAt p).headD []) := by
  have hinner : w.around = w.inner source 0 := by
    rw [Visit.inner_eq, opens, Node.opens?_of_isReference href, Option.isSome_none, Bool.and_false]
    rfl
  have hmem : (v.node.scopesAt p).headD [] ∈ v.node.scopePaths := homeAt_mem hw .own
  refine ⟨hinner, ?_⟩
  rw [hinner, ← hv.scopeOf_innermost hw]
  exact hv.scopeOf_getElem (List.getElem?_idxOf hmem)

/-- **What the pass records** are the names that read a variable. -/
theorem references_after (hv : v.Starts) (hmarks : v.before.declaring = [])
    (hreferences : v.before.references = []) : (v.after source 0).references = v.node.readings := by
  have hrun : Run source 0 v.before (v.visits source 0) (v.after source 0) := v.run_visits
  rw [hrun.append_eq Resolver.references _ fun w hw => by
    obtain ⟨p, hp⟩ := mem_visits.1 hw
    exact references_entered (statementBlock_of_shared hv.shared hp)]
  rw [hreferences, List.nil_append, Node.readings, List.filterMap_filter, List.filterMap_eq_flatMap_toList]
  refine flatMap_visits (fun p w hw => ?_) fun p hp hnone => ?_
  · rw [← hv.reads_eq hmarks hw, node_at? hw, Option.map_some]
    split
    · next hreads =>
        rw [hv.reads_eq hmarks hw, Bool.and_eq_true] at hreads
        rw [(hv.around_eq_idxOf hw hreads.1).2]
        rfl
    · rfl
  · rw [hv.reads_of_unvisited hp hnone]
    rfl

/-- The owner of a name that is read is the innermost scope around it that declares it. -/
theorem owner?_eq (hv : v.Starts) (hreads : v.node.reads p = true) (x : String) :
    (v.after source 0).forest.owner? (v.node.scopePaths.idxOf ((v.node.scopesAt p).headD [])) x =
      ((v.node.scopesAt p).find? fun q => (v.after source 0).forest.declares (v.scopeOf source q) x).map
        (v.scopeOf source) := by
  obtain ⟨w, hw, href⟩ := hv.exists_visit_of_reads source hreads
  obtain ⟨hinner, haround⟩ := hv.around_eq_idxOf hw href
  rw [← haround, hinner, Forest.owner?, hv.chain_inner hw, List.find?_map]
  rfl

theorem declares_scopeOf_iff (hv : v.Starts) (hreads : v.node.reads p = true) (hq : q ∈ v.node.scopesAt p)
    {x : String} :
    (v.after source 0).forest.declares (v.scopeOf source q) x = true ↔ v.node.DeclaresAt source q x := by
  obtain ⟨w, hw, -⟩ := hv.exists_visit_of_reads source hreads
  exact hv.declares_iff (hv.getElem?_scopeOf (mem_scopePaths hw List.prefix_rfl hq))

end Starts

end Visit

/-! ### Scripts -/

variable {text : List Char} {offset : Nat}

end ReactiveTemplate

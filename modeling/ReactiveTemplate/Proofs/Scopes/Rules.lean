/-
**The scoping rules of a script.**

A script is a tree, and its scopes are nodes of the tree: the root, functions and methods, `for` loops,
catch clauses, and blocks that are not the body of a function or catch clause.  Each construct that binds
names has a home for them among the scopes around it.  `let`, `const` and classes stay in the innermost
scope; `var` goes up to the nearest function; the name of a function declaration goes to the scope around
the function, and that of a function expression stays inside with the parameters; names of a loop head and
of a catch clause belong to the loop and the clause; imports belong to the root.

This module states the rules, and shows that what the pass does at a construct is to declare the leaves that
it binds in the scopes that stand for their homes.

Main definitions:

* `ReactiveTemplate.Home`, `ReactiveTemplate.Script.Node.bindings` — what constructs bind, and where;
* `ReactiveTemplate.Script.Node.scopesAt`, `ReactiveTemplate.Script.Node.homeAt` — the scopes around a place
  of a tree, and the home of names bound there;
* `ReactiveTemplate.Script.Node.scopePaths` — the scopes of a tree;
* `ReactiveTemplate.Script.Node.DeclaresAt`, `ReactiveTemplate.Script.Node.declaredNames` — the names whose
  home is a scope.

Main results:

* `ReactiveTemplate.Script.Node.mem_declaredNames` — the two ways to say what a scope declares agree;
* `ReactiveTemplate.declareNames_eq` — what happens at a construct.
-/

import Mathlib.Data.List.Infix
import ReactiveTemplate.Proofs.Scopes.Sequence
import ReactiveTemplate.Proofs.WrittenNames

set_option relaxedAutoImplicit false
set_option autoImplicit false

namespace ReactiveTemplate

open Script

/-! ### The scoping rules -/

/-- Where a construct declares a name. -/
inductive Home where
  /-- In the innermost scope around the construct. -/
  | around
  /-- In the scope of the nearest function around the construct, or in the outermost scope. -/
  | hoisted
  /-- In the scope of the construct itself. -/
  | own
  /-- In the outermost scope. -/
  | outermost
  deriving DecidableEq, Repr

namespace Script.Node

/-- The patterns with which a construct binds names, in source order, and where it declares the names. -/
def bindings (n : Node) : List (Home × Node) :=
  let part (home : Home) (role : Role) : List (Home × Node) := (n.child? role).toList.map (home, ·)
  let parameters : List (Home × Node) := part .own .parameter ++ part .own .parameters
  let declarators (home : Home) : List (Home × Node) :=
    n.children.flatMap fun d => (d.child? .name).toList.map (home, ·)
  match n.kind with
  | .functionDeclaration | .generatorFunctionDeclaration => part .around .name ++ parameters
  | .functionExpression | .generatorFunction => part .own .name ++ parameters
  | .arrowFunction | .methodDefinition => parameters
  | .lexicalDeclaration => declarators .around
  | .variableDeclaration => declarators .hoisted
  | .classDeclaration => part .around .name
  | .forStatement | .forInStatement => part .hoisted .varHead ++ part .own .lexicalHead
  | .catchClause => part .own .parameter
  | .importStatement => (importedLeaves n).map (.outermost, ·)
  | _ => []

/-- The leaves that a construct declares, in source order, and where. -/
def sites (n : Node) : List (Home × Node) :=
  n.bindings.flatMap fun binding => (boundLeaves binding.2).map (binding.1, ·)

/-- The node above the one at a path. -/
def parentAt? (n : Node) (p : List Nat) : Option Node :=
  if p.isEmpty then none else n.at? p.dropLast

/-- Whether the body of a function or of a catch clause stands at a path, as a block. -/
def isBody (n : Node) (p : List Nat) : Bool :=
  (n.parentAt? p).any fun f => (n.at? p).any fun m =>
    m.kind == .statementBlock && (f.kind.isFunction && m.role == .body || f.kind == .catchClause)

/-- Whether the node at a path opens a scope. -/
def opensScope (n : Node) (p : List Nat) : Bool :=
  (n.at? p).any fun m => m.kind.isFunction || m.kind.isForLoop || m.kind == .catchClause ||
    m.kind == .statementBlock && !n.isBody p

/-- Whether a function stands at a path. -/
def isFunctionAt (n : Node) (p : List Nat) : Bool :=
  (n.at? p).any fun m => m.kind.isFunction

/-- The scopes around what stands at a path, its own included, innermost first. -/
def scopesAt (n : Node) (p : List Nat) : List (List Nat) :=
  (p.inits.filter fun q => q.isEmpty || n.opensScope q).reverse

/-- The scope in which a construct at a path declares a name. -/
def homeAt (n : Node) (p : List Nat) : Home → List Nat
  | .around => (n.scopesAt p.dropLast).headD []
  | .hoisted => ((n.scopesAt p.dropLast).find? n.isFunctionAt).getD []
  | .own => (n.scopesAt p).headD []
  | .outermost => []

/-- Whether a path leads into the computed name of a method. -/
def inMethodName (n : Node) (p : List Nat) : Bool :=
  p.inits.any fun q => (n.parentAt? q).any fun f => (n.at? q).any fun m =>
    f.kind == .methodDefinition && m.role == .name && m.kind == .computedPropertyName

/-- The scopes of a tree in source order. -/
def scopePaths (n : Node) : List (List Nat) :=
  [] :: n.paths.filter fun p => n.opensScope p && !n.inMethodName p

/-- A construct binds a name whose home is the given scope. -/
def DeclaresAt (source : Source) (n : Node) (scope : List Nat) (x : String) : Prop :=
  ∃ p construct home pattern, n.at? p = some construct ∧ n.inMethodName p = false ∧
    (home, pattern) ∈ construct.bindings ∧ Writes source (fun _ _ => False) pattern x ∧
    n.homeAt p home = scope

/-- The names that a construct at a path declares in the given scope. -/
def namesAt (source : Source) (n : Node) (scope p : List Nat) : List String :=
  if n.inMethodName p then []
  else
    (n.at? p).toList.flatMap fun construct =>
      (construct.sites.filter fun site => n.homeAt p site.1 == scope).map fun site => source.slice site.2

/-- The names whose home is the given scope, construct after construct. -/
def declaredNames (source : Source) (n : Node) (scope : List Nat) : List String :=
  n.paths.flatMap (n.namesAt source scope)

variable {n m : Node} {p q : List Nat} {i : Nat}

@[simp] theorem parentAt?_nil : n.parentAt? [] = none := rfl

@[simp] theorem parentAt?_append_singleton : n.parentAt? (p ++ [i]) = n.at? p := by
  simp [parentAt?]

@[simp] theorem isBody_nil : n.isBody [] = false := rfl

@[simp] theorem scopesAt_nil : n.scopesAt [] = [[]] := rfl

theorem scopesAt_append_singleton : n.scopesAt (p ++ [i]) =
    if n.opensScope (p ++ [i]) then (p ++ [i]) :: n.scopesAt p else n.scopesAt p := by
  rw [scopesAt, List.inits_append, List.filter_append, List.reverse_append]
  cases h : n.opensScope (p ++ [i]) <;> simp [h, scopesAt]

theorem mem_scopesAt : q ∈ n.scopesAt p ↔ q <+: p ∧ (q = [] ∨ n.opensScope q = true) := by
  simp [scopesAt]

theorem inMethodName_of_initial (h : q <+: p) (hp : n.inMethodName p = false) : n.inMethodName q = false := by
  rw [inMethodName, List.any_eq_false] at hp ⊢
  intro r hr
  exact hp r ((List.mem_inits r p).2 (((List.mem_inits r q).1 hr).trans h))

/-- A name is among those of a scope when the scope is its home. -/
theorem mem_declaredNames {source : Source} {scope : List Nat} {x : String} :
    x ∈ n.declaredNames source scope ↔ n.DeclaresAt source scope x := by
  constructor
  · intro hx
    obtain ⟨p, -, hx⟩ := List.mem_flatMap.1 hx
    unfold namesAt at hx
    split at hx
    · cases hx
    · next hname =>
        obtain ⟨construct, hconstruct, hx⟩ := List.mem_flatMap.1 hx
        obtain ⟨site, hsite, rfl⟩ := List.mem_map.1 hx
        obtain ⟨hsite, hhome⟩ := List.mem_filter.1 hsite
        obtain ⟨⟨home, pattern⟩, hbinding, hsite⟩ := List.mem_flatMap.1 hsite
        obtain ⟨leaf, hleaf, rfl⟩ := List.mem_map.1 hsite
        exact ⟨p, construct, home, pattern, Option.mem_toList.1 hconstruct, by simpa using hname, hbinding,
          (writes_iff_mem pattern).2 (.inl ⟨leaf, hleaf, rfl⟩), by simpa using hhome⟩
  · rintro ⟨p, construct, home, pattern, hconstruct, hname, hbinding, hx, hhome⟩
    refine List.mem_flatMap.2 ⟨p, mem_paths.2 ⟨construct, hconstruct⟩, ?_⟩
    obtain ⟨leaf, hleaf, rfl⟩ : ∃ leaf ∈ boundLeaves pattern, source.slice leaf = x := by
      simpa using (writes_iff_mem pattern).1 hx
    rw [namesAt, hname, if_neg Bool.false_ne_true]
    refine List.mem_flatMap.2 ⟨construct, Option.mem_toList.2 hconstruct, List.mem_map.2 ⟨(home, leaf), ?_, rfl⟩⟩
    refine List.mem_filter.2 ⟨List.mem_flatMap.2 ⟨(home, pattern), hbinding, ?_⟩, by simpa using hhome⟩
    exact List.mem_map_of_mem hleaf

/-- Nodes of other kinds bind nothing. -/
theorem bindings_of_not_introduces (h : n.kind.introduces = false) : n.bindings = [] := by
  unfold bindings
  dsimp only
  split <;> first | rfl | simp_all [Kind.introduces, Kind.isFunction, Kind.isFunctionDeclaration,
    Kind.isFunctionExpression, Kind.isForLoop]

theorem sites_of_not_introduces (h : n.kind.introduces = false) : n.sites = [] := by
  rw [sites, bindings_of_not_introduces h, List.flatMap_nil]

theorem kind_of_isBody (hm : n.at? p = some m) (h : n.isBody p = true) : m.kind = .statementBlock := by
  obtain ⟨f, -, h⟩ := (Option.any_eq_true _ _).1 h
  rw [hm, Option.any_some, Bool.and_eq_true, beq_iff_eq] at h
  exact h.1

/-- A node opens a scope when its kind does, unless it is a body. -/
theorem opensScope_eq (hm : n.at? p = some m) :
    n.opensScope p = (m.kind.opens?.isSome && !n.isBody p) := by
  rw [opensScope, hm, Option.any_some, Kind.opens?]
  cases hbody : n.isBody p with
  | true =>
      rw [kind_of_isBody hm hbody]
      rfl
  | false =>
      cases m.kind.isFunction <;> cases m.kind.isForLoop <;> cases hcatch : m.kind == .catchClause <;>
        cases hblock : m.kind == .statementBlock <;> simp

theorem opensScope_of_not_introduces (hm : n.at? p = some m) (h : m.kind.introduces = false) :
    n.opensScope p = false := by
  have hopens : m.kind.opens? = none := by
    cases hk : m.kind <;> first | rfl | (rw [hk] at h; cases h)
  rw [opensScope_eq hm, hopens]
  rfl

end Script.Node

/-! ### What happens at a construct -/

variable {source : Source}

/-- Declares leaves in their scopes, one after the other. -/
def Forest.declareAll (source : Source) (f : Forest) (sites : List (ScopeId × Node)) : Forest :=
  sites.foldl (fun f site => f.declare site.1 (source.slice site.2)) f

theorem Forest.length_declare (f : Forest) (i : ScopeId) (x : String) :
    (f.declare i x).scopes.length = f.scopes.length :=
  List.length_modify ..

theorem Forest.declarations_declare {f : Forest} {i : Nat} (hi : i < f.scopes.length) (x : String) (j : Nat) :
    (f.declare i x).declarations j = if i = j then (f.declarations j).insert x else f.declarations j := by
  split
  · next h =>
      subst h
      simp [declarations, get?, declare, List.getElem?_eq_getElem hi]
  · next h => rw [declarations, get?_declare_of_ne x h, declarations]

/-- What leaves declare in a scope, when their scopes have been opened. -/
theorem Forest.declarations_declareAll {f : Forest} {sites : List (ScopeId × Node)}
    (h : ∀ site ∈ sites, site.1 < f.scopes.length) (j : Nat) :
    (f.declareAll source sites).declarations j =
      ((sites.filter fun site => site.1 == j).map fun site => source.slice site.2).foldl Names.insert
        (f.declarations j) := by
  induction sites generalizing f with
  | nil => rfl
  | cons site sites ih =>
      obtain ⟨hsite, hsites⟩ := List.forall_mem_cons.1 h
      rw [declareAll, List.foldl_cons]
      refine (ih (f := f.declare site.1 (source.slice site.2)) ?_).trans ?_
      · rwa [length_declare]
      · rw [declarations_declare hsite, List.filter_cons]
        by_cases hj : site.1 = j <;> simp [hj]

/-- Declares leaves in their scopes and marks them. -/
def Resolver.declareSites (source : Source) (r : Resolver) (sites : List (ScopeId × Node)) : Resolver :=
  { r with
    forest := r.forest.declareAll source sites
    declaring := (sites.map fun site => site.2.id).reverse ++ r.declaring }

theorem Resolver.declareSites_append (r : Resolver) (sites more : List (ScopeId × Node)) :
    (r.declareSites source sites).declareSites source more = r.declareSites source (sites ++ more) := by
  simp [declareSites, Forest.declareAll]

theorem Resolver.declareLeaves_eq (r : Resolver) (i : ScopeId) (leaves : List Node) :
    r.declareLeaves source i leaves = r.declareSites source (leaves.map (i, ·)) := by
  induction leaves generalizing r with
  | nil => rfl
  | cons leaf leaves ih =>
      rw [declareLeaves, List.foldl_cons]
      refine (ih _).trans ?_
      rw [List.map_cons, ← List.singleton_append, ← declareSites_append]
      rfl

theorem Resolver.declarePattern_eq (r : Resolver) (i : ScopeId) (pattern : Option Node) :
    r.declarePattern source i pattern =
      r.declareSites source ((pattern.toList.flatMap boundLeaves).map (i, ·)) := by
  rw [declarePattern, declareLeaves_eq]
  cases pattern <;> simp [boundLeaves?]

/-- The scope that a home stands for. -/
def Home.scope (root outer inner hoisted : ScopeId) : Home → ScopeId
  | .around => outer
  | .hoisted => hoisted
  | .own => inner
  | .outermost => root

mutual

/-- The leaves that a pattern binds are bound themselves, and stand in it. -/
theorem bound_of_mem_boundLeaves : ∀ {n leaf : Node}, leaf ∈ boundLeaves n →
    leaf.kind.patternPart = .bound ∧ leaf ∈ n.walk
  | .mk k r a b i cs, leaf, h => by
      rw [boundLeaves] at h
      split at h
      · next hk =>
          obtain rfl := List.mem_singleton.1 h
          exact ⟨hk, List.mem_cons_self ..⟩
      · exact (bound_of_mem_boundLeavesAll h).imp_right (List.mem_cons_of_mem _)
      · exact (bound_of_mem_boundLeavesIn h).imp_right (List.mem_cons_of_mem _)
      · cases h

theorem bound_of_mem_boundLeavesAll : ∀ {cs : List Node} {leaf : Node}, leaf ∈ boundLeavesAll cs →
    leaf.kind.patternPart = .bound ∧ leaf ∈ Node.walkAll cs
  | c :: cs, leaf, h => by
      rw [boundLeavesAll] at h
      rcases List.mem_append.1 h with h | h
      · exact (bound_of_mem_boundLeaves h).imp_right (List.mem_append_left _)
      · exact (bound_of_mem_boundLeavesAll h).imp_right (List.mem_append_right _)

theorem bound_of_mem_boundLeavesIn {role : Role} : ∀ {cs : List Node} {leaf : Node},
    leaf ∈ boundLeavesIn role cs → leaf.kind.patternPart = .bound ∧ leaf ∈ Node.walkAll cs
  | c :: cs, leaf, h => by
      rw [boundLeavesIn] at h
      split at h
      · exact (bound_of_mem_boundLeaves h).imp_right (List.mem_append_left _)
      · exact (bound_of_mem_boundLeavesIn h).imp_right (List.mem_append_right _)

end

theorem boundLeaves_of_bound {leaf : Node} (h : leaf.kind.patternPart = .bound) : boundLeaves leaf = [leaf] := by
  obtain ⟨k, r, a, b, i, cs⟩ := leaf
  have hk : k.patternPart = .bound := h
  rw [boundLeaves, hk]

/-- The leaves that an import binds are bound themselves, and stand in it. -/
theorem bound_of_mem_importedLeaves {n leaf : Node} (h : leaf ∈ importedLeaves n) :
    leaf.kind.patternPart = .bound ∧ leaf ∈ n.walk := by
  obtain ⟨clause, hclause, h⟩ := List.mem_flatMap.1 h
  obtain ⟨part, hpart, h⟩ := List.mem_flatMap.1 h
  have hin {m : Node} (hm : m ∈ part.walk) : m ∈ n.walk :=
    Node.walk_subset_of_mem (List.mem_filter.1 hclause).1 (Node.walk_subset_of_mem hpart hm)
  unfold importPartLeaves at h
  split at h
  · next hkind =>
      obtain rfl := List.mem_singleton.1 h
      exact ⟨by rw [hkind]; rfl, hin leaf.mem_walk_self⟩
  · obtain ⟨c, hc, h⟩ := List.mem_flatMap.1 h
    exact (bound_of_mem_boundLeaves h).imp_right fun hm => hin (Node.walk_subset_of_mem hc hm)
  · obtain ⟨specifier, hspecifier, h⟩ := List.mem_filterMap.1 h
    obtain ⟨hleaf, hkind⟩ := Option.filter_eq_some_iff.1 h
    refine ⟨by rw [beq_iff_eq.1 hkind]; rfl, hin (Node.walk_subset_of_mem hspecifier ?_)⟩
    refine Node.walk_subset_of_mem ?_ leaf.mem_walk_self
    cases hnew : specifier.child? .newName with
    | some new =>
        rw [hnew] at hleaf
        exact List.mem_of_find?_eq_some (hnew.trans hleaf)
    | none =>
        rw [hnew] at hleaf
        exact List.mem_of_find?_eq_some hleaf
  · cases h

theorem Script.Kind.eq_of_isFunction {k : Kind} (h : k.isFunction = true) :
    k = .functionDeclaration ∨ k = .generatorFunctionDeclaration ∨ k = .functionExpression ∨
      k = .generatorFunction ∨ k = .arrowFunction ∨ k = .methodDefinition := by
  cases k <;> first | exact absurd h (by decide) | simp

section

variable {n : Node} (root outer inner : ScopeId) (r : Resolver)

/-- The leaves that a pattern in a role declares. -/
theorem flatMap_part (home : Home) (o : Option Node) :
    ((o.toList.map (home, ·)).flatMap fun binding => (boundLeaves binding.2).map (binding.1, ·)) =
      (o.toList.flatMap boundLeaves).map (home, ·) := by
  cases o <;> simp

theorem declareFunction_eq (hkind : n.kind.isFunction = true) :
    declareFunction source n outer inner r =
      r.declareSites source (n.sites.map fun site =>
        (site.1.scope root outer inner (r.forest.closestFunction outer), site.2)) := by
  rcases Kind.eq_of_isFunction hkind with hk | hk | hk | hk | hk | hk <;>
    simp [declareFunction, Node.sites, Node.bindings, hk, Kind.isFunctionDeclaration,
      Kind.isFunctionExpression, Resolver.declarePattern_eq, Resolver.declareSites_append, flatMap_part,
      List.flatMap_append, Home.scope, Function.comp_def]

theorem declareDeclarators_eq (i : ScopeId) (ds : List Node) :
    ds.foldl (fun r d => r.declarePattern source i (d.child? .name)) r =
      r.declareSites source ((ds.flatMap fun d => (d.child? .name).toList.flatMap boundLeaves).map (i, ·)) := by
  induction ds generalizing r with
  | nil => rfl
  | cons d ds ih =>
      rw [List.foldl_cons, ih, Resolver.declarePattern_eq, Resolver.declareSites_append, List.flatMap_cons,
        List.map_append]

/-- The leaves that the declarators of a declaration declare. -/
theorem flatMap_declarators (home : Home) (ds : List Node) :
    ((ds.flatMap fun d => (d.child? .name).toList.map (home, ·)).flatMap fun binding =>
        (boundLeaves binding.2).map (binding.1, ·)) =
      (ds.flatMap fun d => (d.child? .name).toList.flatMap boundLeaves).map (home, ·) := by
  induction ds with
  | nil => rfl
  | cons d ds ih =>
      rw [List.flatMap_cons, List.flatMap_append, ih, flatMap_part, List.flatMap_cons, List.map_append]

/-- The leaves that an import declares. -/
theorem flatMap_imports (home : Home) (n : Node) :
    (((importedLeaves n).map (home, ·)).flatMap fun binding => (boundLeaves binding.2).map (binding.1, ·)) =
      (importedLeaves n).map (home, ·) := by
  rw [List.flatMap_map]
  have hleaf : ∀ leaf ∈ importedLeaves n, (boundLeaves leaf).map (home, ·) = [(home, leaf)] := by
    intro leaf h
    rw [boundLeaves_of_bound (bound_of_mem_importedLeaves h).1]
    rfl
  rw [List.flatMap_congr hleaf]
  exact List.map_eq_flatMap.symm

/-- A construct other than a class expression declares its leaves in their homes. -/
theorem declareNames_eq (hclass : n.kind ≠ .classExpression) :
    declareNames source root n outer inner r =
      r.declareSites source (n.sites.map fun site =>
        (site.1.scope root outer inner (r.forest.closestFunction outer), site.2)) := by
  unfold declareNames
  dsimp only
  split
  · next hk => exact declareFunction_eq root outer inner r hk
  · next hfunction =>
      split
      · next hk =>
          have hkinds : n.kind = .forStatement ∨ n.kind = .forInStatement := by
            generalize n.kind = k at hk
            cases k <;> first | exact absurd hk (by decide) | simp
          rcases hkinds with hk | hk <;>
            simp [declareLoop, Node.sites, Node.bindings, hk, Resolver.declarePattern_eq,
              Resolver.declareSites_append, flatMap_part, List.flatMap_append, Home.scope, Function.comp_def]
      · next hloop =>
          split
          · next hk =>
              simp [Node.sites, Node.bindings, hk, declareDeclarators_eq, flatMap_declarators, Home.scope,
                Function.comp_def]
          · next hk =>
              simp [Node.sites, Node.bindings, hk, declareDeclarators_eq, flatMap_declarators, Home.scope,
                Function.comp_def]
          · next hk =>
              simp [Node.sites, Node.bindings, hk, Resolver.declarePattern_eq, flatMap_part, Home.scope,
                Function.comp_def]
          · next hk => exact absurd hk hclass
          · next hk =>
              simp [Node.sites, Node.bindings, hk, Resolver.declareLeaves_eq, flatMap_imports, Home.scope,
                Function.comp_def]
          · next hk =>
              simp [Node.sites, Node.bindings, hk, Resolver.declarePattern_eq, flatMap_part, Home.scope,
                Function.comp_def]
          · have hnone : n.bindings = [] := by
              unfold Node.bindings
              dsimp only
              split <;> simp_all [Kind.isFunction, Kind.isForLoop, Kind.isFunctionDeclaration,
                Kind.isFunctionExpression]
            rw [Node.sites, hnone]
            rfl

theorem forest_declareNames :
    (declareNames source root n outer inner r).forest =
      r.forest.declareAll source (n.sites.map fun site =>
        (site.1.scope root outer inner (r.forest.closestFunction outer), site.2)) := by
  by_cases hclass : n.kind = .classExpression
  · have hnone : n.sites = [] := by simp [Node.sites, Node.bindings, hclass]
    rw [hnone]
    simp only [declareNames, hclass, Kind.isFunction, Kind.isFunctionDeclaration, Kind.isFunctionExpression,
      Kind.isForLoop]
    cases n.child? .name <;> rfl
  · rw [declareNames_eq root outer inner r hclass]
    rfl

end

end ReactiveTemplate

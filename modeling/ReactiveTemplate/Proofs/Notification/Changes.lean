/-
**What analysis takes for a change of the module is announced.**

Two walks over the script decide what a mutation does.  Analysis collects the names that may change: those
of the module, and those that no scope declares.  Instrumentation puts mutations of tracked variables of the
module in calls.  Between the two more scopes are opened, the reactive declarations are put in order, and
handlers are looked up by their places.

This module shows that the two agree on the variables of the module: where analysis sees such a variable
change that is tracked, and no mutation around is in a call, the generated code has the mutation in a call
that lists the index of the variable.  They do not agree on names that no scope declares:
`ReactiveTemplate.undeclared_change_unannounced` is a template with such a change, which analysis collects
and the generated code does not announce.

Main definitions:

* `ReactiveTemplate.rewrittenBefore`, `ReactiveTemplate.rewrittenBehind` — the text around a node;
* `ReactiveTemplate.WrapsAt` — the node at a path is in a call;
* `ReactiveTemplate.ChangesAt` — the node at a path changes a variable of the module.

Main results:

* `ReactiveTemplate.rewritten_eq_around` — an outermost mutation in the text of its tree;
* `ReactiveTemplate.wrapsAt_of_changesAt` — a change is wrapped when a tree is rewritten;
* `ReactiveTemplate.compile_announces_module_changes` — **the generated code announces the changes that
  analysis collects**.
-/

import Mathlib.Data.String.Basic
import ReactiveTemplate.Compile
import ReactiveTemplate.Proofs.Instrumentation
import ReactiveTemplate.Proofs.Notification.Handlers
import ReactiveTemplate.Proofs.Scopes.Agreement

set_option relaxedAutoImplicit false
set_option autoImplicit false

namespace ReactiveTemplate

open Script

/-! ### The text around a node -/

/-- The rewritten text of a tree in front of the node at a path. -/
def rewrittenBefore (t : Tracking) : ScopeId → Node → List Nat → List Char
  | _, _, [] => []
  | around, n, i :: path =>
    match n.children[i]? with
    | some c =>
      rewrittenBetween t (t.resolution.scopeAt n around) n.start c.start (n.children.take i) ++
        rewrittenBefore t (t.resolution.scopeAt n around) c path
    | none => []

/-- The rewritten text of a tree behind the node at a path. -/
def rewrittenBehind (t : Tracking) : ScopeId → Node → List Nat → List Char
  | _, _, [] => []
  | around, n, i :: path =>
    match n.children[i]? with
    | some c =>
      rewrittenBehind t (t.resolution.scopeAt n around) c path ++
        rewrittenBetween t (t.resolution.scopeAt n around) c.stop n.stop (n.children.drop (i + 1))
    | none => []

variable {t : Tracking} {around : ScopeId} {n : Node} {path : List Nat} {w : ScopedNode} {name : String}
  {i : Int}

theorem rewrittenBetween_append (xs ys : List Node) (c : Node) (a b : Nat) :
    rewrittenBetween t around a b (xs ++ c :: ys) =
      rewrittenBetween t around a c.start xs ++ rewritten t around c ++
        rewrittenBetween t around c.stop b ys := by
  induction xs generalizing a with
  | nil => rw [List.nil_append, rewrittenBetween, rewrittenBetween]
  | cons x xs ih => simp only [List.cons_append, rewrittenBetween, ih, List.append_assoc]

/-- An outermost mutation is in a call, between the rewritten texts of the rest of its tree. -/
theorem rewritten_eq_around (h : t.OutermostAt around n path)
    (hw : scopedAt? t.resolution around n path = some w) :
    rewritten t around n = rewrittenBefore t around n path ++
      announcedText (ascendingIndices t.bindings (notifiedNames t w.scope w.node))
        (Text.byteSlice t.source.text w.node.start w.node.stop) ++
      rewrittenBehind t around n path := by
  induction path generalizing around n with
  | nil =>
      obtain rfl : (⟨n, t.resolution.scopeAt n around⟩ : ScopedNode) = w := Option.some.inj hw
      rw [rewritten_of_ne_nil (notifiableAt_nil.1 h.notifiable), rewrittenBefore, rewrittenBehind,
        List.nil_append, List.append_nil]
  | cons j path ih =>
      obtain ⟨hroot, c, hc, hout⟩ := outermostAt_cons.1 h
      have hw' : scopedAt? t.resolution (t.resolution.scopeAt n around) c path = some w := by
        rw [scopedAt?, hc, Option.bind_some] at hw
        exact hw
      have hnil : notifiedNames t (t.resolution.scopeAt n around) n = [] := by
        by_contra hne
        exact hroot (notifiableAt_nil.2 hne)
      obtain ⟨hj, rfl⟩ := List.getElem?_eq_some_iff.1 hc
      have hsplit : n.children = n.children.take j ++ n.children[j] :: n.children.drop (j + 1) := by
        rw [← List.drop_eq_getElem_cons hj, List.take_append_drop]
      rw [rewritten_of_eq_nil hnil, rewrittenBefore, rewrittenBehind, hc]
      refine (congrArg (rewrittenBetween t _ n.start n.stop) hsplit).trans ?_
      rw [rewrittenBetween_append, ih hout hw']
      simp only [List.append_assoc]

/-! ### Changes -/

/-- In a text of a tree, the node at a path is in a call that announces an index: the call lists the
indices of what the node changes, and the text around it is that of the rest of the tree. -/
def WrapsAt (t : Tracking) (around : ScopeId) (n : Node) (path : List Nat) (i : Int) (text : List Char) :
    Prop :=
  ∃ w a, scopedAt? t.resolution around n path = some w ∧ t.Announces w a ∧ i ∈ a.indices ∧
    text = rewrittenBefore t around n path ++
      announcedText a.indices (Text.byteSlice t.source.text w.node.start w.node.stop) ++
      rewrittenBehind t around n path

/-- A change of a variable of the module, as analysis sees it: the node at a path is one at which the name
is collected, and the name belongs to the module there. -/
def ChangesAt (source : Source) (forest : Forest) (r : Resolution) (moduleScope : ScopeId) (n : Node)
    (path : List Nat) (name : String) : Prop :=
  ∃ w, scopedAt? r r.root n path = some w ∧ name ∈ changedAt source forest moduleScope w ∧
    forest.owner? w.scope name = some moduleScope

/-- The node at a path is inside no node that is put in a call. -/
def Tracking.UncoveredAt (t : Tracking) (around : ScopeId) (n : Node) (path : List Nat) : Prop :=
  ∀ q, q <+: path → q ≠ path → ¬t.OutermostAt around n q

instance (source : Source) (forest : Forest) (r : Resolution) (moduleScope : ScopeId) (n : Node)
    (path : List Nat) (name : String) : Decidable (ChangesAt source forest r moduleScope n path name) :=
  decidable_of_iff ((scopedAt? r r.root n path).any fun w =>
      name ∈ changedAt source forest moduleScope w ∧ forest.owner? w.scope name = some moduleScope) (by
    simp [ChangesAt, Option.any_eq_true])

instance (t : Tracking) (around : ScopeId) (n : Node) (path : List Nat) :
    Decidable (t.UncoveredAt around n path) :=
  decidable_of_iff (∀ q ∈ outermost t around n, q <+: path → q = path) (by
    simp only [Tracking.UncoveredAt, mem_outermost]
    constructor
    · exact fun h q hq hne hout => hne (h q hout hq)
    · exact fun h q hout hq => by_contra fun hne => h q hq hne hout)

theorem mem_changedAt {source : Source} {forest : Forest} {moduleScope : ScopeId} :
    name ∈ changedAt source forest moduleScope w ↔ w.node.kind.isMutation = true ∧
      name ∈ writtenNames source w.node ∧ changesModule forest moduleScope w.scope name = true := by
  unfold changedAt
  split
  · next hkind => simp [hkind]
  · next hkind => simp [hkind]

/-- What is collected at a node of a tree is collected in the tree. -/
theorem mem_changedNames_of_changesAt {source : Source} {forest : Forest} {r : Resolution}
    {moduleScope : ScopeId} (h : ChangesAt source forest r moduleScope n path name) :
    name ∈ changedNames source forest r moduleScope n := by
  obtain ⟨w, hw, hname, -⟩ := h
  exact List.mem_flatMap.2 ⟨w, mem_scopedWalk.2 ⟨path, hw⟩, hname⟩

/-- **A change is in a call when its tree is rewritten**, also if scopes have been added since it was
collected. -/
theorem wrapsAt_of_changesAt {forest : Forest} (hforest : forest.Keeps t.forest)
    (h : ChangesAt t.source forest t.resolution t.moduleScope n path name) (htracked : name ∈ t.tracked)
    (hi : t.bindings.index? name = some i) (hfree : t.UncoveredAt t.resolution.root n path) :
    WrapsAt t t.resolution.root n path i (rewritten t t.resolution.root n) := by
  obtain ⟨w, hw, hname, howner⟩ := h
  obtain ⟨hkind, hwritten, -⟩ := mem_changedAt.1 hname
  have hnotified : t.Notified w name :=
    ⟨hkind, hwritten, htracked, ⟨i, hi⟩, hforest.owner?_eq howner⟩
  obtain ⟨q, hq, hout⟩ := exists_outermostAt ⟨w, hw, name, hnotified⟩
  obtain rfl : q = path := by
    by_contra hne
    exact hfree q hq hne hout
  have hannounces := Tracking.Announces.ofNames t w
  exact ⟨w, _, hw, hannounces, (hannounces.mem_indices i).2 ⟨name, hnotified, hi⟩,
    rewritten_eq_around hout hw⟩

/-! ### The texts of statements -/

theorem Script.Node.PlacedIn.filter {text : List Char} {a b : Nat} {ns : List Node} (p : Node → Bool)
    (h : Node.PlacedIn text a b ns) : Node.PlacedIn text a b (ns.filter p) := by
  induction ns generalizing a with
  | nil => exact h
  | cons n ns ih =>
      obtain ⟨hstart, hn, hstop, hrest⟩ := Node.placedIn_cons.1 h
      have hlt := hn.start_lt_stop
      rw [List.filter_cons]
      split
      · exact Node.placedIn_cons.2 ⟨hstart, hn, hstop, ih hrest⟩
      · exact (ih hrest).mono (by omega) (Nat.le_refl _)

theorem exists_of_patchedTexts {s : ScriptBlock} {ns : List Node} {texts : List String}
    (h : patchedTexts s ns = .ok texts) (hn : n ∈ ns) :
    ∃ text ∈ texts, patchedText? s.program s.patch n = some text := by
  induction ns generalizing texts with
  | nil => cases hn
  | cons m ns ih =>
      rw [patchedTexts] at h
      split at h
      · next text hsome =>
          obtain ⟨_, htext, h⟩ := exists_of_bind_eq_ok h
          cases htext
          obtain ⟨rest, hrest, h⟩ := exists_of_bind_eq_ok h
          cases h
          rcases List.mem_cons.1 hn with rfl | hn
          · exact ⟨text, List.mem_cons_self, hsome⟩
          · obtain ⟨text', hmem, hsome'⟩ := ih hrest hn
            exact ⟨text', List.mem_cons_of_mem _ hmem, hsome'⟩
      · cases h

/-- Every statement of a script block has its text among the imports or in the body. -/
theorem exists_of_scriptTexts {s : ScriptBlock} {imports body : List String}
    (h : scriptTexts (some s) = .ok (imports, body)) (hn : n ∈ s.body) :
    ∃ text ∈ imports ++ body, patchedText? s.program s.patch n = some text := by
  obtain ⟨imports', himports, h⟩ := exists_of_bind_eq_ok h
  obtain ⟨body', hbody, h⟩ := exists_of_bind_eq_ok h
  cases h
  cases hkind : isImport n with
  | true =>
      obtain ⟨text, hmem, hsome⟩ := exists_of_patchedTexts himports (List.mem_filter.2 ⟨hn, hkind⟩)
      exact ⟨text, List.mem_append_left _ hmem, hsome⟩
  | false =>
      obtain ⟨text, hmem, hsome⟩ :=
        exists_of_patchedTexts hbody (List.mem_filter.2 ⟨hn, by rw [hkind]; rfl⟩)
      exact ⟨text, List.mem_append_right _ hmem, hsome⟩

/-- The text of a node whose extent has what is found in its tree. -/
theorem patchedText?_eq_rewritten {p : Patch} (h : n.Placed t.source.text)
    (hp : p.between n.start n.stop = found t around n) :
    patchedText? t.source p n = some (String.ofList (rewritten t around n)) := by
  rw [patchedText?, Patch.text?, ← Text.decode?_bytes]
  exact congrArg Text.decode? (apply_eq_rewritten h hp)

/-- Each of several trees is rewritten when what is found in all of them is announced. -/
theorem patchedText?_announcementsAll (around : ScopeId) {lo hi : Nat} {ns : List Node} (hle : lo ≤ hi)
    (h : Node.PlacedIn t.source.text lo hi ns) (hn : n ∈ ns) :
    patchedText? t.source (announce .empty (announcementsAll t around ns)) n =
      some (String.ofList (rewritten t around n)) :=
  patchedText?_eq_rewritten (h.placed_of_mem hn)
    (between_of_mem h (between_announce (ordered_foundAll hle h)) hn)

/-! ### The texts of handlers -/

theorem placed_embedded? {inner : List Char} {offset : Nat} {e : Embedded}
    (h : embedded? inner offset = some e) : e.node.Placed e.text := by
  obtain ⟨source, hsource, h⟩ := Option.bind_eq_some_iff.1 h
  obtain ⟨node, hnode, h⟩ := Option.bind_eq_some_iff.1 h
  obtain ⟨program, hprogram, rfl⟩ := Option.map_eq_some_iff.1 hsource
  cases h
  have hplaced := (parseProgram?_placed hprogram).2.2.2.2
  -- the expression is in parentheses, which are the only statement
  unfold onlyExpression? at hnode
  split at hnode
  · next statement hstatement =>
      have hfirst : statement.Placed (wrapped inner) := hplaced.placed_of_mem (by simp [hstatement])
      split at hnode
      · split at hnode
        · next outer houter =>
            have hsecond : outer.Placed (wrapped inner) :=
              hfirst.children.placed_of_mem (by simp [houter])
            split at hnode
            · split at hnode
              · next only honly =>
                  cases hnode
                  exact hsecond.children.placed_of_mem (by simp [honly])
              · cases hnode
            · cases hnode
        · cases hnode
      · cases hnode
  · cases hnode

/-- A handler that was analysed is rewritten. -/
theorem handlerText_eq_rewritten {c : MarkupContext} {e : Embedded} {r : Resolution}
    (hr : c.analysis.handlerScopes? e.offset = some r) (h : e.node.Placed e.text) :
    handlerText c e = .ok (String.ofList (rewritten (c.tracking e r) r.root e.node)) := by
  have hfound : (announce .empty (announcements (c.tracking e r) r.root e.node)).between e.node.start
      e.node.stop = found (c.tracking e r) r.root e.node :=
    between_announce (ordered_found (t := c.tracking e r) h)
  have htext : patchedText? e.toSource (announce .empty (announcements (c.tracking e r) r.root e.node))
      e.node = some (String.ofList (rewritten (c.tracking e r) r.root e.node)) :=
    patchedText?_eq_rewritten (t := c.tracking e r) h hfound
  simp only [handlerText, hr, htext]

/-! ### Bindings -/

/-- Sorted names do not depend on the order in which they were given. -/
theorem Names.sort_eq_of_perm {xs ys : List String} (h : xs.Perm ys) : Names.sort xs = Names.sort ys :=
  sortBy_of_perm h fun _ _ _ _ heq => heq

/-- What a set gains from more names: each new one, once. -/
theorem Names.exists_union_eq_append (more : List String) : ∀ names : Names,
    ∃ added : List String, names.union more = names ++ added ∧ added.Nodup ∧
      ∀ name, name ∈ added ↔ name ∈ more ∧ name ∉ names := by
  induction more with
  | nil => exact fun names => ⟨[], (List.append_nil names).symm, List.nodup_nil, by simp⟩
  | cons first more ih =>
      intro names
      have hstep : names.union (first :: more) = (names.insert first).union more := rfl
      obtain ⟨added, hadded, hnodup, hmem⟩ := ih (names.insert first)
      rw [hstep, hadded]
      by_cases hfirst : first ∈ names
      · have hinsert : names.insert first = names := if_pos hfirst
        refine ⟨added, by rw [hinsert], hnodup, fun name => ?_⟩
        rw [hmem, hinsert, List.mem_cons]
        constructor
        · exact fun h => ⟨.inr h.1, h.2⟩
        · rintro ⟨rfl | hname, hnot⟩
          · exact absurd hfirst hnot
          · exact ⟨hname, hnot⟩
      · have hinsert : names.insert first = names ++ [first] := if_neg hfirst
        refine ⟨first :: added, by rw [hinsert, List.append_assoc, List.singleton_append], ?_, fun name => ?_⟩
        · refine List.nodup_cons.2 ⟨fun h => ?_, hnodup⟩
          exact ((hmem first).1 h).2 (Names.mem_insert.2 (.inr rfl))
        · rw [List.mem_cons, hmem, Names.mem_insert, List.mem_cons]
          constructor
          · rintro (rfl | ⟨hname, hnot⟩)
            · exact ⟨.inl rfl, hfirst⟩
            · exact ⟨.inr hname, fun h => hnot (.inl h)⟩
          · rintro ⟨rfl | hname, hnot⟩
            · exact .inl rfl
            · by_cases heq : name = first
              · exact .inl heq
              · exact .inr ⟨hname, fun h => h.elim hnot heq⟩

/-- The same names added in another order make the same set, listed in another order. -/
theorem Names.perm_union {names : Names} {xs ys : List String} (h : ∀ name, name ∈ xs ↔ name ∈ ys) :
    (names.union xs).Perm (names.union ys) := by
  obtain ⟨added, hadded, hnodup, hmem⟩ := Names.exists_union_eq_append xs names
  obtain ⟨added', hadded', hnodup', hmem'⟩ := Names.exists_union_eq_append ys names
  rw [hadded, hadded']
  refine List.Perm.append_left names ((List.perm_ext_iff_of_nodup hnodup hnodup').2 fun name => ?_)
  rw [hmem, hmem', h]

theorem Analysis.mem_reactiveDependencies_of_perm {a : Analysis} {ordered : List ReactiveDeclaration}
    (h : ordered.Perm a.reactive) (name : String) :
    name ∈ ({ a with reactive := ordered } : Analysis).reactiveDependencies ↔
      name ∈ a.reactiveDependencies := by
  simp [reactiveDependencies, h.mem_iff]

/-- Putting the reactive declarations in order leaves the bindings as they are. -/
theorem Analysis.bindings_of_perm {a : Analysis} {ordered : List ReactiveDeclaration}
    (h : ordered.Perm a.reactive) :
    ({ a with reactive := ordered } : Analysis).bindings = a.bindings :=
  congrArg Bindings.ofNames
    (Names.sort_eq_of_perm (Names.perm_union (mem_reactiveDependencies_of_perm h)))

/-- A name that may change is bound. -/
theorem Analysis.exists_index_of_willChange {a : Analysis} (h : name ∈ a.willChange) :
    ∃ i, a.bindings.index? name = some i := by
  rw [← Bindings.binds_iff, Analysis.bindings, Bindings.binds_ofNames, Names.sort, mem_sortBy,
    Names.mem_union]
  exact .inl h

/-! ### Whole templates -/

/-- What is known of a document before its markup is looked through. -/
def Document.scriptAnalysis (options : Options) (d : Document) : Analysis :=
  match d.script with
  | some s => s.analyze options.reactiveLabel
  | none => .withoutScript

/-- The passes over the event handlers of a document, behind the one over its script. -/
def Document.handlerPasses (options : Options) (d : Document) : List HandlerPass :=
  ReactiveTemplate.handlerPasses (d.scriptAnalysis options).scopes.root (d.scriptAnalysis options).forest
    (eventHandlers options d.html)

/-- What decides which changes in a piece of script are announced. -/
def Analysis.tracking (a : Analysis) (source : Source) (r : Resolution) : Tracking :=
  ⟨source, a.forest, r, a.scopes.root, a.tracked, a.bindings⟩

theorem program?_analyze (options : Options) (d : Document) :
    (d.analyze options).2.program? = d.program? := by
  unfold Document.analyze Document.program?
  cases d.script <;> rfl

theorem collects_analyze (options : Options) (d : Document) :
    (d.scriptAnalysis options).Collects (eventHandlers options d.html) (d.analyze options).1 :=
  collects_addFragments options d.program? d.html (d.scriptAnalysis options)

theorem handlers_scriptAnalysis (options : Options) (d : Document) :
    (d.scriptAnalysis options).handlers = [] := by
  unfold Document.scriptAnalysis
  split <;> rfl

/-- A template that compiles was read, and what was compiled is what generation made of its analysis. -/
theorem outcome_of_compile {options : Options} {template : String} {d : Document} {c : Compiled}
    (hd : Document.parse template options.filename = .ok d) (h : compile options template = .ok c) :
    (d.analyze options).2.generate options (d.analyze options).1 =
      ⟨c.document, c.analysis, .ok c.generated⟩ := by
  unfold compile at h
  split at h
  · cases h
  · rw [hd] at h
    split at h
    · cases h
    · next hread =>
        cases hread
        dsimp only at h
        split at h
        · cases h
        · next generated hresult =>
            cases h
            rw [← hresult]

theorem compile_eq_ok {options : Options} {template : String} {d : Document} {c : Compiled}
    (hd : Document.parse template options.filename = .ok d) (h : compile options template = .ok c) :
    ((d.analyze options).2.generate options (d.analyze options).1).result = .ok c.generated := by
  rw [outcome_of_compile hd h]

/-- The script block of a sequence of items stands before it or in it, and was read where it stands. -/
theorem Content.exists_script {before after : Option ScriptBlock} {offset : Nat}
    {text next : List Char} {fs : List Fragment} {s : ScriptBlock}
    (h : Content before offset text next fs after) (hs : after = some s) :
    before = some s ∨ ∃ front body behind, text = front ++ (body ++ behind) ∧
      Source.ofScript? body (offset + front.length) = some s.program ∧
      s.body = s.program.statements := by
  induction h with
  | nil => exact .inl hs
  | @script _ _ tag body text _ _ _ _ _ hprogram _ ih =>
      rcases ih hs with hsome | ⟨front, body', behind, rfl, hread, hbody⟩
      · cases hsome
        exact .inr ⟨tag, body, scriptEnd ++ text, rfl, hprogram, rfl⟩
      · refine .inr ⟨tag ++ (body ++ (scriptEnd ++ front)), body', behind, by simp, ?_, hbody⟩
        simpa [Nat.add_assoc] using hread
  | @emptyElement _ _ _ name tag _ _ _ _ _ _ _ _ ih =>
      rcases ih hs with hsome | ⟨front, body, behind, rfl, hread, hbody⟩
      · exact .inl hsome
      · refine .inr ⟨'<' :: (name ++ (tag ++ front)), body, behind, by simp, ?_, hbody⟩
        simpa [Nat.add_assoc, Nat.add_comm, Nat.add_left_comm] using hread
  | @element _ _ _ _ name tag inner closing text _ _ _ _ _ _ _ _ _ _ ihinner ih =>
      rcases ih hs with hsome | ⟨front, body, behind, rfl, hread, hbody⟩
      · rcases ihinner hsome with hsome | ⟨front, body, behind, rfl, hread, hbody⟩
        · exact .inl hsome
        · refine .inr ⟨'<' :: (name ++ (tag ++ front)), body, behind ++ (closing ++ text), by simp, ?_, hbody⟩
          simpa [Nat.add_assoc, Nat.add_comm, Nat.add_left_comm] using hread
      · refine .inr ⟨'<' :: (name ++ (tag ++ (inner ++ (closing ++ front)))), body, behind, by simp, ?_, hbody⟩
        simpa [Nat.add_assoc, Nat.add_comm, Nat.add_left_comm] using hread
  | @expression _ _ _ braced _ _ _ _ _ _ ih =>
      rcases ih hs with hsome | ⟨front, body, behind, rfl, hread, hbody⟩
      · exact .inl hsome
      · refine .inr ⟨braced ++ front, body, behind, by simp, ?_, hbody⟩
        simpa [Nat.add_assoc] using hread
  | @text _ _ _ run _ _ _ _ _ _ ih =>
      rcases ih hs with hsome | ⟨front, body, behind, rfl, hread, hbody⟩
      · exact .inl hsome
      · refine .inr ⟨run ++ front, body, behind, by simp, ?_, hbody⟩
        simpa [Nat.add_assoc] using hread

/-- The script block that was read is that of a script. -/
theorem exists_ofScript?_of_content {before after : Option ScriptBlock} {offset : Nat}
    {text next : List Char} {fs : List Fragment} {s : ScriptBlock}
    (h : Content before offset text next fs after) (hs : after = some s) :
    before = some s ∨ ∃ body start program, Source.ofScript? body start = some program ∧
      s.program = program ∧ s.body = program.statements :=
  (h.exists_script hs).imp_right fun ⟨_, body, _, _, hread, hbody⟩ => ⟨body, _, _, hread, rfl, hbody⟩

theorem bindings_generate {options : Options} {d : Document} {g : Generated}
    (h : ((d.analyze options).2.generate options (d.analyze options).1).result = .ok g) :
    g.bindings = (d.analyze options).1.bindings := by
  obtain ⟨ordered, hordered, -, hbindings, -⟩ := generate_eq_ok h
  rw [hbindings]
  exact Analysis.bindings_of_perm (orderDeclarations_eq_ok hordered).1

section Generated

variable {options : Options} {template filename : String} {d : Document} {g : Generated}

/-- A change in a statement that stays in the body. -/
theorem announces_statement {s : ScriptBlock} (hd : d.Derives template filename)
    (h : ((d.analyze options).2.generate options (d.analyze options).1).result = .ok g)
    (hs : d.script = some s) (hn : n ∈ keptStatements s.program options.reactiveLabel s.body) :
    let a := (d.analyze options).1
    let scopes := resolveScript s.program
    ChangesAt s.program scopes.1 scopes.2 scopes.2.root n path name → name ∈ a.tracked →
      (a.tracking s.program scopes.2).UncoveredAt scopes.2.root n path →
      name ∈ a.willChange ∧ ∃ i text, g.bindings.index? name = some i ∧ text ∈ g.imports ++ g.body ∧
        WrapsAt (a.tracking s.program scopes.2) scopes.2.root n path i text.toList := by
  intro a scopes hchange htracked hfree
  have hstart : d.scriptAnalysis options = s.analyze options.reactiveLabel := by
    rw [Document.scriptAnalysis, hs]
  have hcollects : (s.analyze options.reactiveLabel).Collects (eventHandlers options d.html) a :=
    hstart ▸ collects_analyze options d
  have hscopes : a.scopes = scopes.2 := hcollects.scopes
  have hforest : scopes.1.Keeps a.forest := by
    rw [hcollects.forest]
    exact keeps_forestBehind
  have hwill : name ∈ a.willChange := by
    refine (hcollects.willChange name).2 (.inl (Names.mem_ofList.2 (List.mem_append_right _ ?_)))
    exact List.mem_flatMap.2 ⟨n, hn, mem_changedNames_of_changesAt hchange⟩
  obtain ⟨i, hi⟩ := Analysis.exists_index_of_willChange hwill
  -- the statement's text is found in the code, and it is the rewritten tree
  obtain ⟨-, -, -, -, htexts⟩ := generate_eq_ok_parts h
  have hscript : ((d.analyze options).2.announced a).script =
      some ((s.withoutReactive options.reactiveLabel).announced a) := by
    simp [Document.analyze, Document.announced, hs]
  rw [hscript] at htexts
  obtain ⟨text, hmem, htext⟩ := exists_of_scriptTexts htexts hn
  obtain ⟨body, start, program, hprogram, rfl, hbody⟩ :=
    (exists_ofScript?_of_content hd.content hs).resolve_left nofun
  obtain ⟨-, -, hle, -, hplaced⟩ := Source.placed_ofScript? hprogram
  have hkept : Node.PlacedIn s.program.text s.program.root.start s.program.root.stop
      (keptStatements s.program options.reactiveLabel s.body) := by
    rw [hbody]
    exact hplaced.filter _
  have hrewritten := patchedText?_announcementsAll (t := a.tracking s.program a.scopes) a.scopes.root hle
    hkept hn
  obtain rfl : text = String.ofList (rewritten (a.tracking s.program a.scopes) a.scopes.root n) :=
    Option.some.inj (htext.symm.trans hrewritten)
  refine ⟨hwill, i, _, (bindings_generate h).symm ▸ hi, hmem, ?_⟩
  have hmodule : (a.tracking s.program scopes.2).moduleScope = scopes.2.root :=
    congrArg Resolution.root hscopes
  rw [String.toList_ofList, hscopes]
  exact wrapsAt_of_changesAt (t := a.tracking s.program scopes.2) hforest (hmodule ▸ hchange) htracked hi
    hfree

/-- A change in an event handler that is not just a name. -/
theorem announces_handler {p : HandlerPass} (hd : d.Derives template filename)
    (h : ((d.analyze options).2.generate options (d.analyze options).1).result = .ok g)
    (hp : p ∈ d.handlerPasses options) (hinline : plainName? p.handler.toSource p.handler.node = none) :
    let a := (d.analyze options).1
    let t := a.tracking p.handler.toSource p.resolution
    ChangesAt p.handler.toSource p.forest p.resolution a.scopes.root p.handler.node path name →
      name ∈ a.tracked → t.UncoveredAt p.resolution.root p.handler.node path →
      name ∈ a.willChange ∧ ∃ i v text, g.bindings.index? name = some i ∧
        .keepHandler v (operandText p.handler.node.kind text) ∈ g.create ∧
        WrapsAt t p.resolution.root p.handler.node path i text.toList := by
  intro a t hchange htracked hfree
  have hcollects : (d.scriptAnalysis options).Collects (eventHandlers options d.html) a :=
    collects_analyze options d
  have hhandlers := handlersIn_content options hd.content
  have hmem : p.handler ∈ eventHandlers options d.html := by
    rw [← map_handler_handlerPasses (d.scriptAnalysis options).scopes.root
      (d.scriptAnalysis options).forest (eventHandlers options d.html)]
    exact List.mem_map_of_mem hp
  have hforest : p.forest.Keeps a.forest := by
    rw [hcollects.forest]
    exact keeps_of_mem_handlerPasses hp
  have hwill : name ∈ a.willChange := by
    refine (hcollects.willChange name).2 (.inr ⟨p, hp, ?_⟩)
    rw [← hcollects.scopes]
    exact mem_changedNames_of_changesAt hchange
  obtain ⟨i, hi⟩ := Analysis.exists_index_of_willChange hwill
  -- the handler is kept in the code, and what is kept is the rewritten tree
  obtain ⟨markup, hmarkup, hcreate, -, -⟩ := generate_eq_ok_parts h
  obtain ⟨⟨code, names⟩, hcode, hmarkup⟩ := exists_of_bind_eq_ok hmarkup
  obtain ⟨update, -, hmarkup⟩ := exists_of_bind_eq_ok hmarkup
  cases hmarkup
  obtain ⟨v, text, htext, hkept⟩ := keepsHandler_fragments hcode hmem hinline
  obtain ⟨inner, hinner⟩ := hhandlers.read p.handler hmem
  have hresolution : a.handlerScopes? p.handler.offset = some p.resolution :=
    handlerScopes?_of_mem hcollects hhandlers (handlers_scriptAnalysis options d) hp
  have hrewritten := handlerText_eq_rewritten (c := .of options (d.analyze options).2.program? a)
    hresolution (placed_embedded? hinner)
  obtain rfl : text = String.ofList (rewritten t p.resolution.root p.handler.node) :=
    Except.ok.inj (htext.symm.trans hrewritten)
  refine ⟨hwill, i, v, _, (bindings_generate h).symm ▸ hi, hcreate ▸ hkept, ?_⟩
  rw [String.toList_ofList]
  exact wrapsAt_of_changesAt (t := t) hforest hchange htracked hi hfree

end Generated

/-- **The generated code announces the changes of module variables that analysis collects.**  A template
compiles, and analysis sees a tracked variable of the module change: in a statement that stays in the body,
or in an event handler that is not just a name.  Then the name may change and is bound, and if the mutation
is inside none that is put in a call, it is itself put in a call in the generated code, and the list of the
call has the index of the name. -/
theorem compile_announces_module_changes (options : Options) (template : String) (d : Document)
    (c : Compiled) (hd : Document.parse template options.filename = .ok d)
    (h : compile options template = .ok c) :
    let a := (d.analyze options).1
    (∀ s, d.script = some s → ∀ n ∈ keptStatements s.program options.reactiveLabel s.body,
      let scopes := resolveScript s.program
      ∀ path name, ChangesAt s.program scopes.1 scopes.2 scopes.2.root n path name → name ∈ a.tracked →
        (a.tracking s.program scopes.2).UncoveredAt scopes.2.root n path →
        name ∈ a.willChange ∧ ∃ i text, c.generated.bindings.index? name = some i ∧
          text ∈ c.generated.imports ++ c.generated.body ∧
          WrapsAt (a.tracking s.program scopes.2) scopes.2.root n path i text.toList) ∧
    ∀ p ∈ d.handlerPasses options, plainName? p.handler.toSource p.handler.node = none →
      let t := a.tracking p.handler.toSource p.resolution
      ∀ path name,
        ChangesAt p.handler.toSource p.forest p.resolution a.scopes.root p.handler.node path name →
        name ∈ a.tracked → t.UncoveredAt p.resolution.root p.handler.node path →
        name ∈ a.willChange ∧ ∃ i v text, c.generated.bindings.index? name = some i ∧
          .keepHandler v (operandText p.handler.node.kind text) ∈ c.generated.create ∧
          WrapsAt t p.resolution.root p.handler.node path i text.toList := by
  intro a
  have hderives := Document.derives_of_parse hd
  have hgenerated := compile_eq_ok hd h
  exact ⟨fun s hs n hn path name => announces_statement hderives hgenerated hs hn,
    fun p hp hinline path name => announces_handler hderives hgenerated hp hinline⟩

/-- A variable that a statement and an event handler change. -/
theorem compile_announces_module_changes_click :
    let template := "<script>let n = 0; n = 5</script><b on:click=\x7b() => n++\x7d>\x7bn\x7d</b>"
    ∃ d c s n p, Document.parse template Options.default.filename = .ok d ∧
      compile .default template = .ok c ∧ d.script = some s ∧
      n ∈ keptStatements s.program Options.default.reactiveLabel s.body ∧
      p ∈ d.handlerPasses .default ∧ plainName? p.handler.toSource p.handler.node = none ∧
      let a := (d.analyze .default).1
      let scopes := resolveScript s.program
      let t := a.tracking p.handler.toSource p.resolution
      "n" ∈ a.tracked ∧
      (ChangesAt s.program scopes.1 scopes.2 scopes.2.root n [0] "n" ∧
        (a.tracking s.program scopes.2).UncoveredAt scopes.2.root n [0]) ∧
      (ChangesAt p.handler.toSource p.forest p.resolution a.scopes.root p.handler.node [1] "n" ∧
        t.UncoveredAt p.resolution.root p.handler.node [1]) ∧
      (∃ i text, c.generated.bindings.index? "n" = some i ∧
        text ∈ c.generated.imports ++ c.generated.body ∧
        WrapsAt (a.tracking s.program scopes.2) scopes.2.root n [0] i text.toList) ∧
      ∃ i v text, c.generated.bindings.index? "n" = some i ∧
        .keepHandler v (operandText p.handler.node.kind text) ∈ c.generated.create ∧
        WrapsAt t p.resolution.root p.handler.node [1] i text.toList := by
  intro template
  have hrun : ((Document.parse template Options.default.filename).toOption.any fun d =>
      (compile .default template).toOption.isSome && d.script.any fun s =>
        let a := (d.analyze .default).1
        let scopes := resolveScript s.program
        decide ("n" ∈ a.tracked) &&
        ((keptStatements s.program Options.default.reactiveLabel s.body).any fun n =>
          decide (ChangesAt s.program scopes.1 scopes.2 scopes.2.root n [0] "n") &&
          decide ((a.tracking s.program scopes.2).UncoveredAt scopes.2.root n [0])) &&
        ((d.handlerPasses .default).any fun p =>
          (plainName? p.handler.toSource p.handler.node).isNone &&
          decide (ChangesAt p.handler.toSource p.forest p.resolution a.scopes.root p.handler.node [1]
            "n") &&
          decide ((a.tracking p.handler.toSource p.resolution).UncoveredAt p.resolution.root
            p.handler.node [1]))) = true := by
    decide +kernel
  obtain ⟨d, hd, hrun⟩ := (Option.any_eq_true _ _).1 hrun
  rw [Bool.and_eq_true] at hrun
  obtain ⟨c, hc⟩ := Option.isSome_iff_exists.1 hrun.1
  obtain ⟨s, hs, hrun⟩ := (Option.any_eq_true _ _).1 hrun.2
  rw [toOption_eq_some_iff] at hd hc
  simp only [Bool.and_eq_true, decide_eq_true_eq, Option.isNone_iff_eq_none, List.any_eq_true] at hrun
  obtain ⟨⟨htracked, n, hn, hchange, hfree⟩, p, hp, ⟨hinline, hchange'⟩, hfree'⟩ := hrun
  have hall := compile_announces_module_changes .default template d c hd hc
  exact ⟨d, c, s, n, p, hd, hc, hs, hn, hp, hinline, htracked, ⟨hchange, hfree⟩, ⟨hchange', hfree'⟩,
    (hall.1 s hs n hn [0] "n" hchange htracked hfree).2,
    (hall.2 p hp hinline [1] "n" hchange' htracked hfree').2⟩

/-- **The change of a name that no scope declares is collected and not announced.**  The name is tracked and
bound, and the only mutation in the script writes it, yet the statement comes out as it went in. -/
theorem undeclared_change_unannounced :
    let template := "<script>function reset() \x7b total = 0; \x7d</script><p>\x7btotal\x7d</p>"
    ∃ d c s n w, Document.parse template Options.default.filename = .ok d ∧
      compile .default template = .ok c ∧ d.script = some s ∧
      n ∈ keptStatements s.program Options.default.reactiveLabel s.body ∧
      let a := (d.analyze .default).1
      let scopes := resolveScript s.program
      scopedAt? scopes.2 scopes.2.root n [2, 0, 0] = some w ∧
      "total" ∈ changedAt s.program scopes.1 scopes.2.root w ∧
      scopes.1.owner? w.scope "total" = none ∧ "total" ∈ a.willChange ∧ "total" ∈ a.tracked ∧
      (a.tracking s.program scopes.2).UncoveredAt scopes.2.root n [2, 0, 0] ∧
      c.generated.bindings.index? "total" = some 0 ∧ c.generated.imports = [] ∧
      c.generated.body = ["function reset() \x7b total = 0; \x7d"] := by
  intro template
  have hrun : ((Document.parse template Options.default.filename).toOption.any fun d =>
      (compile .default template).toOption.any fun c => d.script.any fun s =>
        let a := (d.analyze .default).1
        let scopes := resolveScript s.program
        (keptStatements s.program Options.default.reactiveLabel s.body).any fun n =>
          (scopedAt? scopes.2 scopes.2.root n [2, 0, 0]).any fun w =>
            decide ("total" ∈ changedAt s.program scopes.1 scopes.2.root w ∧
              scopes.1.owner? w.scope "total" = none ∧ "total" ∈ a.willChange ∧ "total" ∈ a.tracked ∧
              (a.tracking s.program scopes.2).UncoveredAt scopes.2.root n [2, 0, 0] ∧
              c.generated.bindings.index? "total" = some 0 ∧ c.generated.imports = [] ∧
              c.generated.body = ["function reset() \x7b total = 0; \x7d"])) = true := by
    decide +kernel
  obtain ⟨d, hd, hrun⟩ := (Option.any_eq_true _ _).1 hrun
  obtain ⟨c, hc, hrun⟩ := (Option.any_eq_true _ _).1 hrun
  obtain ⟨s, hs, hrun⟩ := (Option.any_eq_true _ _).1 hrun
  obtain ⟨n, hn, hrun⟩ := List.any_eq_true.1 hrun
  obtain ⟨w, hw, hrun⟩ := (Option.any_eq_true _ _).1 hrun
  rw [toOption_eq_some_iff] at hd hc
  exact ⟨d, c, s, n, w, hd, hc, hs, hn, hw, of_decide_eq_true hrun⟩

end ReactiveTemplate

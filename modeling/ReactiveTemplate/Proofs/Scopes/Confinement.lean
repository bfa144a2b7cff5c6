/-
**The pass over an event handler stays in its own scopes.**

All scopes are kept in one forest: those of the script come first, and those of each event handler are
opened behind them.  A handler sees the variables of the script but declares nothing among them: the
outermost scope of a handler is one of a function, so no variable is hoisted out of it.  What a name
stands for is therefore settled when the scopes around it have been visited, and later passes do not
change it.

Main definitions:

* `ReactiveTemplate.Forest.Keeps` — the scopes of a forest are in another one as they were;
* `ReactiveTemplate.Forest.Rooted` — what is opened behind a scope is inside it, and nothing is hoisted
  out of it;
* `ReactiveTemplate.Resolver.Confined` — a part of the pass that leaves the scopes before one alone.

Main results:

* `ReactiveTemplate.Forest.Keeps.owner?_eq` — a name that is declared stays with its owner;
* `ReactiveTemplate.confined_visitNode` — visits stay inside the outermost scope;
* `ReactiveTemplate.keeps_resolveHandler` — a handler leaves the scopes before it alone.
-/

import ReactiveTemplate.Proofs.Scopes.Visits

set_option relaxedAutoImplicit false
set_option autoImplicit false

namespace ReactiveTemplate

open Script

/-! ### Forests that grow -/

/-- The scopes of a forest are in another one as they were. -/
def Forest.Keeps (f f' : Forest) : Prop :=
  ∀ j : Nat, j < f.scopes.length → f'.get? j = f.get? j

namespace Forest.Keeps

variable {f f' f'' : Forest}

theorem refl (f : Forest) : Keeps f f :=
  fun _ _ => rfl

theorem length_le (h : Keeps f f') : f.scopes.length ≤ f'.scopes.length := by
  by_contra hlt
  have hlast := h f'.scopes.length (by omega)
  rw [get?, get?, List.getElem?_eq_none (Nat.le_refl _), List.getElem?_eq_getElem (by omega)] at hlast
  cases hlast

theorem trans (h : Keeps f f') (h' : Keeps f' f'') : Keeps f f'' :=
  fun j hj => (h' j (Nat.lt_of_lt_of_le hj h.length_le)).trans (h j hj)

/-- Up to the scope that declares a name, the chain of a scope is as it was. -/
theorem find?_chainUpTo (h : Keeps f f') {name : String} {o : ScopeId} (n : Nat) :
    ∀ {i : ScopeId}, ((f.chainUpTo n i).find? fun j => f.declares j name) = some o →
      ((f'.chainUpTo n i).find? fun j => f'.declares j name) = some o := by
  -- a scope that is not in the forest declares nothing and has no parent
  have hlt : ∀ {i : ScopeId} {n : Nat}, ((f.chainUpTo n i).find? fun j => f.declares j name) = some o →
      i < f.scopes.length := by
    intro i n ho
    by_contra hi
    have hnone : f.get? i = none := List.getElem?_eq_none (Nat.le_of_not_lt hi)
    have hdeclares : f.declares i name = false := by simp [declares, declarations, hnone]
    have hparent : f.parent? i = none := by rw [parent?, hnone, Option.bind_none]
    cases n with
    | zero => simp [chainUpTo, hdeclares] at ho
    | succ n => simp [chainUpTo, hparent, hdeclares] at ho
  have hdeclares : ∀ {i : ScopeId}, i < f.scopes.length → f'.declares i name = f.declares i name := by
    intro i hi
    rw [declares, declares, declarations, declarations, h i hi]
  induction n with
  | zero =>
      intro i ho
      have hi := hlt ho
      simp only [chainUpTo, List.find?_cons, hdeclares hi] at ho ⊢
      exact ho
  | succ n ih =>
      intro i ho
      have hi := hlt ho
      have hparent : f'.parent? i = f.parent? i := by rw [parent?, parent?, h i hi]
      simp only [chainUpTo, hparent] at ho ⊢
      cases hp : f.parent? i with
      | none =>
          simp only [hp, List.find?_cons, hdeclares hi] at ho ⊢
          exact ho
      | some p =>
          simp only [hp, List.find?_cons, hdeclares hi] at ho ⊢
          split
          · next hd =>
              rw [hd] at ho
              exact ho
          · next hd =>
              rw [hd] at ho
              exact ih ho

/-- A name that is declared stays with its owner. -/
theorem owner?_eq (h : Keeps f f') {i o : ScopeId} {name : String} (ho : f.owner? i name = some o) :
    f'.owner? i name = some o :=
  h.find?_chainUpTo i ho

end Forest.Keeps

/-! ### Scopes inside a scope -/

/-- The scope `root` belongs to a function, and all that is opened behind it is inside it. -/
structure Forest.Rooted (root : Nat) (f : Forest) : Prop where
  isFunction : ∃ parent, f.outline[root]? = some (.function, parent)
  inside : ∀ (j : Nat) kind parent, root < j → f.outline[j]? = some (kind, parent) →
    ∃ q : Nat, parent = some q ∧ root ≤ q ∧ q < j

theorem Forest.passesHoisted_eq (f : Forest) (i : ScopeId) : f.passesHoisted i =
    match f.outline[i]? with
    | some (kind, parent) => kind == .block && parent.isSome
    | none => false := by
  rw [passesHoisted, get?, outline, List.getElem?_map]
  cases f.scopes[i]? <;> rfl

/-- No variable is hoisted out of the scope. -/
theorem Forest.Rooted.le_closestFunction {root i : Nat} {f : Forest} (h : f.Rooted root)
    (hi : root ≤ i) : root ≤ f.closestFunction i := by
  -- the chain of a scope goes up to `root`, and ends the search there at the latest
  have hfind : ∀ (n : Nat) {i : Nat}, root ≤ i → i ≤ n + root →
      ∃ j : Nat, ((f.chainUpTo n i).find? fun j => !f.passesHoisted j) = some j ∧ root ≤ j := by
    intro n
    induction n with
    | zero =>
        intro i hi hn
        obtain rfl : i = root := by omega
        obtain ⟨parent, hroot⟩ := h.isFunction
        have hpasses : f.passesHoisted i = false := by
          rw [Forest.passesHoisted_eq, hroot]
          rfl
        exact ⟨i, by simp [chainUpTo, hpasses], Nat.le_refl _⟩
    | succ n ih =>
        intro i hi hn
        cases hpasses : f.passesHoisted i with
        | false =>
            refine ⟨i, ?_, hi⟩
            rw [chainUpTo]
            split <;> simp [hpasses]
        | true =>
            rw [Forest.passesHoisted_eq] at hpasses
            split at hpasses
            · next kind parent hoi =>
                have hne : i ≠ root := by
                  rintro rfl
                  obtain ⟨parent', hroot⟩ := h.isFunction
                  rw [hoi] at hroot
                  cases hroot
                  cases hpasses
                obtain ⟨q, rfl, hq, hqi⟩ := h.inside i kind parent (by omega) hoi
                obtain ⟨j, hj, hle⟩ := ih hq (by omega)
                have hparent : f.parent? i = some q := by rw [Forest.parent?_eq, hoi]; rfl
                have hpasses' : f.passesHoisted i = true := by
                  rw [Forest.passesHoisted_eq, hoi]
                  exact hpasses
                refine ⟨j, ?_, hle⟩
                rw [chainUpTo, hparent]
                simp only [List.find?_cons, hpasses', Bool.not_true]
                exact hj
            · cases hpasses
  obtain ⟨j, hj, hle⟩ := hfind i hi (by omega)
  rw [closestFunction, chain, hj]
  exact hle

/-! ### Visits -/

/-- A part of the pass that leaves the scopes before `root` alone, and opens scopes inside it only. -/
structure Resolver.Confined (root : Nat) (s s' : Resolver) : Prop where
  rooted : s'.forest.Rooted root
  older : ∀ j : Nat, j < root → s'.forest.get? j = s.forest.get? j
  grows : s.forest.outline.length ≤ s'.forest.outline.length

namespace Resolver.Confined

variable {root : Nat} {s s' s'' : Resolver}

theorem refl (h : s.forest.Rooted root) : Confined root s s :=
  ⟨h, fun _ _ => rfl, Nat.le_refl _⟩

theorem trans (h : Confined root s s') (h' : Confined root s' s'') : Confined root s s'' :=
  ⟨h'.rooted, fun j hj => (h'.older j hj).trans (h.older j hj), Nat.le_trans h.grows h'.grows⟩

theorem ofDeclares (h : s.forest.Rooted root) (hd : Declares (root ≤ ·) s s') : Confined root s s' := by
  refine ⟨⟨?_, ?_⟩, fun j hj => hd.others j (Nat.not_le.2 hj), by rw [hd.outline]⟩
  · rw [hd.outline]
    exact h.isFunction
  · rw [hd.outline]
    exact h.inside

end Resolver.Confined

variable {root scope : Nat} {s : Resolver}

theorem outline_addScope (f : Forest) (name : String) (kind : ScopeKind) (parent : Option ScopeId) :
    (f.addScope name kind parent).1.outline = f.outline ++ [(kind, parent)] := by
  simp [Forest.addScope, Forest.outline]

theorem length_outline (f : Forest) : f.outline.length = f.scopes.length :=
  List.length_map _

theorem confined_openScope (h : s.forest.Rooted root) (n : Node) (kind : ScopeKind) (hlo : root ≤ scope)
    (hhi : scope < s.forest.outline.length) : Resolver.Confined root s (s.openScope n kind scope).1 := by
  have houtline : (s.openScope n kind scope).1.forest.outline = s.forest.outline ++ [(kind, some scope)] :=
    outline_addScope _ _ _ _
  obtain ⟨parent, hroot⟩ := h.isFunction
  have hlt : root < s.forest.outline.length := (List.getElem?_eq_some_iff.1 hroot).1
  refine ⟨⟨⟨parent, ?_⟩, fun j kind' parent' hj hp => ?_⟩, fun j hj => ?_, ?_⟩
  · rw [houtline, List.getElem?_append_left hlt, hroot]
  · rw [houtline] at hp
    by_cases hlast : j < s.forest.outline.length
    · rw [List.getElem?_append_left hlast] at hp
      exact h.inside j kind' parent' hj hp
    · obtain ⟨hj', hp⟩ := List.getElem?_eq_some_iff.1 hp
      obtain rfl : j = s.forest.outline.length := by
        rw [List.length_append, List.length_singleton] at hj'
        omega
      rw [List.getElem_append_right (Nat.le_refl _)] at hp
      simp at hp
      exact ⟨scope, hp.2.symm, hlo, hhi⟩
  · rw [length_outline] at hlt
    exact List.getElem?_append_left (by omega)
  · rw [houtline]
    simp

/-- What happens at a node stays inside the outermost scope, and the scope of the children is in it. -/
theorem confined_enterNode (source : Source) (h : s.forest.Rooted root) (n : Node) (shared : Bool)
    (hlo : root ≤ scope) (hhi : scope < s.forest.outline.length) :
    Resolver.Confined root s (enterNode source root n shared scope s).1 ∧
      root ≤ (enterNode source root n shared scope s).2 ∧
      (enterNode source root n shared scope s).2 <
        (enterNode source root n shared scope s).1.forest.outline.length := by
  have hdeclares : ∀ {inner : Nat} {s : Resolver}, s.forest.Rooted root → root ≤ inner →
      Resolver.Confined root s (declareNames source root n scope inner s) := fun h hinner =>
    .ofDeclares h (declares_declareNames (Nat.le_refl _) hlo hinner (h.le_closestFunction hlo) n)
  unfold enterNode
  split
  · exact ⟨.refl h, hlo, hhi⟩
  · split
    · next kind hkind =>
        have hopened := confined_openScope h n kind hlo hhi
        have hinner : root ≤ s.forest.scopes.length := by
          rw [length_outline] at hhi
          omega
        have hnames := hdeclares hopened.rooted hinner
        refine ⟨hopened.trans hnames, hinner, Nat.lt_of_lt_of_le ?_ hnames.grows⟩
        have houtline : (s.openScope n kind scope).1.forest.outline =
            s.forest.outline ++ [(kind, some scope)] := outline_addScope _ _ _ _
        rw [houtline, List.length_append, length_outline]
        exact Nat.lt_succ_self _
    · have hnames := hdeclares h hlo
      have hlt := Nat.lt_of_lt_of_le hhi hnames.grows
      split
      · simp only [Resolver.refer]
        split
        · exact ⟨hnames, hlo, hlt⟩
        · exact ⟨⟨hnames.rooted, hnames.older, hnames.grows⟩, hlo, hlt⟩
      · exact ⟨hnames, hlo, hlt⟩

mutual

/-- Visits stay inside the outermost scope. -/
theorem confined_visitNode (source : Source) : ∀ (n : Node) (shared : Bool) {scope : Nat} {s : Resolver},
    s.forest.Rooted root → root ≤ scope → scope < s.forest.outline.length →
    Resolver.Confined root s (visitNode source root shared scope n s)
  | .mk k r a b i cs, shared, scope, s, h, hlo, hhi => by
      obtain ⟨hentered, hlo', hhi'⟩ :=
        confined_enterNode source h (.mk k r a b i cs) shared hlo hhi
      rw [visitNode]
      exact hentered.trans (confined_visitChildren source cs k hentered.rooted hlo' hhi')

theorem confined_visitChildren (source : Source) : ∀ (cs : List Node) (parent : Kind) {scope : Nat}
    {s : Resolver}, s.forest.Rooted root → root ≤ scope → scope < s.forest.outline.length →
    Resolver.Confined root s (visitChildren source root parent scope cs s)
  | [], parent, scope, s, h, hlo, hhi => by
      rw [visitChildren]
      exact .refl h
  | c :: cs, parent, scope, s, h, hlo, hhi => by
      rw [visitChildren_cons]
      split
      · exact confined_visitChildren source cs parent h hlo hhi
      · have hfirst := confined_visitNode source c (treatment parent c == .share) h hlo hhi
        exact hfirst.trans
          (confined_visitChildren source cs parent hfirst.rooted hlo (Nat.lt_of_lt_of_le hhi hfirst.grows))

end

/-- **A handler leaves the scopes before it alone.** -/
theorem keeps_resolveHandler (source : Source) (n : Node) (forest : Forest) (around : ScopeId) :
    forest.Keeps (resolveHandler source n forest around).1 := by
  have houtline : (forest.addScope "expression" .function (some around)).1.outline =
      forest.outline ++ [(.function, some around)] := outline_addScope _ _ _ _
  have hold : ∀ j, j < forest.scopes.length →
      (forest.addScope "expression" .function (some around)).1.get? j = forest.get? j :=
    fun j hj => List.getElem?_append_left hj
  -- the scope of the handler is the last one, so nothing is behind it yet
  generalize hopened : (forest.addScope "expression" .function (some around)).1 = opened at houtline hold
  have hlength : opened.outline.length = forest.scopes.length + 1 := by
    rw [houtline, List.length_append, length_outline]
    rfl
  have hrooted : opened.Rooted forest.scopes.length := by
    refine ⟨⟨some around, ?_⟩, fun j kind parent hj hp => ?_⟩
    · rw [houtline, ← length_outline]
      simp
    · rw [List.getElem?_eq_none (by omega)] at hp
      cases hp
  have hconfined := confined_visitNode source (s := ⟨opened, [⟨n.id, forest.scopes.length⟩], [], [], 0⟩)
    n false hrooted (Nat.le_refl _) (by rw [hlength]; exact Nat.lt_succ_self _)
  intro j hj
  rw [← hold j hj, ← hconfined.older j hj, ← hopened]
  rfl

end ReactiveTemplate

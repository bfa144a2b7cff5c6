/-
**One pass over the reactive blocks reaches the fixpoint.**

A generated module keeps a set of changed bindings.  To act on changes it goes over the guarded
reactive blocks once, in the order in which they are written: a block runs if one of the names it
waits for has changed, and what it assigns to has changed from then on.  This module runs that pass
on the blocks of `ReactiveTemplate.Document.generate` and compares it with the declarations they were
made of.

The blocks carry names and indices, the declarations only names.  Bindings give different names
different indices, so the pass over the blocks is the same pass over the declarations, with sets of
names in place of sets of indices.  There, a declaration runs exactly when an *earlier* one that ran
has woken it; since no declaration feeds one before it, the word "earlier" may be dropped.

Main definitions:

* `ReactiveTemplate.runPass` — the pass over blocks, as the places of those that run;
* `ReactiveTemplate.namePass` — the pass over declarations;
* `ReactiveTemplate.Woken` — whether a declaration reads a name that was changed beforehand or is
  assigned by a declaration of a given set.

Main results:

* `ReactiveTemplate.mem_namePass` — a declaration runs exactly when it is woken by those before it;
* `ReactiveTemplate.isLeast_namePass` — in a proper order, those that run are the least fixpoint;
* `ReactiveTemplate.runPass_eq_namePass` — blocks and declarations run alike;
* `ReactiveTemplate.generate_pass_isLeast` — **the pass over generated blocks reaches the fixpoint**,
  each block runs at most once and after all it depends on.
-/

import Mathlib.Order.Bounds.Basic
import ReactiveTemplate.Generation.Basic
import ReactiveTemplate.Markup.Reader
import ReactiveTemplate.Proofs.RunningOrder

set_option relaxedAutoImplicit false
set_option autoImplicit false

namespace ReactiveTemplate

open Script

/-! ### The pass over blocks -/

/-- Whether a block waits for a name that has changed. A block that waits for no name never runs in
a pass. -/
def ReactiveBlock.wakes (bindings : Bindings) (changed : List Int) (b : ReactiveBlock) : Bool :=
  b.names.any fun name => (bindings.index? name).any fun i => i ∈ changed

/-- One pass over blocks, the first of which is at `place`: the places of those that run, in the
order in which they do. What a block assigns to has changed for the blocks behind it. -/
def runPass (bindings : Bindings) : Nat → List ReactiveBlock → List Int → List Nat
  | _, [], _ => []
  | place, b :: bs, changed =>
    if b.wakes bindings changed then
      place :: runPass bindings (place + 1) bs (changed ++ b.indices)
    else runPass bindings (place + 1) bs changed

/-! ### The pass over declarations -/

/-- One pass over declarations, the first of which is at `place`: the places of those that run. -/
def namePass : Nat → List Dependent → List String → List Nat
  | _, [], _ => []
  | place, d :: ds, changed =>
    if d.dependencies.any fun name => name ∈ changed then
      place :: namePass (place + 1) ds (changed ++ d.assignees)
    else namePass (place + 1) ds changed

theorem le_of_mem_namePass {ds : List Dependent} :
    ∀ {place : Nat} {changed : List String} {k : Nat}, k ∈ namePass place ds changed → place ≤ k := by
  induction ds with
  | nil => intro place changed k hk; cases hk
  | cons d ds ih =>
      intro place changed k hk
      rw [namePass] at hk
      split at hk
      · rcases List.mem_cons.1 hk with rfl | hk
        · exact Nat.le_refl _
        · exact Nat.le_of_succ_le (ih hk)
      · exact Nat.le_of_succ_le (ih hk)

/-- A pass goes forward, so each declaration runs at most once. -/
theorem pairwise_lt_namePass (ds : List Dependent) :
    ∀ (place : Nat) (changed : List String), (namePass place ds changed).Pairwise (· < ·) := by
  induction ds with
  | nil => intro place changed; exact List.Pairwise.nil
  | cons d ds ih =>
      intro place changed
      rw [namePass]
      split
      · exact List.pairwise_cons.2 ⟨fun k hk => le_of_mem_namePass hk, ih _ _⟩
      · exact ih _ _

/-- The first declaration of a pass runs exactly when it reads a changed name. -/
theorem place_mem_namePass {d : Dependent} {ds : List Dependent} {place : Nat}
    {changed : List String} :
    place ∈ namePass place (d :: ds) changed ↔ ∃ name ∈ d.dependencies, name ∈ changed := by
  have hrest : ∀ changed', place ∉ namePass (place + 1) ds changed' := fun changed' h => by
    have := le_of_mem_namePass h
    omega
  rw [namePass]
  split
  · next h => simpa using h
  · next h =>
    refine iff_of_false (hrest changed) fun hex => h ?_
    simpa using hex

/-- The names that have changed after the first declaration of a pass. -/
def changedBehind (place : Nat) (d : Dependent) (ds : List Dependent) (changed : List String) :
    List String :=
  if place ∈ namePass place (d :: ds) changed then changed ++ d.assignees else changed

theorem mem_changedBehind {place : Nat} {d : Dependent} {ds : List Dependent}
    {changed : List String} {name : String} :
    name ∈ changedBehind place d ds changed ↔
      name ∈ changed ∨ (place ∈ namePass place (d :: ds) changed ∧ name ∈ d.assignees) := by
  unfold changedBehind
  split
  · next h => simp [h]
  · next h => simp [h]

/-- A later declaration of a pass runs as it does in the pass over the rest. -/
theorem succ_mem_namePass {d : Dependent} {ds : List Dependent} {place k : Nat}
    {changed : List String} :
    place + (k + 1) ∈ namePass place (d :: ds) changed ↔
      place + 1 + k ∈ namePass (place + 1) ds (changedBehind place d ds changed) := by
  have hfirst : place ∈ namePass place (d :: ds) changed ↔
      ∃ name ∈ d.dependencies, name ∈ changed := place_mem_namePass
  rw [changedBehind, show place + (k + 1) = place + 1 + k by omega]
  by_cases h : ∃ name ∈ d.dependencies, name ∈ changed
  · rw [if_pos (hfirst.2 h), namePass, if_pos (by simpa using h), List.mem_cons]
    exact or_iff_right (by omega)
  · rw [if_neg fun hm => h (hfirst.1 hm), namePass, if_neg (by simpa using h)]

/-- A declaration runs exactly when it reads a name that was changed beforehand or is assigned by a
declaration that ran before it. -/
theorem mem_namePass {ds : List Dependent} :
    ∀ {place : Nat} {changed : List String} {k : Nat},
      place + k ∈ namePass place ds changed ↔
        ∃ d, ds[k]? = some d ∧ ∃ name ∈ d.dependencies, name ∈ changed ∨
          ∃ j < k, place + j ∈ namePass place ds changed ∧
            ∃ e, ds[j]? = some e ∧ name ∈ e.assignees := by
  induction ds with
  | nil => intro place changed k; simp [namePass]
  | cons d ds ih =>
      intro place changed k
      cases k with
      | zero =>
          have hfirst : place ∈ namePass place (d :: ds) changed ↔ _ := place_mem_namePass
          simpa using hfirst
      | succ k =>
          rw [succ_mem_namePass, ih, List.getElem?_cons_succ]
          refine exists_congr fun e => and_congr_right fun _ => exists_congr fun name =>
            and_congr_right fun _ => ?_
          -- what wakes the declaration was changed before the first one, by it, or behind it
          rw [mem_changedBehind]
          constructor
          · rintro ((hname | ⟨hran, hname⟩) | ⟨j, hj, hran, e', he', hname⟩)
            · exact Or.inl hname
            · exact Or.inr ⟨0, by omega, hran, d, rfl, hname⟩
            · exact Or.inr ⟨j + 1, by omega, succ_mem_namePass.2 hran, e', he', hname⟩
          · rintro (hname | ⟨j, hj, hran, e', he', hname⟩)
            · exact Or.inl (Or.inl hname)
            · cases j with
              | zero =>
                  obtain rfl : d = e' := by simpa using he'
                  exact Or.inl (Or.inr ⟨hran, hname⟩)
              | succ j =>
                  exact Or.inr ⟨j, by omega, succ_mem_namePass.1 hran, e', he', hname⟩

/-- A declaration that reads nothing does not run. -/
theorem dependencies_ne_nil_of_mem_namePass {ds : List Dependent} {changed : List String} {k : Nat}
    {d : Dependent} (hk : k ∈ namePass 0 ds changed) (hd : ds[k]? = some d) :
    d.dependencies ≠ [] := by
  rw [← Nat.zero_add k] at hk
  obtain ⟨e, he, name, hname, -⟩ := mem_namePass.1 hk
  obtain rfl : d = e := Option.some.inj (hd.symm.trans he)
  exact List.ne_nil_of_mem hname

/-! ### The fixpoint -/

/-- A declaration reads a name that was changed beforehand, or that a declaration at one of the
given places assigns to. -/
def Woken (ds : List Dependent) (changed : List String) (ran : Set Nat) (k : Nat) : Prop :=
  ∃ d, ds[k]? = some d ∧ ∃ name ∈ d.dependencies, name ∈ changed ∨
    ∃ j ∈ ran, ∃ e, ds[j]? = some e ∧ name ∈ e.assignees

/-- Declarations none of which assigns to what one before it reads. -/
abbrev InOrder (ds : List Dependent) : Prop :=
  ds.Pairwise fun d e => ∀ name ∈ d.dependencies, name ∉ e.assignees

theorem InOrder.not_mem {ds : List Dependent} (h : InOrder ds) {i j : Nat} {d e : Dependent}
    (hij : i < j) (hi : ds[i]? = some d) (hj : ds[j]? = some e) :
    ∀ name ∈ d.dependencies, name ∉ e.assignees := by
  obtain ⟨hi', rfl⟩ := List.getElem?_eq_some_iff.1 hi
  obtain ⟨hj', rfl⟩ := List.getElem?_eq_some_iff.1 hj
  exact List.pairwise_iff_getElem.1 h i j hi' hj' hij

/-- In a proper order, the declarations that run in one pass are the least set that holds each
declaration exactly when it is woken by the set. -/
theorem isLeast_namePass {ds : List Dependent} (h : InOrder ds) (changed : List String) :
    IsLeast {ran : Set Nat | ∀ k, k ∈ ran ↔ Woken ds changed ran k}
      {k | k ∈ namePass 0 ds changed} := by
  have hmem : ∀ k, k ∈ namePass 0 ds changed ↔ ∃ d, ds[k]? = some d ∧
      ∃ name ∈ d.dependencies, name ∈ changed ∨ ∃ j < k, j ∈ namePass 0 ds changed ∧
        ∃ e, ds[j]? = some e ∧ name ∈ e.assignees := fun k => by
    have hk : 0 + k ∈ namePass 0 ds changed ↔ _ := mem_namePass
    simpa using hk
  constructor
  · intro k
    constructor
    · intro hk
      obtain ⟨d, hd, name, hname, hw⟩ := (hmem k).1 hk
      refine ⟨d, hd, name, hname, ?_⟩
      rcases hw with hw | ⟨j, -, hj, hw⟩
      · exact Or.inl hw
      · exact Or.inr ⟨j, hj, hw⟩
    · rintro ⟨d, hd, name, hname, hw⟩
      rcases hw with hw | ⟨j, hj, e, he, hw⟩
      · exact (hmem k).2 ⟨d, hd, name, hname, Or.inl hw⟩
      · -- what wakes a declaration comes before it, or is the declaration itself
        rcases Nat.lt_trichotomy j k with hjk | rfl | hkj
        · exact (hmem k).2 ⟨d, hd, name, hname, Or.inr ⟨j, hjk, hj, e, he, hw⟩⟩
        · exact hj
        · exact absurd hw (h.not_mem hkj hd he name hname)
  · intro ran hran k
    -- each declaration that runs was woken by earlier ones, which are in the set already
    induction k using Nat.strong_induction_on with
    | _ k ih =>
        intro hk
        obtain ⟨d, hd, name, hname, hw⟩ := (hmem k).1 hk
        refine (hran k).2 ⟨d, hd, name, hname, ?_⟩
        rcases hw with hw | ⟨j, hjk, hj, hw⟩
        · exact Or.inl hw
        · exact Or.inr ⟨j, ih j hjk hj, hw⟩

/-! ### Bindings -/

theorem toOption_eq_some_iff {ε α : Type} {x : Except ε α} {a : α} :
    x.toOption = some a ↔ x = .ok a := by
  cases x <;> simp [Except.toOption]

/-- A computation in steps succeeds when each step does. -/
theorem exists_of_bind_eq_ok {ε α β : Type} {x : Except ε α} {f : α → Except ε β} {b : β}
    (h : x >>= f = .ok b) : ∃ a, x = .ok a ∧ f a = .ok b := by
  cases x with
  | error e => cases h
  | ok a => exact ⟨a, rfl, h⟩

namespace Bindings

theorem mem_of_index?_eq_some {bindings : Bindings} {name : String} {i : Int}
    (h : bindings.index? name = some i) : (name, i) ∈ bindings := by
  obtain ⟨b, hb, rfl⟩ := Option.map_eq_some_iff.1 h
  have hname : b.1 = name := by simpa using List.find?_some hb
  exact hname ▸ List.mem_of_find?_eq_some hb

theorem binds_iff {bindings : Bindings} {name : String} :
    bindings.binds name = true ↔ ∃ i, bindings.index? name = some i :=
  Option.isSome_iff_exists

/-- Of names that are numbered, exactly those are bound. -/
@[simp] theorem binds_ofNames {names : List String} {name : String} :
    (ofNames names).binds name = true ↔ name ∈ names := by
  have hfst : (ofNames names).map Prod.fst = names := List.map_fst_zip (by simp)
  rw [binds, index?, Option.isSome_map, List.find?_isSome]
  constructor
  · rintro ⟨b, hb, hname⟩
    rw [← hfst]
    exact List.mem_map.2 ⟨b, hb, by simpa using hname⟩
  · intro h
    rw [← hfst] at h
    obtain ⟨b, hb, hname⟩ := List.mem_map.1 h
    exact ⟨b, hb, by simpa using hname⟩

/-- Different names have different indices. -/
def Separates (bindings : Bindings) : Prop :=
  ∀ x y i, bindings.index? x = some i → bindings.index? y = some i → x = y

theorem separates_ofNames (names : List String) : (ofNames names).Separates := by
  intro x y i hx hy
  obtain ⟨k, hk, hkx⟩ := List.mem_iff_getElem.1 (mem_of_index?_eq_some hx)
  obtain ⟨l, hl, hly⟩ := List.mem_iff_getElem.1 (mem_of_index?_eq_some hy)
  simp only [ofNames, List.getElem_zip, List.getElem_map, List.getElem_range, Prod.mk.injEq] at hkx hly
  have hkl : k = l := Int.ofNat.inj (hkx.2.trans hly.2.symm)
  subst hkl
  exact hkx.1.symm.trans hly.1

theorem index_eq_ok {bindings : Bindings} {name : String} {i : Int}
    (h : bindings.index name = .ok i) : bindings.index? name = some i := by
  unfold index at h
  cases hi : bindings.index? name with
  | none => rw [hi] at h; cases h
  | some k =>
      rw [hi] at h
      cases h
      rfl

/-- The indices of names that must be bound. -/
theorem mem_of_indices_eq_ok {bindings : Bindings} {names : List String} :
    ∀ {is : List Int}, bindings.indices names = .ok is →
      ∀ i, i ∈ is ↔ ∃ name ∈ names, bindings.index? name = some i := by
  induction names with
  | nil =>
      intro is h
      cases h
      simp
  | cons name names ih =>
      intro is h i
      obtain ⟨k, hk, h⟩ := exists_of_bind_eq_ok h
      obtain ⟨rest, hrest, h⟩ := exists_of_bind_eq_ok h
      have hname : bindings.index? name = some k := index_eq_ok hk
      cases h
      simp [ih hrest, hname, eq_comm]

end Bindings

/-! ### Blocks and declarations -/

/-- A block made of a declaration: it waits for what the declaration reads and, if that is anything,
has the indices of what the declaration assigns to. -/
structure ReactiveBlock.Renders (bindings : Bindings) (d : Dependent) (b : ReactiveBlock) : Prop where
  names_eq : b.names = d.dependencies.filter bindings.binds
  mem_indices : b.names ≠ [] →
    ∀ i, i ∈ b.indices ↔ ∃ name ∈ d.assignees, bindings.index? name = some i

theorem reactiveBlock_renders {program : Option Source} {bindings : Bindings}
    {d : ReactiveDeclaration} {b : ReactiveBlock} (h : reactiveBlock program bindings d = .ok b) :
    b.Renders bindings d.toDependent := by
  unfold reactiveBlock at h
  by_cases hnames : (d.dependencies.filter bindings.binds).isEmpty
  · simp only [hnames, if_true] at h
    cases h
    exact ⟨rfl, fun hne => absurd (List.isEmpty_iff.1 hnames) hne⟩
  · simp only [hnames, Bool.false_eq_true, if_false] at h
    obtain ⟨is, hi, h⟩ := exists_of_bind_eq_ok h
    cases h
    exact ⟨rfl, fun _ => Bindings.mem_of_indices_eq_ok hi⟩

theorem reactiveBlocks_render {program : Option Source} {bindings : Bindings}
    {ds : List ReactiveDeclaration} :
    ∀ {bs : List ReactiveBlock}, reactiveBlocks program bindings ds = .ok bs →
      List.Forall₂ (fun d b => b.Renders bindings d) (ds.map ReactiveDeclaration.toDependent) bs := by
  induction ds with
  | nil =>
      intro bs h
      cases h
      exact .nil
  | cons d ds ih =>
      intro bs h
      obtain ⟨b, hb, h⟩ := exists_of_bind_eq_ok h
      obtain ⟨rest, hrest, h⟩ := exists_of_bind_eq_ok h
      cases h
      exact .cons (reactiveBlock_renders hb) (ih hrest)

/-- A set of indices stands for a set of names: a bound name is in the one exactly when its index is
in the other. -/
def StandsFor (bindings : Bindings) (indices : List Int) (names : List String) : Prop :=
  ∀ name i, bindings.index? name = some i → (i ∈ indices ↔ name ∈ names)

theorem standsFor_filterMap {bindings : Bindings} (hsep : bindings.Separates)
    (names : List String) : StandsFor bindings (names.filterMap bindings.index?) names := by
  intro name i hi
  rw [List.mem_filterMap]
  constructor
  · rintro ⟨other, hother, hoi⟩
    exact hsep other name i hoi hi ▸ hother
  · exact fun h => ⟨name, h, hi⟩

/-- A block made of a declaration that reads bound names waits for all of them. -/
theorem ReactiveBlock.Renders.names_eq_dependencies {bindings : Bindings} {d : Dependent}
    {b : ReactiveBlock} (h : b.Renders bindings d)
    (hbound : ∀ name ∈ d.dependencies, bindings.binds name = true) : b.names = d.dependencies := by
  rw [h.names_eq]
  exact List.filter_eq_self.2 hbound

theorem ReactiveBlock.Renders.wakes_iff {bindings : Bindings} {d : Dependent} {b : ReactiveBlock}
    (h : b.Renders bindings d) (hbound : ∀ name ∈ d.dependencies, bindings.binds name = true)
    {indices : List Int} {changed : List String} (hs : StandsFor bindings indices changed) :
    b.wakes bindings indices = true ↔ ∃ name ∈ d.dependencies, name ∈ changed := by
  rw [ReactiveBlock.wakes, h.names_eq_dependencies hbound, List.any_eq_true]
  refine exists_congr fun name => and_congr_right fun hname => ?_
  obtain ⟨i, hi⟩ := Bindings.binds_iff.1 (hbound name hname)
  simpa [hi] using hs name i hi

/-- The blocks made of declarations run as the declarations do. -/
theorem runPass_eq_namePass {bindings : Bindings} (hsep : bindings.Separates) {ds : List Dependent}
    {bs : List ReactiveBlock} (h : List.Forall₂ (fun d b => b.Renders bindings d) ds bs)
    (hbound : ∀ d ∈ ds, ∀ name ∈ d.dependencies, bindings.binds name = true) :
    ∀ {place : Nat} {indices : List Int} {changed : List String},
      StandsFor bindings indices changed →
        runPass bindings place bs indices = namePass place ds changed := by
  induction h with
  | nil => intro place indices changed _; rfl
  | @cons d b ds bs hb _ ih =>
      intro place indices changed hs
      have hd := hbound d (List.mem_cons_self ..)
      have hrest := fun e he => hbound e (List.mem_cons_of_mem _ he)
      have hwakes := hb.wakes_iff hd hs
      rw [runPass, namePass]
      by_cases hex : ∃ name ∈ d.dependencies, name ∈ changed
      · rw [if_pos (hwakes.2 hex), if_pos (by simpa using hex)]
        have hne : b.names ≠ [] := by
          obtain ⟨name, hname, -⟩ := hex
          rw [hb.names_eq_dependencies hd]
          exact List.ne_nil_of_mem hname
        -- the indices of what the block assigns to stand for what the declaration assigns to
        refine congrArg (place :: ·) (ih hrest fun name i hi => ?_)
        rw [List.mem_append, List.mem_append, hs name i hi, hb.mem_indices hne]
        refine or_congr_right ⟨?_, fun hname => ⟨name, hname, hi⟩⟩
        rintro ⟨other, hother, hoi⟩
        exact hsep other name i hoi hi ▸ hother
      · rw [if_neg fun hw => hex (hwakes.1 hw), if_neg (by simpa using hex)]
        exact ih hrest hs

/-! ### Generated blocks -/

theorem assemble_eq_ok {options : Options} {d : Document} {a : Analysis} {markup : MarkupCode}
    {g : Generated} (h : assemble options d a markup = .ok g) :
    g.bindings = a.bindings ∧ reactiveBlocks d.program? a.bindings a.reactive = .ok g.reactive ∧
      g.create = markup.create ∧ g.destroy = markup.destroy ∧
      scriptTexts d.script = .ok (g.imports, g.body) := by
  obtain ⟨blocks, hblocks, h⟩ := exists_of_bind_eq_ok h
  obtain ⟨texts, htexts, h⟩ := exists_of_bind_eq_ok h
  obtain ⟨text, -, h⟩ := exists_of_bind_eq_ok h
  cases h
  exact ⟨rfl, hblocks, rfl, rfl, htexts⟩

/-- The variables and the update blocks of a component. -/
theorem markup_assemble {options : Options} {d : Document} {a : Analysis} {markup : MarkupCode}
    {g : Generated} (h : assemble options d a markup = .ok g) :
    g.locals = Names.union markup.locals (undeclaredAssignees a) ∧ g.update = markup.update := by
  obtain ⟨blocks, -, h⟩ := exists_of_bind_eq_ok h
  obtain ⟨texts, -, h⟩ := exists_of_bind_eq_ok h
  obtain ⟨text, -, h⟩ := exists_of_bind_eq_ok h
  cases h
  exact ⟨rfl, rfl⟩

/-- When generation succeeds, the markup has its code, the declarations have been put in order, and the
component has been put together from both. -/
theorem exists_assemble_of_generate {options : Options} {d : Document} {a : Analysis} {g : Generated}
    (h : (d.generate options a).result = .ok g) :
    ∃ markup ordered, markupCode (.of options d.program? a) d.html = .ok markup ∧
      orderDeclarations (d.announced a) a.reactive = .ok ordered ∧
      (d.generate options a).analysis = { a with reactive := ordered } ∧
      assemble options (d.announced a) { a with reactive := ordered } markup = .ok g := by
  unfold Document.generate at h ⊢
  -- the markup and then the order may fail, and either failure is the result of generation
  cases hm : markupCode (.of options d.program? a) d.html with
  | error e => rw [hm] at h; cases h
  | ok markup =>
      rw [hm] at h
      cases ho : orderDeclarations (d.announced a) a.reactive with
      | error e => simp only [ho] at h; cases h
      | ok ordered =>
          simp only [ho] at h ⊢
          exact ⟨markup, ordered, rfl, rfl, rfl, h⟩

/-- When generation succeeds, the declarations have been put in order, and the blocks are made of
them in that order. -/
theorem generate_eq_ok {options : Options} {d : Document} {a : Analysis} {g : Generated}
    (h : (d.generate options a).result = .ok g) :
    ∃ ordered, orderDeclarations (d.announced a) a.reactive = .ok ordered ∧
      (d.generate options a).analysis = { a with reactive := ordered } ∧
      g.bindings = Analysis.bindings { a with reactive := ordered } ∧
      reactiveBlocks (d.announced a).program? g.bindings ordered = .ok g.reactive := by
  obtain ⟨markup, ordered, -, hordered, hanalysis, hassemble⟩ := exists_assemble_of_generate h
  obtain ⟨hbind, hblocks, -⟩ := assemble_eq_ok hassemble
  refine ⟨ordered, hordered, hanalysis, hbind, ?_⟩
  rw [hbind]
  exact hblocks

/-- When generation succeeds, the markup has its code, and the script its texts, once its changes are
announced. -/
theorem generate_eq_ok_parts {options : Options} {d : Document} {a : Analysis} {g : Generated}
    (h : (d.generate options a).result = .ok g) :
    ∃ markup, markupCode (.of options d.program? a) d.html = .ok markup ∧
      g.create = markup.create ∧ g.destroy = markup.destroy ∧
      scriptTexts (d.announced a).script = .ok (g.imports, g.body) := by
  obtain ⟨markup, ordered, hmarkup, -, -, hassemble⟩ := exists_assemble_of_generate h
  exact ⟨markup, hmarkup, (assemble_eq_ok hassemble).2.2⟩

/-- Places in an order in which each comes after those it waits for. -/
theorem LeastOrder.pairwise {ds : List Dependent} {done order : List Nat}
    (h : LeastOrder ds done order) (hd : done.Nodup) :
    order.Pairwise fun i j => i ≠ j ∧ ¬ Feeds ds j i := by
  induction h with
  | nil done => exact List.Pairwise.nil
  | @cons done order i first rest ih =>
      have hnd : (done ++ i :: order).Nodup := (LeastOrder.cons first rest).nodup hd
      obtain ⟨-, hcons, hdisj⟩ := List.nodup_append.1 hnd
      refine List.pairwise_cons.2 ⟨fun j hj => ⟨?_, fun hf => ?_⟩, ih (first.nodup_append hd)⟩
      · rintro rfl
        exact (List.nodup_cons.1 hcons).1 hj
      · exact hdisj j (first.ready.fed j hf) j (List.mem_cons_of_mem _ hj) rfl

/-- The declarations that ordering gives are those it was given, and none assigns to what one before
it reads. -/
theorem orderDeclarations_eq_ok {d : Document} {declarations ordered : List ReactiveDeclaration}
    (h : orderDeclarations d declarations = .ok ordered) :
    ordered.Perm declarations ∧ InOrder (ordered.map ReactiveDeclaration.toDependent) := by
  unfold orderDeclarations at h
  rcases runningOrder_cases (declarations.map ReactiveDeclaration.toDependent) with
    ⟨order, hok, hleast, hperm⟩ | ⟨cycle, herr, -⟩
  · rw [hok] at h
    cases h
    rw [allPlaces, List.length_map] at hperm
    refine ⟨?_, ?_⟩
    · have hmap := hperm.filterMap fun i => declarations[i]?
      rwa [filterMap_getElem?_range] at hmap
    · rw [InOrder, List.pairwise_map, List.pairwise_filterMap]
      refine (hleast.pairwise List.nodup_nil).imp fun {i j} hij d hd e he name hname hassign => ?_
      refine hij.2 ⟨hij.1.symm, e.toDependent, d.toDependent, ?_, ?_, name, hassign, hname⟩
      · rw [List.getElem?_map, he]; rfl
      · rw [List.getElem?_map, hd]; rfl
  · rw [herr] at h
    cases h

/-- What declarations read is bound. -/
theorem Analysis.binds_dependencies (a : Analysis) :
    ∀ d ∈ a.reactive.map ReactiveDeclaration.toDependent,
      ∀ name ∈ d.dependencies, a.bindings.binds name = true := by
  intro e he name hname
  obtain ⟨d, hd, rfl⟩ := List.mem_map.1 he
  have hmem : name ∈ a.reactiveDependencies :=
    Names.mem_ofList.2 (List.mem_flatMap.2 ⟨d, hd, hname⟩)
  rw [Analysis.bindings, Bindings.binds_ofNames, Names.sort, mem_sortBy, Names.mem_union]
  exact Or.inr hmem

/-- **One pass over the generated blocks reaches the fixpoint.** Whatever has changed beforehand, the
declarations that run are the least set that holds each declaration exactly when it reads a name that
changed beforehand or is assigned by the set; each runs at most once, and none reads what one that
runs later assigns to. The blocks without a guard, which do not run in the pass, are those of the
declarations that read nothing. -/
theorem generate_pass_isLeast (options : Options) (d : Document) (a : Analysis) (g : Generated)
    (h : (d.generate options a).result = .ok g) (changed : List String) :
    let ds := (d.generate options a).analysis.reactive.map ReactiveDeclaration.toDependent
    let ran := runPass g.bindings 0 g.reactive (changed.filterMap g.bindings.index?)
    ((d.generate options a).analysis.reactive.Perm a.reactive ∧
        g.reactive.length = ds.length) ∧
      IsLeast {R : Set Nat | ∀ k, k ∈ R ↔ Woken ds changed R k} {k | k ∈ ran} ∧
      ran.Nodup ∧
      (ran.Pairwise fun i j => ∀ d e, ds[i]? = some d → ds[j]? = some e →
        ∀ name ∈ d.dependencies, name ∉ e.assignees) ∧
      ∀ k b d, g.reactive[k]? = some b → ds[k]? = some d →
        (b.names = [] ↔ d.dependencies = []) ∧ (b.names = [] → k ∉ ran) := by
  obtain ⟨ordered, hordered, hanalysis, hbind, hblocks⟩ := generate_eq_ok h
  obtain ⟨hperm, hinorder⟩ := orderDeclarations_eq_ok hordered
  have hrender := reactiveBlocks_render hblocks
  have hsep : g.bindings.Separates := hbind ▸ Bindings.separates_ofNames _
  have hbound : ∀ d ∈ ordered.map ReactiveDeclaration.toDependent,
      ∀ name ∈ d.dependencies, g.bindings.binds name = true :=
    hbind ▸ Analysis.binds_dependencies { a with reactive := ordered }
  rw [hanalysis]
  intro ds ran
  have hran : ran = namePass 0 ds changed :=
    runPass_eq_namePass hsep hrender hbound (standsFor_filterMap hsep changed)
  have hsorted : ran.Pairwise (· < ·) := hran ▸ pairwise_lt_namePass ds 0 changed
  refine ⟨⟨hperm, hrender.length_eq.symm⟩, ?_, ?_, ?_, ?_⟩
  · rw [hran]
    exact isLeast_namePass hinorder changed
  · exact hsorted.imp fun hlt => Nat.ne_of_lt hlt
  · exact hsorted.imp fun hlt d e hd he => hinorder.not_mem hlt hd he
  · intro k b e hb he
    obtain ⟨hk, rfl⟩ := List.getElem?_eq_some_iff.1 hb
    obtain ⟨hk', rfl⟩ := List.getElem?_eq_some_iff.1 he
    have hren : g.reactive[k].Renders g.bindings ds[k] := hrender.get hk' hk
    have hnames := hren.names_eq_dependencies (hbound _ (List.getElem_mem hk'))
    refine ⟨by rw [hnames], fun hnil hk => ?_⟩
    rw [hran] at hk
    exact dependencies_ne_nil_of_mem_namePass hk he (hnames ▸ hnil)

/-- Two declarations in a chain, written the wrong way round: a change of `a` runs both of them in one
pass. -/
theorem generate_pass_isLeast_chain :
    ∃ d g, Document.parse "<script>$: c=b;$: b=a</script>" "chain" = .ok d ∧
      ((d.analyze .default).2.generate .default (d.analyze .default).1).result = .ok g ∧
      runPass g.bindings 0 g.reactive (["a"].filterMap g.bindings.index?) = [0, 1] ∧
      IsLeast
        {R : Set Nat | ∀ k, k ∈ R ↔
          Woken (((d.analyze .default).2.generate .default
            (d.analyze .default).1).analysis.reactive.map ReactiveDeclaration.toDependent) ["a"] R k}
        {k | k ∈ runPass g.bindings 0 g.reactive (["a"].filterMap g.bindings.index?)} := by
  have hrun : ((Document.parse "<script>$: c=b;$: b=a</script>" "chain").toOption.any fun d =>
      ((d.analyze .default).2.generate .default (d.analyze .default).1).result.toOption.any fun g =>
        runPass g.bindings 0 g.reactive (["a"].filterMap g.bindings.index?) == [0, 1]) = true := by
    decide +kernel
  obtain ⟨d, hd, hrun⟩ := (Option.any_eq_true _ _).1 hrun
  obtain ⟨g, hg, hrun⟩ := (Option.any_eq_true _ _).1 hrun
  rw [toOption_eq_some_iff] at hd hg
  exact ⟨d, g, hd, hg, by simpa using hrun, (generate_pass_isLeast .default _ _ g hg ["a"]).2.1⟩

end ReactiveTemplate

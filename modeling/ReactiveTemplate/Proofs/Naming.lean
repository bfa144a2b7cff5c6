/-
**Which names of the user the generated variables take.**

The variables for nodes and handlers are named by a stem and a running number.  The stem is told from the
tag or the event, and the number from the place in the markup; the names that the script and the markup
use are not looked at.  So a name of the user is taken by a generated variable exactly when it is spelled
like one: the stem at some place of the markup, an underscore, and the number of that place.  Names that
do not end in such a number are safe.

Main definitions:

* `ReactiveTemplate.Fragment.stemsAll` — the stems of the variables of markup, in order;
* `ReactiveTemplate.Draws` — code whose variables are made of stems, one after the other;
* `ReactiveTemplate.NamedByUser` — the names that the script and the markup use.

Main results:

* `ReactiveTemplate.draws_fragmentsCode` — the variables of the code of markup;
* `ReactiveTemplate.mem_freshAll_iff`, `ReactiveTemplate.nodup_freshAll` — names with running numbers;
* `ReactiveTemplate.captures_numbered_names` — **the names that are taken**;
* `ReactiveTemplate.user_names_captured` — a script that loses two names.
-/

import ReactiveTemplate.Proofs.Lifecycle.Variables
import ReactiveTemplate.Proofs.Notification.Changes
import ReactiveTemplate.Proofs.Sessions.Stages

set_option relaxedAutoImplicit false
set_option autoImplicit false

namespace ReactiveTemplate

open Script

/-! ### Names with running numbers -/

namespace NameCounter

theorem getElem?_freshAll (c : NameCounter) (stems : List String) (k : Nat) :
    (c.freshAll stems)[k]? = stems[k]?.map fun stem => stem ++ "_" ++ toString (c.next + k) := by
  induction stems generalizing c k with
  | nil => simp [freshAll]
  | cons stem stems ih =>
      cases k with
      | zero => simp [freshAll, fresh]
      | succ k =>
          have hnext : c.next + 1 + (k : Int) = c.next + ((k + 1 : Nat) : Int) := by omega
          rw [freshAll, List.getElem?_cons_succ, List.getElem?_cons_succ, ih]
          simp only [fresh, hnext]

theorem freshAll_append (c : NameCounter) (stems stems' : List String) :
    c.freshAll (stems ++ stems') = c.freshAll stems ++ freshAll ⟨c.next + stems.length⟩ stems' := by
  induction stems generalizing c with
  | nil => simp [freshAll]
  | cons stem stems ih =>
      have hnext : c.next + 1 + (stems.length : Int) = c.next + ((stem :: stems).length : Int) := by
        rw [List.length_cons]
        omega
      rw [List.cons_append, freshAll, freshAll, ih, List.cons_append]
      simp only [fresh, hnext]

end NameCounter

/-- A name is made of the stem at some place and the number of that place. -/
theorem mem_freshAll_iff {c : NameCounter} {stems : List String} {x : String} :
    x ∈ c.freshAll stems ↔
      ∃ (k : Nat) (stem : String), stems[k]? = some stem ∧ x = stem ++ "_" ++ toString (c.next + k) := by
  rw [List.mem_iff_getElem?]
  refine exists_congr fun k => ?_
  rw [NameCounter.getElem?_freshAll, Option.map_eq_some_iff]
  exact exists_congr fun stem => and_congr_right fun _ => eq_comm

theorem numberedIn_freshAll (c : NameCounter) (stems : List String) :
    NumberedIn c.next (c.next + stems.length) (c.freshAll stems) := by
  intro v hv
  obtain ⟨k, stem, hstem, rfl⟩ := mem_freshAll_iff.1 hv
  obtain ⟨hk, -⟩ := List.getElem?_eq_some_iff.1 hstem
  exact ⟨c.next + k, by omega, by omega, stem, rfl⟩

theorem nodup_freshAll (c : NameCounter) (stems : List String) : (c.freshAll stems).Nodup := by
  induction stems generalizing c with
  | nil => exact List.nodup_nil
  | cons stem stems ih =>
      refine List.nodup_cons.2 ⟨?_, ih _⟩
      have hrest := numberedIn_freshAll (c.fresh stem).2 stems
      exact hrest.not_mem (numbered_fresh c stem) (.inl (Int.lt_succ _))

/-! ### Stems -/

/-- The stem of the variable that an attribute needs: that of an event whose handler is not a name. -/
def Attribute.stem? (options : Options) (a : Attribute) : Option String :=
  match a.value with
  | .quoted _ => none
  | .expression e =>
    if isEventName options a.name && (plainName? e.toSource e.node).isNone then
      some (identifierOf (eventOf options a.name) ++ "_handler")
    else none

mutual

/-- The stems of the variables of a fragment. -/
def Fragment.stems (options : Options) : Fragment → List String
  | .element tag attributes children _ =>
    identifierOf tag :: (attributes.filterMap (Attribute.stem? options) ++ Fragment.stemsAll options children)
  | .text _ _ => ["txt"]
  | .expression _ _ => ["txt"]

/-- The stems of the variables of markup, in order. -/
def Fragment.stemsAll (options : Options) : List Fragment → List String
  | [] => []
  | f :: fs => Fragment.stems options f ++ Fragment.stemsAll options fs

end

/-- The variable of a node or handler that a statement assigns to. -/
def DomStatement.assigned? : DomStatement → Option String
  | .createElement holder _ | .createText holder _ | .keepHandler holder _ => some holder
  | _ => none

/-- Code whose variables are made of the given stems and the numbers from a counter on: they are declared
in this order, and in this order they get their values. -/
structure Draws (names : NameCounter) (stems : List String) (code : MarkupCode) (names' : NameCounter) :
    Prop where
  locals : code.locals = names.freshAll stems
  created : code.create.filterMap DomStatement.assigned? = names.freshAll stems
  next : names' = ⟨names.next + stems.length⟩

namespace Draws

variable {names mid names' : NameCounter} {stems stems' : List String} {code code' : MarkupCode}

theorem nil (h : code.locals = []) (hcreate : code.create.filterMap DomStatement.assigned? = []) :
    Draws names [] code names :=
  ⟨h, hcreate, by simp⟩

theorem single (stem : String) (h : code.locals = [(names.fresh stem).1])
    (hcreate : code.create.filterMap DomStatement.assigned? = [(names.fresh stem).1]) :
    Draws names [stem] code ⟨names.next + 1⟩ :=
  ⟨h, hcreate, rfl⟩

theorem append (h : Draws names stems code mid) (h' : Draws mid stems' code' names') :
    Draws names (stems ++ stems') (code ++ code') names' := by
  obtain ⟨hlocals, hcreated, rfl⟩ := h
  obtain ⟨hlocals', hcreated', rfl⟩ := h'
  refine ⟨?_, ?_, ?_⟩
  · rw [MarkupCode.locals_append, hlocals, hlocals', NameCounter.freshAll_append]
  · rw [MarkupCode.create_append, List.filterMap_append, hcreated, hcreated', NameCounter.freshAll_append]
  · rw [List.length_append]
    congr 1
    dsimp only
    omega

end Draws

/-! ### The variables of markup -/

section Code

variable {c : MarkupContext}

theorem draws_attributeCode {holder : String} {a : Attribute} {names names' : NameCounter}
    {code : MarkupCode} (h : attributeCode c holder a names = .ok (code, names')) :
    Draws names (a.stem? c.options).toList code names' := by
  unfold attributeCode at h
  unfold Attribute.stem?
  cases hvalue : a.value with
  | quoted text =>
      rw [hvalue] at h
      cases h
      exact .nil rfl rfl
  | expression e =>
      rw [hvalue] at h
      dsimp only at h ⊢
      by_cases hevent : isEventName c.options a.name = true
      · rw [if_pos hevent] at h
        unfold eventCode at h
        cases hplain : plainName? e.toSource e.node with
        | some handler =>
            rw [hplain] at h
            cases h
            rw [hevent]
            exact .nil rfl rfl
        | none =>
            rw [hplain] at h
            obtain ⟨text, -, h⟩ := exists_of_bind_eq_ok h
            cases h
            rw [hevent]
            exact .single _ rfl rfl
      · rw [if_neg hevent] at h
        cases h
        rw [Bool.eq_false_iff.2 hevent]
        exact .nil rfl rfl

theorem draws_attributesCode {holder : String} {attributes : List Attribute} {names names' : NameCounter}
    {code : MarkupCode} (h : attributesCode c holder attributes names = .ok (code, names')) :
    Draws names (attributes.filterMap (Attribute.stem? c.options)) code names' := by
  induction attributes generalizing names code with
  | nil =>
      cases h
      exact .nil rfl rfl
  | cons a attributes ih =>
      obtain ⟨⟨first, middle⟩, hfirst, h⟩ := exists_of_bind_eq_ok h
      obtain ⟨⟨rest, last⟩, hrest, h⟩ := exists_of_bind_eq_ok h
      cases h
      have hstems : (a :: attributes).filterMap (Attribute.stem? c.options) =
          (a.stem? c.options).toList ++ attributes.filterMap (Attribute.stem? c.options) := by
        cases hstem : a.stem? c.options with
        | none => rw [List.filterMap_cons_none hstem]; rfl
        | some stem => rw [List.filterMap_cons_some hstem]; rfl
      rw [hstems]
      exact (draws_attributeCode hfirst).append (ih hrest)

mutual

theorem draws_fragmentCode : ∀ {f : Fragment} {parent : Receiver} {names names' : NameCounter}
    {code : MarkupCode}, fragmentCode c parent f names = .ok (code, names') →
    Draws names (f.stems c.options) code names'
  | .element tag attributes children start, parent, names, names', code, h => by
      rw [fragmentCode] at h
      obtain ⟨⟨own, middle⟩, hown, h⟩ := exists_of_bind_eq_ok h
      obtain ⟨⟨inner, last⟩, hinner, h⟩ := exists_of_bind_eq_ok h
      cases h
      have hholder : Draws names [identifierOf tag]
          ⟨[(names.fresh (identifierOf tag)).1], [.createElement (names.fresh (identifierOf tag)).1 tag],
            [], []⟩ ⟨names.next + 1⟩ := .single _ rfl rfl
      have hall := hholder.append ((draws_attributesCode hown).append (draws_fragmentsCode hinner))
      -- the statement behind them, which puts the element in its place, assigns to none
      have hplaced : Draws names' [] ⟨[], [.appendChild parent (names.fresh (identifierOf tag)).1], [],
          [.removeChild parent (names.fresh (identifierOf tag)).1]⟩ names' := .nil rfl rfl
      have hwhole := hall.append hplaced
      rw [List.append_nil] at hwhole
      exact hwhole
  | .text value start, parent, names, names', code, h => by
      rw [fragmentCode] at h
      cases h
      exact .single "txt" rfl rfl
  | .expression e start, parent, names, names', code, h => by
      rw [fragmentCode] at h
      cases h
      exact .single "txt" rfl rfl

/-- The variables of the code of markup are made of its stems. -/
theorem draws_fragmentsCode : ∀ {fs : List Fragment} {parent : Receiver} {names names' : NameCounter}
    {code : MarkupCode}, fragmentsCode c parent fs names = .ok (code, names') →
    Draws names (Fragment.stemsAll c.options fs) code names'
  | [], parent, names, names', code, h => by
      rw [fragmentsCode] at h
      cases h
      exact .nil rfl rfl
  | f :: fs, parent, names, names', code, h => by
      obtain ⟨first, middle, rest, hfirst, hrest, rfl⟩ := fragmentsCode_cons h
      rw [Fragment.stemsAll]
      exact (draws_fragmentCode hfirst).append (draws_fragmentsCode hrest)

end

theorem variables_markupCode {html : List Fragment} {code : MarkupCode} (h : markupCode c html = .ok code) :
    code.locals = NameCounter.first.freshAll (Fragment.stemsAll c.options html) ∧
      code.create.filterMap DomStatement.assigned? =
        NameCounter.first.freshAll (Fragment.stemsAll c.options html) := by
  obtain ⟨⟨whole, last⟩, hwhole, h⟩ := exists_of_bind_eq_ok h
  obtain ⟨blocks, -, h⟩ := exists_of_bind_eq_ok h
  cases h
  have hdraws := draws_fragmentsCode hwhole
  exact ⟨hdraws.locals, hdraws.created⟩

end Code

/-! ### Names of the user -/

/-- The names that the user of a document chose or relies on: variables that the script declares, what
reactive statements assign to, and what the script or an expression in the markup reads. -/
inductive NamedByUser (d : Document) (a : Analysis) (x : String) : Prop
  | declared (h : x ∈ a.declared)
  | assigned {r : ReactiveDeclaration} (hr : r ∈ a.reactive) (h : x ∈ r.assignees)
  | script {b : ScriptBlock} (hb : d.script = some b) (h : x ∈ referencedNames b.program b.program.root)
  | markup {e : Embedded} (he : e ∈ Fragment.expressionsAll d.html) (h : x ∈ referencedNames e.toSource e.node)

/-- The variables of a compiled module: those of nodes and handlers, then what reactive statements assign
to and neither the script nor the markup declares. -/
theorem variables_of_compile {options : Options} {template : String} {d : Document} {c : Compiled}
    (hd : Document.parse template options.filename = .ok d) (hc : compile options template = .ok c) :
    c.generated.create.filterMap DomStatement.assigned? =
        NameCounter.first.freshAll (Fragment.stemsAll options d.html) ∧
      c.generated.locals = Names.union (NameCounter.first.freshAll (Fragment.stemsAll options d.html))
        (undeclaredAssignees c.analysis) := by
  obtain ⟨markup, ordered, hmarkup, -, hanalysis, hassemble⟩ :=
    exists_assemble_of_generate (compile_eq_ok hd hc)
  obtain ⟨hlocals, hcreated⟩ := variables_markupCode hmarkup
  obtain ⟨-, -, hcreate, -⟩ := assemble_eq_ok hassemble
  rw [outcome_of_compile hd hc] at hanalysis
  refine ⟨by rw [hcreate]; exact hcreated, ?_⟩
  rw [(markup_assemble hassemble).1, hlocals, ← hanalysis]
  rfl

/-- **The names that are taken.**  The variables that a compiled module keeps nodes and handlers in are
pairwise distinct, and each is the stem at some place of the markup with the number of the place.  They
are declared beside the names of the user.  So they keep clear of these exactly when the user has no name
that is spelled like this, and a name that does not end in the number of a place is never taken. -/
theorem captures_numbered_names {options : Options} {template : String} {d : Document} {c : Compiled}
    (hd : Document.parse template options.filename = .ok d) (hc : compile options template = .ok c) :
    let stems := Fragment.stemsAll options d.html
    let introduced := c.generated.create.filterMap DomStatement.assigned?
    c.generated.locals = Names.union introduced (undeclaredAssignees c.analysis) ∧
    introduced.Nodup ∧
    (∀ x, x ∈ introduced ↔
      ∃ (k : Nat) (stem : String), stems[k]? = some stem ∧ x = stem ++ "_" ++ toString (1 + k : Int)) ∧
    ((∀ x, NamedByUser d c.analysis x → x ∉ introduced) ↔
      ∀ (k : Nat) (stem : String), stems[k]? = some stem →
        ¬ NamedByUser d c.analysis (stem ++ "_" ++ toString (1 + k : Int))) ∧
    ∀ x, (∀ k : Int, 1 ≤ k → k ≤ stems.length → ¬ Numbered k x) → x ∉ introduced := by
  intro stems introduced
  obtain ⟨hcreated, hlocals⟩ := variables_of_compile hd hc
  have hintroduced : introduced = NameCounter.first.freshAll stems := hcreated
  have hmem : ∀ x, x ∈ introduced ↔
      ∃ (k : Nat) (stem : String), stems[k]? = some stem ∧ x = stem ++ "_" ++ toString (1 + k : Int) := by
    intro x
    rw [hintroduced]
    exact mem_freshAll_iff
  refine ⟨?_, ?_, hmem, ?_, ?_⟩
  · rw [hintroduced]
    exact hlocals
  · rw [hintroduced]
    exact nodup_freshAll _ _
  · constructor
    · intro hclear k stem hstem hx
      exact hclear _ hx ((hmem _).2 ⟨k, stem, hstem, rfl⟩)
    · intro hclear x hx hin
      obtain ⟨k, stem, hstem, rfl⟩ := (hmem x).1 hin
      exact hclear k stem hstem hx
  · intro x hx hin
    obtain ⟨k, stem, hstem, rfl⟩ := (hmem x).1 hin
    obtain ⟨hk, -⟩ := List.getElem?_eq_some_iff.1 hstem
    exact hx (1 + k) (by omega) (by omega) ⟨stem, rfl⟩

/-- The variables of an element, its handler and its text.  The name `n_1` ends in the number of the first
place, but it is not taken, for the stem there is `b`. -/
theorem captures_numbered_names_click :
    ∃ d c, Document.parse "<script>let n_1</script><b on:click=\x7b() => n_1++\x7d>a</b>"
        Options.default.filename = .ok d ∧
      compile .default "<script>let n_1</script><b on:click=\x7b() => n_1++\x7d>a</b>" = .ok c ∧
      Fragment.stemsAll .default d.html = ["b", "click_handler", "txt"] ∧
      c.generated.create.filterMap DomStatement.assigned? = ["b_1", "click_handler_2", "txt_3"] ∧
      "n_1" ∉ c.generated.create.filterMap DomStatement.assigned? ∧
      ((∀ x, NamedByUser d c.analysis x → x ∉ c.generated.create.filterMap DomStatement.assigned?) ↔
        ∀ (k : Nat) (stem : String), (Fragment.stemsAll .default d.html)[k]? = some stem →
          ¬ NamedByUser d c.analysis (stem ++ "_" ++ toString (1 + k : Int))) := by
  have hread : ((Document.parse "<script>let n_1</script><b on:click=\x7b() => n_1++\x7d>a</b>"
      Options.default.filename).toOption.any fun d =>
        Fragment.stemsAll .default d.html == ["b", "click_handler", "txt"]) = true := by decide +kernel
  have hrun : ((compile .default
      "<script>let n_1</script><b on:click=\x7b() => n_1++\x7d>a</b>").toOption.any fun c =>
        c.generated.create.filterMap DomStatement.assigned? == ["b_1", "click_handler_2", "txt_3"]) = true := by
    decide +kernel
  obtain ⟨d, hd, hstems⟩ := (Option.any_eq_true _ _).1 hread
  obtain ⟨c, hc, hcreated⟩ := (Option.any_eq_true _ _).1 hrun
  have hd := toOption_eq_some_iff.1 hd
  have hc := toOption_eq_some_iff.1 hc
  have hcreated := beq_iff_eq.1 hcreated
  obtain ⟨-, -, -, hclear, -⟩ := captures_numbered_names hd hc
  exact ⟨d, c, hd, hc, beq_iff_eq.1 hstems, hcreated, by rw [hcreated]; decide, hclear⟩

/-- The script declares `p_1` and assigns to `txt_2`, and both are variables of nodes too: the first is
declared twice, and the second has no variable of its own. -/
theorem user_names_captured :
    ∃ c, compile .default "<script>let p_1 = 0; $: txt_2 = 1</script><p>a</p>" = .ok c ∧
      c.generated.create.filterMap DomStatement.assigned? = ["p_1", "txt_2"] ∧
      c.generated.locals = ["p_1", "txt_2"] ∧ c.generated.body = ["let p_1 = 0;"] ∧
      c.analysis.declared = ["p_1"] ∧ c.analysis.reactive.map (fun r => r.assignees) = [["txt_2"]] := by
  have hrun : ((compile .default
      "<script>let p_1 = 0; $: txt_2 = 1</script><p>a</p>").toOption.any fun c =>
        c.generated.create.filterMap DomStatement.assigned? == ["p_1", "txt_2"] &&
          (c.generated.locals == ["p_1", "txt_2"] && (c.generated.body == ["let p_1 = 0;"] &&
            (c.analysis.declared == ["p_1"] &&
              c.analysis.reactive.map (fun r => r.assignees) == [["txt_2"]])))) = true := by
    decide +kernel
  obtain ⟨c, hc, hparts⟩ := (Option.any_eq_true _ _).1 hrun
  obtain ⟨hcreated, hparts⟩ := Bool.and_eq_true_iff.1 hparts
  obtain ⟨hlocals, hparts⟩ := Bool.and_eq_true_iff.1 hparts
  obtain ⟨hbody, hparts⟩ := Bool.and_eq_true_iff.1 hparts
  obtain ⟨hdeclared, hassignees⟩ := Bool.and_eq_true_iff.1 hparts
  exact ⟨c, toOption_eq_some_iff.1 hc, beq_iff_eq.1 hcreated, beq_iff_eq.1 hlocals,
    beq_iff_eq.1 hbody, beq_iff_eq.1 hdeclared, beq_iff_eq.1 hassignees⟩

end ReactiveTemplate

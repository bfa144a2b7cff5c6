/-
**What is updated, and when.**

The slots of a document are the text nodes and attributes that show what an expression gives.  Creating the
markup fills each of them once, in document order.  Changes refresh a slot only if its expression reads a name
that may change: there is one update block for each such slot, in the same order, and no other block.

Analysis and generation go through the markup on their own.  Both tell slots from event handlers by the name of
the attribute, so what a block waits for has been noted as read: its names are tracked.  They may change, so they
have indices, and a block lists them in the order of these.

Main definitions:

* `ReactiveTemplate.Slot`, `ReactiveTemplate.Fragment.slotsAll` — the slots of markup, in order;
* `ReactiveTemplate.Fills` — code that fills slots and refreshes those that may change;
* `ReactiveTemplate.UpdateBlock.Refreshes` — the update block of a slot.

Main results:

* `ReactiveTemplate.Bindings.arrange_eq_ok` — names in the order of their indices;
* `ReactiveTemplate.fills_fragmentsCode` — the code of markup fills its slots;
* `ReactiveTemplate.Analysis.notes_addFragments` — analysis notes what slots read;
* `ReactiveTemplate.changing_slots_refreshed` — **update blocks are exact**.
-/

import ReactiveTemplate.Proofs.Lifecycle.Variables
import ReactiveTemplate.Proofs.Rendering
import ReactiveTemplate.Proofs.Sessions.Runs

set_option relaxedAutoImplicit false
set_option autoImplicit false

namespace ReactiveTemplate

open Script

/-! ### Slots -/

/-- A part of the markup that shows what an expression gives. -/
inductive Slot where
  /-- A text node. -/
  | text (e : Embedded)
  /-- An attribute of an element. -/
  | attr (name : String) (e : Embedded)

namespace Slot

/-- The expression of a slot. -/
def expression : Slot → Embedded
  | text e => e
  | attr _ e => e

/-- The names that a slot reads. -/
def reads (program : Option Source) (s : Slot) : List String :=
  templateNames s.expression.toSource s.expression.node program

/-- Whether a slot reads a name that may change. -/
def mayChange (program : Option Source) (a : Analysis) (s : Slot) : Bool :=
  (s.reads program).any fun name => name ∈ a.willChange

/-- The statement that fills a slot at first.  The variable holds the text node, or the element. -/
def created (holder : String) : Slot → DomStatement
  | text e => .createText holder (.expression e.operand)
  | attr name e => .setAttribute holder name (.expression e.operand)

/-- The statement that fills a slot anew. -/
def refreshed (holder : String) : Slot → DomStatement
  | text e => .setData holder e.operand
  | attr name e => .setAttribute holder name (.expression e.operand)

end Slot

/-- The slot that an attribute is: none if it is an event or its value is a text. -/
def Attribute.slots (options : Options) (a : Attribute) : List Slot :=
  match a.value with
  | .quoted _ => []
  | .expression e => if isEventName options a.name then [] else [.attr a.name e]

mutual

/-- The slots of a fragment. -/
def Fragment.slots (options : Options) : Fragment → List Slot
  | .element _ attributes children _ =>
    attributes.flatMap (Attribute.slots options) ++ Fragment.slotsAll options children
  | .text _ _ => []
  | .expression e _ => [.text e]

/-- The slots of markup, in document order. -/
def Fragment.slotsAll (options : Options) : List Fragment → List Slot
  | [] => []
  | f :: fs => Fragment.slots options f ++ Fragment.slotsAll options fs

end

/-- Whether a statement shows what an expression gives. -/
def DomStatement.showsExpression : DomStatement → Bool
  | .createText _ (.expression _) => true
  | .setAttribute _ _ (.expression _) => true
  | _ => false

/-! ### Code that fills slots -/

@[simp] theorem MarkupCode.update_append (a b : MarkupCode) : (a ++ b).update = a.update ++ b.update := rfl

/-- Code that fills slots, each through the variable beside it, and has the update blocks of those that may
change. -/
structure Fills (c : MarkupContext) (slots : List Slot) (filled : List (Slot × String)) (code : MarkupCode) :
    Prop where
  slots : filled.map Prod.fst = slots
  create : code.create.filter DomStatement.showsExpression = filled.map fun s => s.1.created s.2
  update : code.update =
    filled.flatMap fun s => updateBlocks (c.changing s.1.expression) (s.1.refreshed s.2)

namespace Fills

variable {c : MarkupContext} {slots slots' : List Slot} {filled filled' : List (Slot × String)}
  {code code' : MarkupCode}

theorem nil (hcreate : code.create.filter DomStatement.showsExpression = []) (hupdate : code.update = []) :
    Fills c [] [] code :=
  ⟨rfl, hcreate, hupdate⟩

theorem single (s : Slot) (holder : String)
    (hcreate : code.create.filter DomStatement.showsExpression = [s.created holder])
    (hupdate : code.update = updateBlocks (c.changing s.expression) (s.refreshed holder)) :
    Fills c [s] [(s, holder)] code :=
  ⟨rfl, hcreate, by rw [hupdate, List.flatMap_singleton]⟩

theorem append (h : Fills c slots filled code) (h' : Fills c slots' filled' code') :
    Fills c (slots ++ slots') (filled ++ filled') (code ++ code') where
  slots := by rw [List.map_append, h.slots, h'.slots]
  create := by rw [MarkupCode.create_append, List.filter_append, List.map_append, h.create, h'.create]
  update := by rw [MarkupCode.update_append, List.flatMap_append, h.update, h'.update]

end Fills

section Code

variable {c : MarkupContext}

/-- The code of an event fills no slot: listeners and kept handlers show nothing. -/
theorem fills_eventCode {holder event : String} {e : Embedded} {names names' : NameCounter}
    {code : MarkupCode} (h : eventCode c holder event e names = .ok (code, names')) :
    Fills c [] [] code := by
  rcases eventCode_eq_ok h with ⟨handler, -, -, rfl⟩ | ⟨-, text, handler, -, -, -, rfl⟩
  · exact .nil rfl rfl
  · exact .nil rfl rfl

theorem fills_attributeCode {holder : String} {a : Attribute} {names names' : NameCounter}
    {code : MarkupCode} (h : attributeCode c holder a names = .ok (code, names')) :
    ∃ filled, Fills c (a.slots c.options) filled code := by
  unfold attributeCode at h
  unfold Attribute.slots
  cases hvalue : a.value with
  | quoted text =>
      rw [hvalue] at h
      cases h
      exact ⟨[], .nil rfl rfl⟩
  | expression e =>
      rw [hvalue] at h
      dsimp only at h ⊢
      split at h
      · next hevent =>
          rw [if_pos hevent]
          exact ⟨[], fills_eventCode h⟩
      · next hevent =>
          rw [if_neg hevent]
          cases h
          exact ⟨[(.attr a.name e, holder)], .single (.attr a.name e) holder rfl rfl⟩

theorem fills_attributesCode {holder : String} {attributes : List Attribute} {names names' : NameCounter}
    {code : MarkupCode} (h : attributesCode c holder attributes names = .ok (code, names')) :
    ∃ filled, Fills c (attributes.flatMap (Attribute.slots c.options)) filled code := by
  induction attributes generalizing names code with
  | nil =>
      cases h
      exact ⟨[], .nil rfl rfl⟩
  | cons a attributes ih =>
      obtain ⟨⟨first, middle⟩, hfirst, h⟩ := exists_of_bind_eq_ok h
      obtain ⟨⟨rest, last⟩, hrest, h⟩ := exists_of_bind_eq_ok h
      cases h
      obtain ⟨own, hown⟩ := fills_attributeCode hfirst
      obtain ⟨others, hothers⟩ := ih hrest
      rw [List.flatMap_cons]
      exact ⟨own ++ others, hown.append hothers⟩

mutual

theorem fills_fragmentCode : ∀ {f : Fragment} {parent : Receiver} {names names' : NameCounter}
    {code : MarkupCode}, fragmentCode c parent f names = .ok (code, names') →
    ∃ filled, Fills c (f.slots c.options) filled code
  | .element tag attributes children start, parent, names, names', code, h => by
      obtain ⟨holder, own, middle, inner, -, hown, hinner, rfl⟩ := fragmentCode_element h
      obtain ⟨filled, hfilled⟩ := fills_attributesCode hown
      obtain ⟨below, hbelow⟩ := fills_fragmentsCode hinner
      -- what makes the element and puts it in its place shows no expression
      have hopen : Fills c [] [] ⟨[holder], [.createElement holder tag], [], []⟩ := .nil rfl rfl
      have hclose : Fills c [] []
          ⟨[], [.appendChild parent holder], [], [.removeChild parent holder]⟩ := .nil rfl rfl
      have hwhole := (hopen.append (hfilled.append hbelow)).append hclose
      rw [List.nil_append, List.nil_append, List.append_nil, List.append_nil] at hwhole
      exact ⟨filled ++ below, hwhole⟩
  | .text value start, parent, names, names', code, h => by
      obtain ⟨holder, -, -, rfl⟩ := fragmentCode_text h
      exact ⟨[], .nil rfl rfl⟩
  | .expression e start, parent, names, names', code, h => by
      rw [fragmentCode] at h
      cases h
      exact ⟨[(.text e, (names.fresh "txt").1)], .single (.text e) _ rfl rfl⟩

/-- The code of markup fills its slots in order. -/
theorem fills_fragmentsCode : ∀ {fs : List Fragment} {parent : Receiver} {names names' : NameCounter}
    {code : MarkupCode}, fragmentsCode c parent fs names = .ok (code, names') →
    ∃ filled, Fills c (Fragment.slotsAll c.options fs) filled code
  | [], parent, names, names', code, h => by
      rw [fragmentsCode] at h
      cases h
      exact ⟨[], .nil rfl rfl⟩
  | f :: fs, parent, names, names', code, h => by
      obtain ⟨first, middle, rest, hfirst, hrest, rfl⟩ := fragmentsCode_cons h
      obtain ⟨filled, hfilled⟩ := fills_fragmentCode hfirst
      obtain ⟨others, hothers⟩ := fills_fragmentsCode hrest
      exact ⟨filled ++ others, hfilled.append hothers⟩

end

end Code

/-! ### Names in the order of their indices -/

/-- The given names, each once and in ascending order of their indices. -/
structure Bindings.Arranges (bindings : Bindings) (names arranged : List String) : Prop where
  mem : ∀ name, name ∈ arranged ↔ name ∈ names
  nodup : arranged.Nodup
  ascending : ∃ indices : List Int,
    arranged.map bindings.index? = indices.map some ∧ indices.Pairwise (· < ·)

theorem Bindings.map_index?_of_indices_eq_ok {bindings : Bindings} {names : List String} :
    ∀ {indices : List Int}, bindings.indices names = .ok indices →
      names.map bindings.index? = indices.map some := by
  induction names with
  | nil =>
      intro indices h
      cases h
      rfl
  | cons name names ih =>
      intro indices h
      obtain ⟨i, hi, h⟩ := exists_of_bind_eq_ok h
      obtain ⟨rest, hrest, h⟩ := exists_of_bind_eq_ok h
      cases h
      rw [List.map_cons, List.map_cons, ih hrest, index_eq_ok hi]

/-- Arranging puts names in the order of their indices. -/
theorem Bindings.arrange_eq_ok {bindings : Bindings} (hsep : bindings.Separates)
    {names arranged : List String} (h : bindings.arrange names = .ok arranged) :
    bindings.Arranges names arranged := by
  obtain ⟨indices, hindices, h⟩ := exists_of_bind_eq_ok h
  cases h
  have hmap := map_index?_of_indices_eq_ok hindices
  have hlength : (Names.ofList names).length = indices.length := by
    simpa using congrArg List.length hmap
  -- each name is sorted along with its own index
  have hpair : ∀ p ∈ (Names.ofList names).zip indices, bindings.index? p.1 = some p.2 := by
    intro p hp
    obtain ⟨k, hk, rfl⟩ := List.mem_iff_getElem.1 hp
    rw [List.length_zip] at hk
    have hnames : k < (Names.ofList names).length := by omega
    have hentry := congrArg (fun l => l[k]?) hmap
    simpa [hnames, show k < indices.length by omega] using hentry
  have hperm := perm_sortBy Prod.snd ((Names.ofList names).zip indices)
  have hfst : ((sortBy Prod.snd ((Names.ofList names).zip indices)).map Prod.fst).Perm
      (Names.ofList names) := by
    have hmapped := hperm.map Prod.fst
    rwa [List.map_fst_zip (Nat.le_of_eq hlength)] at hmapped
  have hnodup := hfst.nodup_iff.2 (Names.nodup_ofList names)
  refine ⟨fun name => hfst.mem_iff.trans Names.mem_ofList, hnodup,
    (sortBy Prod.snd ((Names.ofList names).zip indices)).map Prod.snd, ?_, ?_⟩
  · rw [List.map_map, List.map_map]
    exact List.map_congr_left fun p hp => hpair p (mem_sortBy.1 hp)
  · rw [List.pairwise_map]
    have hdistinct := List.pairwise_map.1 hnodup
    refine (hdistinct.and (pairwise_sortBy _)).imp_of_mem fun {p q} hp hq hpq => ?_
    -- different names do not share an index, so the order is strict
    refine lt_of_le_of_ne hpq.2 fun heq => hpq.1 ?_
    have hp' := hpair p (mem_sortBy.1 hp)
    rw [heq] at hp'
    exact hsep _ _ _ hp' (hpair q (mem_sortBy.1 hq))

theorem arrangeBlocks_eq_ok {bindings : Bindings} (hsep : bindings.Separates) {bs : List UpdateBlock} :
    ∀ {bs' : List UpdateBlock}, arrangeBlocks bindings bs = .ok bs' →
      List.Forall₂ (fun b b' => b'.statement = b.statement ∧ bindings.Arranges b.names b'.names) bs bs' := by
  induction bs with
  | nil =>
      intro bs' h
      cases h
      exact .nil
  | cons b bs ih =>
      intro bs' h
      obtain ⟨first, hfirst, h⟩ := exists_of_bind_eq_ok h
      obtain ⟨rest, hrest, h⟩ := exists_of_bind_eq_ok h
      cases h
      obtain ⟨arranged, harranged, h⟩ := exists_of_bind_eq_ok hfirst
      cases h
      exact .cons ⟨rfl, Bindings.arrange_eq_ok hsep harranged⟩ (ih hrest)

/-! ### What analysis notes -/

namespace Analysis

/-- Analysis has noted what slots read, and keeps what it had noted before. -/
structure Notes (program : Option Source) (slots : List Slot) (a a' : Analysis) : Prop where
  kept : a.usedInTemplate ⊆ a'.usedInTemplate
  noted : ∀ s ∈ slots, s.reads program ⊆ a'.usedInTemplate

variable {options : Options} {program : Option Source} {slots slots' : List Slot} {a a' a'' : Analysis}

theorem Notes.nil (h : a.usedInTemplate ⊆ a'.usedInTemplate) : Notes program [] a a' :=
  ⟨h, nofun⟩

theorem Notes.append (h : Notes program slots a a') (h' : Notes program slots' a' a'') :
    Notes program (slots ++ slots') a a'' :=
  ⟨List.Subset.trans h.kept h'.kept,
    List.forall_mem_append.2 ⟨fun s hs => List.Subset.trans (h.noted s hs) h'.kept, h'.noted⟩⟩

theorem notes_addReads (s : Slot) (a : Analysis) :
    Notes program [s] a (a.addReads program s.expression) where
  kept := fun _ hname => Names.mem_union.2 (.inl hname)
  noted := fun s' hs' name hname => by
    rw [List.mem_singleton.1 hs'] at hname
    exact Names.mem_union.2 (.inr hname)

theorem usedInTemplate_subset_addHandler (e : Embedded) (a : Analysis) :
    a.usedInTemplate ⊆ (a.addHandler e).usedInTemplate := by
  intro name hname
  unfold addHandler
  dsimp only
  split
  · exact Names.mem_insert.2 (.inl hname)
  · exact hname

theorem notes_addAttribute (a : Analysis) (attr : Attribute) :
    Notes program (attr.slots options) a (a.addAttribute options program attr) := by
  unfold addAttribute Attribute.slots
  cases attr.value with
  | quoted text => exact .nil (List.Subset.refl _)
  | expression e =>
      dsimp only
      split
      · exact .nil (usedInTemplate_subset_addHandler e a)
      · exact notes_addReads (.attr attr.name e) a

theorem notes_addAttributes (attributes : List Attribute) (a : Analysis) :
    Notes program (attributes.flatMap (Attribute.slots options)) a
      (attributes.foldl (addAttribute options program) a) := by
  induction attributes generalizing a with
  | nil => exact .nil (List.Subset.refl _)
  | cons attr attributes ih =>
      rw [List.flatMap_cons]
      exact (notes_addAttribute a attr).append (ih _)

mutual

theorem notes_addFragment : ∀ (f : Fragment) (a : Analysis),
    Notes program (f.slots options) a (addFragment options program f a)
  | .element tag attributes children start, a => by
      rw [addFragment, Fragment.slots]
      exact (notes_addAttributes attributes a).append (notes_addFragments children _)
  | .text value start, a => by
      rw [addFragment]
      exact .nil (List.Subset.refl _)
  | .expression e start, a => by
      rw [addFragment]
      exact notes_addReads (.text e) a

/-- Analysis notes what the slots of markup read. -/
theorem notes_addFragments : ∀ (fs : List Fragment) (a : Analysis),
    Notes program (Fragment.slotsAll options fs) a (addFragments options program fs a)
  | [], a => by
      rw [addFragments]
      exact .nil (List.Subset.refl _)
  | f :: fs, a => by
      rw [addFragments, Fragment.slotsAll]
      exact (notes_addFragment f a).append (notes_addFragments fs _)

end

end Analysis

theorem reads_subset_tracked (options : Options) {d : Document} {s : Slot}
    (h : s ∈ Fragment.slotsAll options d.html) : s.reads d.program? ⊆ (d.analyze options).1.tracked := by
  have hnotes : Analysis.Notes d.program? (Fragment.slotsAll options d.html) (d.scriptAnalysis options)
      (d.analyze options).1 := Analysis.notes_addFragments d.html _
  exact fun name hname => Names.mem_union.2 (.inl (hnotes.noted s h hname))

/-! ### The blocks -/

/-- The update block of a slot that is filled through a variable. -/
structure UpdateBlock.Refreshes (program : Option Source) (a : Analysis) (filled : Slot × String)
    (b : UpdateBlock) : Prop where
  statement : b.statement = filled.1.refreshed filled.2
  names : ∀ name, name ∈ b.names ↔ name ∈ filled.1.reads program ∧ name ∈ a.willChange
  nodup : b.names.Nodup
  nonempty : b.names ≠ []
  ascending : ∃ indices : List Int,
    b.names.map a.bindings.index? = indices.map some ∧ indices.Pairwise (· < ·)
  tracked : b.names ⊆ a.tracked

/-- Slots that read no name that may change have no block, and every other one has its own. -/
theorem flatMap_updateBlocks (c : MarkupContext) (filled : List (Slot × String)) :
    (filled.flatMap fun s => updateBlocks (c.changing s.1.expression) (s.1.refreshed s.2)) =
      (filled.filter fun s => s.1.mayChange c.program c.analysis).map fun s =>
        ⟨c.changing s.1.expression, s.1.refreshed s.2⟩ := by
  induction filled with
  | nil => rfl
  | cons s filled ih =>
      have hchanging : (c.changing s.1.expression).isEmpty = !s.1.mayChange c.program c.analysis := by
        rw [Bool.eq_iff_iff, List.isEmpty_iff, MarkupContext.changing, List.filter_eq_nil_iff,
          Bool.not_eq_true', Slot.mayChange, List.any_eq_false]
        rfl
      rw [List.flatMap_cons, ih, updateBlocks, hchanging, List.filter_cons]
      cases s.1.mayChange c.program c.analysis <;> rfl

theorem refreshes_of_arranges {options : Options} {program : Option Source} {a : Analysis}
    {filled : Slot × String} {b : UpdateBlock} (hmay : filled.1.mayChange program a = true)
    (htracked : filled.1.reads program ⊆ a.tracked) (hstatement : b.statement = filled.1.refreshed filled.2)
    (h : a.bindings.Arranges ((MarkupContext.of options program a).changing filled.1.expression) b.names) :
    b.Refreshes program a filled := by
  have hnames : ∀ name, name ∈ b.names ↔ name ∈ filled.1.reads program ∧ name ∈ a.willChange := by
    intro name
    rw [h.mem, MarkupContext.changing, List.mem_filter, decide_eq_true_iff]
    rfl
  obtain ⟨name, hname, hchange⟩ := List.any_eq_true.1 hmay
  exact
    { statement := hstatement
      names := hnames
      nodup := h.nodup
      nonempty := List.ne_nil_of_mem ((hnames name).2 ⟨hname, of_decide_eq_true hchange⟩)
      ascending := h.ascending
      tracked := fun x hx => htracked ((hnames x).1 hx).1 }

/-- The code of markup fills its slots and refreshes those that may change. -/
theorem refreshes_markupCode {options : Options} {program : Option Source} {a : Analysis}
    {html : List Fragment} {code : MarkupCode}
    (htracked : ∀ s ∈ Fragment.slotsAll options html, s.reads program ⊆ a.tracked)
    (h : markupCode (.of options program a) html = .ok code) :
    ∃ filled : List (Slot × String), filled.map Prod.fst = Fragment.slotsAll options html ∧
      code.create.filter DomStatement.showsExpression = filled.map (fun s => s.1.created s.2) ∧
      List.Forall₂ (fun s b => b.Refreshes program a s)
        (filled.filter fun s => s.1.mayChange program a) code.update := by
  obtain ⟨⟨whole, last⟩, hwhole, h⟩ := exists_of_bind_eq_ok h
  obtain ⟨blocks, hblocks, h⟩ := exists_of_bind_eq_ok h
  cases h
  obtain ⟨filled, hslots, hcreate, hupdate⟩ := fills_fragmentsCode hwhole
  refine ⟨filled, hslots, hcreate, ?_⟩
  rw [hupdate, flatMap_updateBlocks] at hblocks
  have harranged := List.forall₂_map_left_iff.1
    (arrangeBlocks_eq_ok (Bindings.separates_ofNames _) hblocks)
  -- which slot a block belongs to matters: its names are tracked because the slot was noted
  have hmember : ∀ s ∈ filled.filter fun s => s.1.mayChange program a,
      s.1.mayChange program a = true ∧ s.1.reads program ⊆ a.tracked := by
    intro s hs
    obtain ⟨hs, hmay⟩ := List.mem_filter.1 hs
    exact ⟨hmay, htracked s.1 (hslots ▸ List.mem_map_of_mem hs)⟩
  refine ((List.forall₂_and_left _ _).2 ⟨hmember, harranged⟩).imp ?_
  rintro s b ⟨⟨hmay, htracked⟩, hstatement, harranges⟩
  exact refreshes_of_arranges hmay htracked hstatement harranges

/-- **Update blocks are exact.**  The markup of a template that was read has its code.  Creating it fills each
slot with one statement, in document order.  The update blocks are, in the same order, one for each slot that
reads a name that may change: the block fills the slot anew, through the same variable and with the same
expression, and waits for exactly the names that are read there and may change.  These are tracked and bound,
and they stand in the order of their indices.  A generated component has these statements and blocks. -/
theorem changing_slots_refreshed (options : Options) {template filename : String} {d : Document}
    (hd : Document.parse template filename = .ok d) :
    let a := (d.analyze options).1
    ∃ (code : MarkupCode) (filled : List (Slot × String)),
      markupCode (.of options d.program? a) d.html = .ok code ∧
      filled.map Prod.fst = Fragment.slotsAll options d.html ∧
      code.create.filter DomStatement.showsExpression = filled.map (fun s => s.1.created s.2) ∧
      List.Forall₂ (fun s b => b.Refreshes d.program? a s)
        (filled.filter fun s => s.1.mayChange d.program? a) code.update ∧
      ∀ g, ((d.analyze options).2.generate options a).result = .ok g →
        g.create = code.create ∧ g.update = code.update ∧ g.bindings = a.bindings := by
  intro a
  have hplaced : ∀ e ∈ Fragment.expressionsAll d.html, e.node.Placed e.text := by
    intro e he
    obtain ⟨inner, hread⟩ := wasRead_content (Document.derives_of_parse hd).content e he
    exact placed_embedded? hread
  obtain ⟨code, hcode, -⟩ := exists_markupCode options d.program? a hplaced
  obtain ⟨filled, hslots, hcreate, hblocks⟩ :=
    refreshes_markupCode (fun _ hs => reads_subset_tracked options hs) hcode
  refine ⟨code, filled, hcode, hslots, hcreate, hblocks, fun g hg => ?_⟩
  obtain ⟨markup, ordered, hmarkup, -, -, hassemble⟩ := exists_assemble_of_generate hg
  rw [program?_analyze] at hmarkup
  obtain rfl : code = markup := Except.ok.inj (hcode.symm.trans hmarkup)
  obtain ⟨-, -, hcreated, -⟩ := assemble_eq_ok hassemble
  exact ⟨hcreated, (markup_assemble hassemble).2, bindings_generate hg⟩

/-- A template with four slots, of which the title never changes.  The last text reads `b` before `a`, and
its block waits for `a` before `b`. -/
theorem changing_slots_refreshed_click :
    ∃ (d : Document) (g : Generated) (filled : List (Slot × String)),
      Document.parse ("<script>let a, b, c; function f() \x7b b = a++ \x7d</script>" ++
        "<p title=\x7bc\x7d id=\x7bb + a\x7d on:click=\x7bf\x7d>\x7ba\x7d</p>\x7bb, a\x7d") "a" = .ok d ∧
      ((d.analyze .default).2.generate .default (d.analyze .default).1).result = .ok g ∧
      filled.map Prod.fst = Fragment.slotsAll .default d.html ∧
      filled.map (fun s => s.1.created s.2) =
        [.setAttribute "p_1" "title" (.expression "c"), .setAttribute "p_1" "id" (.expression "b + a"),
          .createText "txt_2" (.expression "a"), .createText "txt_3" (.expression "(b, a)")] ∧
      g.update = [⟨["a", "b"], .setAttribute "p_1" "id" (.expression "b + a")⟩,
        ⟨["a"], .setData "txt_2" "a"⟩, ⟨["a", "b"], .setData "txt_3" "(b, a)"⟩] ∧
      List.Forall₂ (fun s b => b.Refreshes d.program? (d.analyze .default).1 s)
        (filled.filter fun s => s.1.mayChange d.program? (d.analyze .default).1) g.update := by
  have hrun : ((Document.parse ("<script>let a, b, c; function f() \x7b b = a++ \x7d</script>" ++
      "<p title=\x7bc\x7d id=\x7bb + a\x7d on:click=\x7bf\x7d>\x7ba\x7d</p>\x7bb, a\x7d")
        "a").toOption.any fun d =>
        ((d.analyze .default).2.generate .default (d.analyze .default).1).result.toOption.any fun g =>
          g.create.filter DomStatement.showsExpression ==
            [.setAttribute "p_1" "title" (.expression "c"), .setAttribute "p_1" "id" (.expression "b + a"),
              .createText "txt_2" (.expression "a"), .createText "txt_3" (.expression "(b, a)")] &&
          g.update == [⟨["a", "b"], .setAttribute "p_1" "id" (.expression "b + a")⟩,
            ⟨["a"], .setData "txt_2" "a"⟩, ⟨["a", "b"], .setData "txt_3" "(b, a)"⟩]) = true := by
    decide +kernel
  obtain ⟨d, hd, hrun⟩ := (Option.any_eq_true _ _).1 hrun
  obtain ⟨g, hg, hparts⟩ := (Option.any_eq_true _ _).1 hrun
  obtain ⟨hshown, hblocks⟩ := Bool.and_eq_true_iff.1 hparts
  have hd := toOption_eq_some_iff.1 hd
  have hg := toOption_eq_some_iff.1 hg
  obtain ⟨code, filled, -, hslots, hfilled, hrefresh, hgenerated⟩ := changing_slots_refreshed .default hd
  obtain ⟨hcreate, hupdate, -⟩ := hgenerated g hg
  refine ⟨d, g, filled, hd, hg, hslots, ?_, beq_iff_eq.1 hblocks, hupdate ▸ hrefresh⟩
  rw [← hfilled, ← hcreate]
  exact beq_iff_eq.1 hshown

end ReactiveTemplate

/-
**The event handlers of a document.**

Analysis goes through the markup and opens the scopes of one event handler after the other, each behind
those that are there.  Generation goes through the markup again and looks the scopes of a handler up by
its place in the template.  Both go the same way, and no two handlers have the same place, so generation
finds for each handler what analysis has noted for it.

Main definitions:

* `ReactiveTemplate.eventHandlers` — the event handlers in markup, in source order;
* `ReactiveTemplate.HandlersIn` — handlers that were read at ascending places of a template;
* `ReactiveTemplate.HandlerPass`, `ReactiveTemplate.handlerPasses` — the passes over handlers, each with
  the scopes that are known behind it;
* `ReactiveTemplate.Analysis.Collects` — what the handlers change in an analysis.

Main results:

* `ReactiveTemplate.handlersIn_content` — the handlers of a document that was read;
* `ReactiveTemplate.collects_addFragments` — what analysis notes in markup;
* `ReactiveTemplate.handlerScopes?_of_mem` — the scopes of a handler are found by its place;
* `ReactiveTemplate.keepsHandler_fragments` — the code of markup keeps its handlers.
-/

import ReactiveTemplate.Proofs.Lifecycle.DomTree
import ReactiveTemplate.Proofs.Lifecycle.Variables
import ReactiveTemplate.Proofs.Markup.Recognition
import ReactiveTemplate.Proofs.Scopes.Confinement

set_option relaxedAutoImplicit false
set_option autoImplicit false

namespace ReactiveTemplate

open Script

/-! ### Handlers in source order -/

mutual

/-- The event handlers in a fragment, in source order. -/
def eventHandlersIn (options : Options) : Fragment → List Embedded
  | .element _ attributes children _ =>
    (eventAttributes options attributes).map Prod.snd ++ eventHandlers options children
  | .text _ _ => []
  | .expression _ _ => []

/-- The event handlers in markup, in source order. -/
def eventHandlers (options : Options) : List Fragment → List Embedded
  | [] => []
  | f :: fs => eventHandlersIn options f ++ eventHandlers options fs

end

variable (options : Options)

theorem eventHandlers_append (fs gs : List Fragment) :
    eventHandlers options (fs ++ gs) = eventHandlers options fs ++ eventHandlers options gs := by
  induction fs with
  | nil => rfl
  | cons f fs ih => rw [List.cons_append, eventHandlers, eventHandlers, ih, List.append_assoc]

theorem eventHandlers_textFragments (run : List Char) (offset : Nat) :
    eventHandlers options (textFragments run offset) = [] := by
  unfold textFragments
  split <;> rfl

/-- Expressions that were read at ascending places of a part of the template. -/
structure HandlersIn (lo hi : Nat) (es : List Embedded) : Prop where
  ascending : es.Pairwise fun e e' => e.offset < e'.offset
  bounds : ∀ e ∈ es, lo ≤ e.offset ∧ e.offset < hi
  read : ∀ e ∈ es, ∃ inner, embedded? inner e.offset = some e

namespace HandlersIn

variable {lo mid hi : Nat} {es es' : List Embedded}

theorem nil (lo hi : Nat) : HandlersIn lo hi [] :=
  ⟨List.Pairwise.nil, by simp, by simp⟩

theorem mono {lo' hi' : Nat} (h : HandlersIn lo hi es) (hlo : lo' ≤ lo) (hhi : hi ≤ hi') :
    HandlersIn lo' hi' es := by
  refine ⟨h.ascending, fun e he => ?_, h.read⟩
  have := h.bounds e he
  omega

theorem append (h : HandlersIn lo mid es) (h' : HandlersIn mid hi es') (hlo : lo ≤ mid) (hhi : mid ≤ hi) :
    HandlersIn lo hi (es ++ es') := by
  have h₁ := h.mono (Nat.le_refl lo) hhi
  have h₂ := h'.mono hlo (Nat.le_refl hi)
  refine ⟨List.pairwise_append.2 ⟨h.ascending, h'.ascending, fun e he e' he' => ?_⟩, ?_, ?_⟩
  · have := h.bounds e he
    have := h'.bounds e' he'
    omega
  · exact fun e he => (List.mem_append.1 he).elim (h₁.bounds e) (h₂.bounds e)
  · exact fun e he => (List.mem_append.1 he).elim (h₁.read e) (h₂.read e)

end HandlersIn

theorem offset_embedded? {inner : List Char} {offset : Nat} {e : Embedded}
    (h : embedded? inner offset = some e) : e.offset = offset := by
  obtain ⟨source, hsource, h⟩ := Option.bind_eq_some_iff.1 h
  obtain ⟨node, -, h⟩ := Option.bind_eq_some_iff.1 h
  obtain ⟨program, -, rfl⟩ := Option.map_eq_some_iff.1 hsource
  cases h
  rfl

variable {offset : Nat} {text next : List Char}

theorem BracedText.handlersIn {e : Embedded} (h : BracedText offset text next e) :
    HandlersIn offset (offset + text.length) [e] := by
  obtain ⟨h⟩ := h
  next inner =>
    obtain ⟨inner', -, -, -, he⟩ := parseEmbedded_eq_ok h
    have hoffset := offset_embedded? he
    refine ⟨List.pairwise_singleton _ _, fun e' he' => ?_, fun e' he' => ?_⟩
    · rw [List.mem_singleton.1 he', hoffset]
      simp
    · rw [List.mem_singleton.1 he', hoffset]
      exact ⟨inner', he⟩

theorem AttributeText.handlersIn {a : Attribute} (h : AttributeText offset text next a) :
    HandlersIn offset (offset + text.length) ((eventAttributes options [a]).map Prod.snd) := by
  obtain ⟨-, -, hvalue⟩ := h
  next name text value =>
    cases hvalue with
    | quoted =>
        simp only [eventAttributes, List.filterMap_cons, List.filterMap_nil, List.map_nil]
        exact .nil _ _
    | braced hbraced =>
        simp only [eventAttributes, List.filterMap_cons, List.filterMap_nil]
        split
        · next hnone => exact .nil _ _
        · next b hsome =>
            split at hsome
            · cases hsome
              have hone := hbraced.handlersIn
              refine hone.mono (by omega) ?_
              simp only [List.length_append, List.length_cons]
              omega
            · cases hsome

theorem TagText.handlersIn {attributes : List Attribute} {ends : Bool}
    (h : TagText offset text next attributes ends) :
    HandlersIn offset (offset + text.length) ((eventAttributes options attributes).map Prod.snd) := by
  induction h with
  | closed => exact .nil _ _
  | opened => exact .nil _ _
  | attr _ hown _ ih =>
      rw [eventAttributes_cons, List.map_append]
      have hfirst := (hown.handlersIn options).mono (Nat.le_add_right _ _) (Nat.le_refl _)
      refine (hfirst.append ih (by omega) (by omega)).mono (Nat.le_refl _) ?_
      simp only [List.length_append]
      omega

/-- The event handlers of a sequence of items were read at ascending places of its text. -/
theorem handlersIn_content {before after : Option ScriptBlock} {fs : List Fragment}
    (h : Content before offset text next fs after) :
    HandlersIn offset (offset + text.length) (eventHandlers options fs) := by
  induction h with
  | nil => exact .nil _ _
  | script _ _ _ _ ih =>
      refine ih.mono (by omega) ?_
      simp only [List.length_append]
      omega
  | emptyElement _ _ htag _ ih =>
      rw [eventHandlers, eventHandlersIn, eventHandlers, List.append_nil]
      refine ((htag.handlersIn options).append ih (by omega) (by omega)).mono (by omega) ?_
      simp only [List.length_append, List.length_cons]
      omega
  | element _ _ htag _ _ _ ihinner ih =>
      rw [eventHandlers, eventHandlersIn]
      have hown := (htag.handlersIn options).append ihinner (by omega) (by omega)
      refine ((hown.mono (Nat.le_refl _) (by omega)).append ih (by omega) (by omega)).mono (by omega) ?_
      simp only [List.length_append, List.length_cons]
      omega
  | expression _ _ ih =>
      rw [eventHandlers, eventHandlersIn, List.nil_append]
      refine ih.mono (by omega) ?_
      simp only [List.length_append]
      omega
  | text _ _ _ ih =>
      rw [eventHandlers_append, eventHandlers_textFragments, List.nil_append]
      refine ih.mono (by omega) ?_
      simp only [List.length_append]
      omega

/-! ### Passes over handlers -/

/-- The pass over an event handler, with the scopes that are known behind it. -/
structure HandlerPass where
  /-- The handler. -/
  handler : Embedded
  /-- The scopes known behind the pass. -/
  forest : Forest
  /-- What its names resolve to. -/
  resolution : Resolution

/-- The scopes known behind the passes over handlers that see the scope `around`. -/
def forestBehind (around : ScopeId) : Forest → List Embedded → Forest
  | forest, [] => forest
  | forest, e :: es => forestBehind around (resolveHandler e.toSource e.node forest around).1 es

/-- The passes over handlers that see the scope `around`, one after the other. -/
def handlerPasses (around : ScopeId) : Forest → List Embedded → List HandlerPass
  | _, [] => []
  | forest, e :: es =>
    let (behind, resolution) := resolveHandler e.toSource e.node forest around
    ⟨e, behind, resolution⟩ :: handlerPasses around behind es

section

variable {around : ScopeId} {forest : Forest} {es : List Embedded}

theorem forestBehind_append (es' : List Embedded) :
    forestBehind around forest (es ++ es') = forestBehind around (forestBehind around forest es) es' := by
  induction es generalizing forest with
  | nil => rfl
  | cons e es ih => exact ih

theorem handlerPasses_append (es' : List Embedded) :
    handlerPasses around forest (es ++ es') =
      handlerPasses around forest es ++ handlerPasses around (forestBehind around forest es) es' := by
  induction es generalizing forest with
  | nil => rfl
  | cons e es ih => exact congrArg (_ :: ·) ih

theorem map_handler_handlerPasses (around : ScopeId) (forest : Forest) (es : List Embedded) :
    (handlerPasses around forest es).map HandlerPass.handler = es := by
  induction es generalizing forest with
  | nil => rfl
  | cons e es ih => exact congrArg (e :: ·) (ih _)

theorem keeps_forestBehind : forest.Keeps (forestBehind around forest es) := by
  induction es generalizing forest with
  | nil => exact .refl forest
  | cons e es ih => exact (keeps_resolveHandler e.toSource e.node forest around).trans ih

/-- Later passes leave the scopes of a pass alone. -/
theorem keeps_of_mem_handlerPasses {p : HandlerPass} (h : p ∈ handlerPasses around forest es) :
    p.forest.Keeps (forestBehind around forest es) := by
  induction es generalizing forest with
  | nil => cases h
  | cons e es ih =>
      rcases List.mem_cons.1 h with rfl | h
      · exact keeps_forestBehind
      · exact ih h

end

/-! ### What analysis notes -/

/-- What looking through handlers changes in an analysis. -/
structure Analysis.Collects (es : List Embedded) (a a' : Analysis) : Prop where
  scopes : a'.scopes = a.scopes
  reactive : a'.reactive = a.reactive
  forest : a'.forest = forestBehind a.scopes.root a.forest es
  handlers : a'.handlers = a.handlers ++
    (handlerPasses a.scopes.root a.forest es).map fun p => ⟨p.handler.offset, p.resolution⟩
  willChange : ∀ name, name ∈ a'.willChange ↔ name ∈ a.willChange ∨
    ∃ p ∈ handlerPasses a.scopes.root a.forest es,
      name ∈ changedNames p.handler.toSource p.forest p.resolution a.scopes.root p.handler.node
  nodup : a.willChange.Nodup → a'.willChange.Nodup

namespace Analysis.Collects

variable {es es' : List Embedded} {a a' a'' : Analysis}

theorem nil (hscopes : a'.scopes = a.scopes) (hreactive : a'.reactive = a.reactive)
    (hforest : a'.forest = a.forest) (hhandlers : a'.handlers = a.handlers)
    (hwillChange : a'.willChange = a.willChange) : Collects [] a a' :=
  ⟨hscopes, hreactive, hforest, by simp [handlerPasses, hhandlers], by simp [handlerPasses, hwillChange],
    fun h => hwillChange ▸ h⟩

theorem append (h : Collects es a a') (h' : Collects es' a' a'') : Collects (es ++ es') a a'' := by
  have hforest := h'.forest
  have hhandlers := h'.handlers
  have hwillChange := h'.willChange
  rw [h.scopes, h.forest] at hforest hhandlers hwillChange
  refine ⟨h'.scopes.trans h.scopes, h'.reactive.trans h.reactive, ?_, ?_, fun name => ?_,
    fun hnodup => h'.nodup (h.nodup hnodup)⟩
  · rw [hforest, forestBehind_append]
  · rw [hhandlers, h.handlers, handlerPasses_append, List.map_append, List.append_assoc]
  · rw [hwillChange, h.willChange, handlerPasses_append]
    simp only [List.mem_append, or_and_right, exists_or, or_assoc]

end Analysis.Collects

theorem collects_addAttribute (program : Option Source) (a : Analysis) (attr : Attribute) :
    a.Collects ((eventAttributes options [attr]).map Prod.snd) (a.addAttribute options program attr) := by
  rw [Analysis.addAttribute]
  cases hvalue : attr.value with
  | quoted text =>
      have hnone : eventAttributes options [attr] = [] := by simp [eventAttributes, hvalue]
      rw [hnone]
      exact .nil rfl rfl rfl rfl rfl
  | expression e =>
      by_cases hevent : isEventName options attr.name = true
      · have hone : eventAttributes options [attr] = [(eventOf options attr.name, e)] := by
          simp [eventAttributes, hvalue, hevent]
        simp only [hone, hevent, if_true]
        refine ⟨rfl, rfl, rfl, rfl, fun name => ?_, Names.nodup_union⟩
        simp [Analysis.addHandler, handlerPasses]
      · have hnone : eventAttributes options [attr] = [] := by simp [eventAttributes, hvalue, hevent]
        simp only [hnone, hevent]
        exact .nil rfl rfl rfl rfl rfl

theorem collects_addAttributes (program : Option Source) (attributes : List Attribute) (a : Analysis) :
    a.Collects ((eventAttributes options attributes).map Prod.snd)
      (attributes.foldl (Analysis.addAttribute options program) a) := by
  induction attributes generalizing a with
  | nil => exact .nil rfl rfl rfl rfl rfl
  | cons attr attributes ih =>
      rw [eventAttributes_cons, List.map_append, List.foldl_cons]
      exact (collects_addAttribute options program a attr).append (ih _)

mutual

theorem collects_addFragment (program : Option Source) : ∀ (f : Fragment) (a : Analysis),
    a.Collects (eventHandlersIn options f) (Analysis.addFragment options program f a)
  | .element tag attributes children start, a => by
      rw [eventHandlersIn, Analysis.addFragment]
      exact (collects_addAttributes options program attributes a).append
        (collects_addFragments program children _)
  | .text value start, a => by
      rw [eventHandlersIn, Analysis.addFragment]
      exact .nil rfl rfl rfl rfl rfl
  | .expression e start, a => by
      rw [eventHandlersIn, Analysis.addFragment]
      exact .nil rfl rfl rfl rfl rfl

/-- In markup, analysis looks through the event handlers in source order. -/
theorem collects_addFragments (program : Option Source) : ∀ (fs : List Fragment) (a : Analysis),
    a.Collects (eventHandlers options fs) (Analysis.addFragments options program fs a)
  | [], a => by
      rw [eventHandlers, Analysis.addFragments]
      exact .nil rfl rfl rfl rfl rfl
  | f :: fs, a => by
      rw [eventHandlers, Analysis.addFragments]
      exact (collects_addFragment program f a).append (collects_addFragments program fs _)

end

/-- The scopes of a handler are found by its place. -/
theorem handlerScopes?_of_mem {lo hi : Nat} {es : List Embedded} {a a' : Analysis} {p : HandlerPass}
    (h : a.Collects es a') (hes : HandlersIn lo hi es) (hnone : a.handlers = [])
    (hp : p ∈ handlerPasses a.scopes.root a.forest es) :
    a'.handlerScopes? p.handler.offset = some p.resolution := by
  have hascending : (handlerPasses a.scopes.root a.forest es).Pairwise
      fun p q => p.handler.offset < q.handler.offset := by
    have hmap := hes.ascending
    rw [← map_handler_handlerPasses a.scopes.root a.forest es,
      List.pairwise_map] at hmap
    exact hmap
  rw [Analysis.handlerScopes?, h.handlers, hnone, List.nil_append]
  generalize handlerPasses a.scopes.root a.forest es = ps at hp hascending
  induction ps with
  | nil => cases hp
  | cons q ps ih =>
      obtain ⟨hfirst, hrest⟩ := List.pairwise_cons.1 hascending
      rw [List.map_cons, List.find?_cons]
      rcases List.mem_cons.1 hp with rfl | hp
      · simp
      · have hne : (q.handler.offset == p.handler.offset) = false :=
          beq_false_of_ne (Nat.ne_of_lt (hfirst p hp))
        simp only [hne]
        exact ih hp hrest

/-! ### The code of handlers -/

variable {c : MarkupContext} {names names' : NameCounter} {code : MarkupCode}

/-- The code keeps a handler in a variable, with its changes announced. -/
def KeepsHandler (c : MarkupContext) (e : Embedded) (create : List DomStatement) : Prop :=
  ∃ v text, handlerText c e = .ok text ∧ .keepHandler v (operandText e.node.kind text) ∈ create

theorem KeepsHandler.mono {e : Embedded} {create create' : List DomStatement} (h : KeepsHandler c e create)
    (hsub : create ⊆ create') : KeepsHandler c e create' := by
  obtain ⟨v, text, htext, hmem⟩ := h
  exact ⟨v, text, htext, hsub hmem⟩

theorem keepsHandler_attribute {holder : String} {a : Attribute} {e : Embedded}
    (h : attributeCode c holder a names = .ok (code, names'))
    (he : e ∈ (eventAttributes c.options [a]).map Prod.snd) (hplain : plainName? e.toSource e.node = none) :
    KeepsHandler c e code.create := by
  simp only [eventAttributes, List.filterMap_cons, List.filterMap_nil] at he
  unfold attributeCode at h
  split at h
  · next text hvalue => simp [hvalue] at he
  · next e' hvalue =>
      split at h
      · next hevent =>
          obtain rfl : e = e' := by simpa [hvalue, hevent] using he
          rcases eventCode_eq_ok h with ⟨handler, hname, -, -⟩ | ⟨-, text, handler, htext, -, -, rfl⟩
          · rw [hplain] at hname
            cases hname
          · exact ⟨handler, text, htext, by simp⟩
      · next hevent => simp [hvalue, hevent] at he

theorem keepsHandler_attributes {holder : String} {attributes : List Attribute} {e : Embedded}
    (h : attributesCode c holder attributes names = .ok (code, names'))
    (he : e ∈ (eventAttributes c.options attributes).map Prod.snd)
    (hplain : plainName? e.toSource e.node = none) : KeepsHandler c e code.create := by
  induction attributes generalizing names code with
  | nil => cases he
  | cons a attributes ih =>
      obtain ⟨⟨first, middle⟩, hfirst, h⟩ := exists_of_bind_eq_ok h
      obtain ⟨⟨rest, last⟩, hrest, h⟩ := exists_of_bind_eq_ok h
      cases h
      rw [eventAttributes_cons, List.map_append, List.mem_append] at he
      rcases he with he | he
      · exact (keepsHandler_attribute hfirst he hplain).mono (List.subset_append_left _ _)
      · exact (ih hrest he).mono (List.subset_append_right _ _)

mutual

theorem keepsHandler_fragment : ∀ {f : Fragment} {parent : Receiver} {names names' : NameCounter}
    {code : MarkupCode} {e : Embedded}, fragmentCode c parent f names = .ok (code, names') →
    e ∈ eventHandlersIn c.options f → plainName? e.toSource e.node = none → KeepsHandler c e code.create
  | .element tag attributes children start, parent, names, names', code, e, h, he, hplain => by
      obtain ⟨holder, own, middle, inner, -, hown, hinner, rfl⟩ := fragmentCode_element h
      have hcreate : (elementCode parent holder tag (own ++ inner)).create =
          .createElement holder tag :: (own.create ++ inner.create ++ [.appendChild parent holder]) := by
        simp [elementCode]
      rw [eventHandlersIn, List.mem_append] at he
      rw [hcreate]
      rcases he with he | he
      · exact (keepsHandler_attributes hown he hplain).mono fun s hs => by simp [hs]
      · exact (keepsHandler_fragments hinner he hplain).mono fun s hs => by simp [hs]
  | .text value start, parent, names, names', code, e, h, he, hplain => by
      rw [eventHandlersIn] at he
      cases he
  | .expression e' start, parent, names, names', code, e, h, he, hplain => by
      rw [eventHandlersIn] at he
      cases he

/-- The code of markup keeps all handlers that are no plain names. -/
theorem keepsHandler_fragments : ∀ {fs : List Fragment} {parent : Receiver} {names names' : NameCounter}
    {code : MarkupCode} {e : Embedded}, fragmentsCode c parent fs names = .ok (code, names') →
    e ∈ eventHandlers c.options fs → plainName? e.toSource e.node = none → KeepsHandler c e code.create
  | [], parent, names, names', code, e, h, he, hplain => by
      rw [eventHandlers] at he
      cases he
  | f :: fs, parent, names, names', code, e, h, he, hplain => by
      obtain ⟨first, middle, rest, hfirst, hrest, rfl⟩ := fragmentsCode_cons h
      rw [eventHandlers, List.mem_append] at he
      rcases he with he | he
      · exact (keepsHandler_fragment hfirst he hplain).mono (List.subset_append_left _ _)
      · exact (keepsHandler_fragments hrest he hplain).mono (List.subset_append_right _ _)

end

end ReactiveTemplate

/-
**The variables that a component declares.**

A component declares a variable for each node of its markup and for each event handler that is not just a
name, in the order in which the markup is gone through, and behind them what reactive statements assign to
and nobody declares.  The names of the former are made from tags and events, which may be any text.  This
module shows that each such name is an identifier of the script and none of its reserved words, and that no
variable is declared twice.

Main definitions:

* `ReactiveTemplate.Site`, `ReactiveTemplate.Fragment.sitesAll` — what the variables of markup are for, in
  order;
* `ReactiveTemplate.Site.MadeBy` — the statement that gives the variable of a site its value;
* `ReactiveTemplate.isAsciiIdentifier`, `ReactiveTemplate.strictReservedWords` — identifiers, and the words
  that are none.

Main results:

* `ReactiveTemplate.isAsciiIdentifier_identifierOf` — any text is made an identifier;
* `ReactiveTemplate.builds_fragmentsCode` — the code of markup gives each site its variable;
* `ReactiveTemplate.Names.union_eq_append` — what merging adds to a set of names;
* `ReactiveTemplate.variables_declared_once` — **the variables of a component**.
-/

import Mathlib.Data.List.Forall2
import ReactiveTemplate.Proofs.Naming

set_option relaxedAutoImplicit false
set_option autoImplicit false

namespace ReactiveTemplate

open Script

/-! ### Identifiers -/

/-- A text that is an identifier of the script and stays in ASCII: it is spelled like a label. -/
def isAsciiIdentifier (s : String) : Bool :=
  match s.toList with
  | c :: cs => Options.isLabelStart c && cs.all Options.isLabelPart
  | [] => false

/-- The reserved words of the script, with those that only strict code and modules reserve. -/
def strictReservedWords : List String :=
  Script.reservedWords ++
    ["await", "implements", "interface", "let", "package", "private", "protected", "public", "static",
      "yield"]

theorem isAsciiIdentifier_iff {s : String} : isAsciiIdentifier s = true ↔
    ∃ c cs, s.toList = c :: cs ∧ Options.isLabelStart c = true ∧ cs.all Options.isLabelPart = true := by
  unfold isAsciiIdentifier
  cases s.toList <;> simp

/-- An identifier goes on with letters, digits, underscores and dollar signs. -/
theorem isAsciiIdentifier_append {s t : String} (hs : isAsciiIdentifier s = true)
    (ht : t.toList.all Options.isLabelPart = true) : isAsciiIdentifier (s ++ t) = true := by
  obtain ⟨c, cs, hchars, hc, hcs⟩ := isAsciiIdentifier_iff.1 hs
  refine isAsciiIdentifier_iff.2 ⟨c, cs ++ t.toList, ?_, hc, ?_⟩
  · rw [String.toList_append, hchars, List.cons_append]
  · rw [List.all_append, hcs, ht, Bool.and_self]

theorem isLabelPart_of_isIdentifierChar {c : Char} (h : isIdentifierChar c = true) :
    Options.isLabelPart c = true := by
  simp only [isIdentifierChar, Options.isLabelPart, Options.isLabelStart, Bool.or_eq_true] at h ⊢
  tauto

theorem all_isLabelPart_identifierChars (cs : List Char) :
    (identifierChars cs).all Options.isLabelPart = true := by
  refine List.all_eq_true.2 fun c hc => isLabelPart_of_isIdentifierChar ?_
  exact (List.mem_filter.1 hc).2

/-- What is left of a name, once no digit comes first in it. -/
theorem isAsciiIdentifier_guardDigit {cs : List Char} (h : cs.all Options.isLabelPart = true)
    (hne : guardDigit cs ≠ []) : isAsciiIdentifier (String.ofList (guardDigit cs)) = true := by
  rw [isAsciiIdentifier_iff, String.toList_ofList]
  cases cs with
  | nil => exact absurd rfl hne
  | cons c cs =>
      by_cases hdigit : ('0' ≤ c && c ≤ '9') = true
      · rw [guardDigit, if_pos hdigit]
        exact ⟨'_', c :: cs, rfl, rfl, h⟩
      · rw [List.all_cons, Bool.and_eq_true, Options.isLabelPart, Bool.eq_false_iff.2 hdigit, Bool.or_false] at h
        rw [guardDigit, if_neg hdigit]
        exact ⟨c, cs, rfl, h⟩

/-- Any name is made an identifier, whatever characters it has. -/
theorem isAsciiIdentifier_identifierOf (name : String) : isAsciiIdentifier (identifierOf name) = true := by
  have hword : guardDigit (identifierChars name.toList) ≠ [] →
      isAsciiIdentifier (String.ofList (guardDigit (identifierChars name.toList))) = true :=
    isAsciiIdentifier_guardDigit (all_isLabelPart_identifierChars _)
  unfold identifierOf
  dsimp only
  split
  · next havoided =>
      have hne : guardDigit (identifierChars name.toList) ≠ [] := by
        intro hnil
        rw [hnil] at havoided
        exact absurd havoided (by decide)
      exact isAsciiIdentifier_append (hword hne) rfl
  · split
    · rfl
    · next hne => exact hword fun hnil => hne (by rw [hnil])

/-! ### Names with numbers -/

theorem isLabelPart_of_isDigit {c : Char} (h : c.isDigit = true) : Options.isLabelPart c = true := by
  have hrange : '0' ≤ c ∧ c ≤ '9' := by
    rw [Char.isDigit, Bool.and_eq_true, decide_eq_true_eq, decide_eq_true_eq] at h
    exact h
  simp [Options.isLabelPart, hrange]

/-- A stem with a number is an identifier. -/
theorem isAsciiIdentifier_numbered {stem : String} (h : isAsciiIdentifier stem = true) (n : Nat) :
    isAsciiIdentifier (stem ++ "_" ++ toString (n : Int)) = true := by
  refine isAsciiIdentifier_append (isAsciiIdentifier_append h rfl) (List.all_eq_true.2 fun c hc => ?_)
  exact isLabelPart_of_isDigit (isDigit_of_mem_repr hc)

/-- Reserved words have no digits, so no name with a number is one of them. -/
theorem numbered_not_mem_strictReservedWords (stem : String) (n : Nat) :
    stem ++ "_" ++ toString (n : Int) ∉ strictReservedWords := by
  have hdigits : (strictReservedWords.all fun w => w.toList.all fun c => !c.isDigit) = true := by decide
  intro hmem
  have hword := List.all_eq_true.1 (List.all_eq_true.1 hdigits _ hmem)
  obtain ⟨c, hc⟩ := List.exists_mem_of_ne_nil n.repr.toList fun hnil =>
    Nat.repr_ne_empty (String.toList_eq_nil_iff.1 hnil)
  have hnone := hword c (by rw [String.toList_append]; exact List.mem_append_right _ hc)
  rw [isDigit_of_mem_repr hc] at hnone
  cases hnone

/-! ### Identifiers as tokens -/

theorem isNamePart_of_isLabelPart {c : Char} (h : Options.isLabelPart c = true) :
    Script.isNamePart c = true := by
  simp only [Options.isLabelPart, Options.isLabelStart, Script.isNamePart, Script.isNameStart,
    Script.isDecimal, Bool.or_eq_true] at h ⊢
  tauto

theorem wordPartLength_of_all {cs : List Char} (h : ∀ c ∈ cs, Script.isNamePart c = true) :
    wordPartLength 0 cs = cs.length := by
  induction cs with
  | nil => rfl
  | cons c cs ih =>
      rw [wordPartLength, if_pos (h c List.mem_cons_self), ih fun d hd => h d (List.mem_cons_of_mem c hd),
        List.length_cons]

/-- An identifier is one word of the script from its first character to its last. -/
theorem ofChars_of_isAsciiIdentifier {s : String} (h : isAsciiIdentifier s = true) :
    Token.ofChars s.toList = (.word s, s.length) := by
  obtain ⟨c, cs, hchars, hc, hcs⟩ := isAsciiIdentifier_iff.1 h
  have hpart : ∀ d ∈ c :: cs, Script.isNamePart d = true := by
    intro d hd
    refine isNamePart_of_isLabelPart ?_
    rcases List.mem_cons.1 hd with rfl | hd
    · rw [Options.isLabelPart, hc, Bool.true_or]
    · exact List.all_eq_true.1 hcs d hd
  have hstart : Script.isNameStart c = true := by
    simp only [Options.isLabelStart, Script.isNameStart, Bool.or_eq_true] at hc ⊢
    tauto
  have hlength : wordLength (c :: cs) = (c :: cs).length := by
    rw [wordLength, hstart, Bool.true_or, if_pos rfl, wordPartLength_of_all hpart]
  have hs : String.ofList (c :: cs) = s := by rw [← hchars, String.ofList_toList]
  rw [hchars, Token.ofChars]
  simp only [hlength]
  rw [if_pos (by simp), List.take_length, hs, ← hchars, String.length_toList]

/-! ### Sites -/

/-- What a variable of the markup is for: a node, or a handler that is not just a name. -/
inductive Site where
  | element (tag : String)
  | text (value : String)
  | expression (e : Embedded)
  | handler (event : String) (e : Embedded)

/-- The stem of the variable of a site. -/
def Site.stem : Site → String
  | element tag => identifierOf tag
  | text _ | expression _ => "txt"
  | handler event _ => identifierOf event ++ "_handler"

/-- The site of an event attribute whose value is not just a name. -/
def Attribute.site? (options : Options) (a : Attribute) : Option Site :=
  match a.value with
  | .quoted _ => none
  | .expression e =>
    if isEventName options a.name && (plainName? e.toSource e.node).isNone then
      some (.handler (eventOf options a.name) e)
    else none

mutual

/-- The sites of a fragment: an element comes before its handlers, and these before its children. -/
def Fragment.sites (options : Options) : Fragment → List Site
  | .element tag attributes children _ =>
    .element tag :: (attributes.filterMap (Attribute.site? options) ++ Fragment.sitesAll options children)
  | .text value _ => [.text value]
  | .expression e _ => [.expression e]

/-- The sites of markup, in order. -/
def Fragment.sitesAll (options : Options) : List Fragment → List Site
  | [] => []
  | f :: fs => Fragment.sites options f ++ Fragment.sitesAll options fs

end

theorem Attribute.stem?_eq (options : Options) (a : Attribute) :
    a.stem? options = (a.site? options).map Site.stem := by
  unfold Attribute.stem? Attribute.site?
  cases a.value with
  | quoted text => rfl
  | expression e =>
      dsimp only
      split <;> rfl

mutual

theorem Fragment.stems_eq (options : Options) : ∀ f : Fragment,
    f.stems options = (f.sites options).map Site.stem
  | .element tag attributes children start => by
      have hstems : attributes.filterMap (Attribute.stem? options) =
          (attributes.filterMap (Attribute.site? options)).map Site.stem := by
        rw [List.map_filterMap]
        exact congrArg (attributes.filterMap ·) (funext (Attribute.stem?_eq options))
      rw [Fragment.stems, Fragment.sites, hstems, Fragment.stemsAll_eq options children, List.map_cons,
        List.map_append]
      rfl
  | .text value start => by rw [Fragment.stems, Fragment.sites]; rfl
  | .expression e start => by rw [Fragment.stems, Fragment.sites]; rfl

theorem Fragment.stemsAll_eq (options : Options) : ∀ fs : List Fragment,
    Fragment.stemsAll options fs = (Fragment.sitesAll options fs).map Site.stem
  | [] => by rw [Fragment.stemsAll, Fragment.sitesAll]; rfl
  | f :: fs => by
      rw [Fragment.stemsAll, Fragment.sitesAll, Fragment.stems_eq options f, Fragment.stemsAll_eq options fs,
        List.map_append]

end

theorem isAsciiIdentifier_stem (site : Site) : isAsciiIdentifier site.stem = true := by
  cases site with
  | element tag => exact isAsciiIdentifier_identifierOf tag
  | text value => exact (by decide : isAsciiIdentifier "txt" = true)
  | expression e => exact (by decide : isAsciiIdentifier "txt" = true)
  | handler event e => exact isAsciiIdentifier_append (isAsciiIdentifier_identifierOf event) (by decide)

/-! ### Statements that give variables their values -/

/-- The statement gives the variable of the site its value. -/
inductive Site.MadeBy : Site → DomStatement → Prop
  | element {v tag : String} : MadeBy (.element tag) (.createElement v tag)
  | text {v value : String} : MadeBy (.text value) (.createText v (.literal value))
  | expression {v : String} {e : Embedded} : MadeBy (.expression e) (.createText v (.expression e.operand))
  | handler {v event source : String} {e : Embedded} :
      MadeBy (.handler event e) (.keepHandler v (operandText e.node.kind source))

/-- Whether a statement gives a variable of a node or handler its value. -/
def DomStatement.assigns (s : DomStatement) : Bool :=
  s.assigned?.isSome

/-- The code gives each of the sites its variable, one after the other, and none besides. -/
def Builds (sites : List Site) (code : MarkupCode) : Prop :=
  List.Forall₂ Site.MadeBy sites (code.create.filter DomStatement.assigns)

theorem Builds.append {sites sites' : List Site} {code code' : MarkupCode} (h : Builds sites code)
    (h' : Builds sites' code') : Builds (sites ++ sites') (code ++ code') := by
  unfold Builds at h h' ⊢
  rw [MarkupCode.create_append, List.filter_append]
  exact List.rel_append h h'

theorem builds_nil {code : MarkupCode} (h : code.create.filter DomStatement.assigns = []) :
    Builds [] code := by
  rw [Builds, h]
  exact .nil

theorem builds_single {site : Site} {s : DomStatement} {code : MarkupCode} (hsite : site.MadeBy s)
    (h : code.create.filter DomStatement.assigns = [s]) : Builds [site] code := by
  rw [Builds, h]
  exact .cons hsite .nil

section Code

variable {c : MarkupContext} {holder : String} {names names' : NameCounter} {code : MarkupCode}

theorem builds_attributeCode {a : Attribute} (h : attributeCode c holder a names = .ok (code, names')) :
    Builds (a.site? c.options).toList code := by
  unfold attributeCode at h
  unfold Attribute.site?
  cases hvalue : a.value with
  | quoted text =>
      rw [hvalue] at h
      cases h
      exact builds_nil rfl
  | expression e =>
      rw [hvalue] at h
      dsimp only at h ⊢
      by_cases hevent : isEventName c.options a.name = true
      · rw [if_pos hevent] at h
        rcases eventCode_eq_ok h with ⟨handler, hplain, -, rfl⟩ | ⟨hplain, text, handler, -, -, -, rfl⟩
        · rw [hplain, hevent]
          exact builds_nil rfl
        · rw [hplain, hevent]
          exact builds_single .handler rfl
      · rw [if_neg hevent] at h
        cases h
        rw [Bool.eq_false_iff.2 hevent]
        exact builds_nil rfl

theorem filterMap_cons_eq_append {α β : Type} (f : α → Option β) (x : α) (xs : List α) :
    (x :: xs).filterMap f = (f x).toList ++ xs.filterMap f := by
  cases hx : f x with
  | none => rw [List.filterMap_cons_none hx]; rfl
  | some y => rw [List.filterMap_cons_some hx]; rfl

theorem builds_attributesCode {attributes : List Attribute}
    (h : attributesCode c holder attributes names = .ok (code, names')) :
    Builds (attributes.filterMap (Attribute.site? c.options)) code := by
  induction attributes generalizing names code with
  | nil =>
      cases h
      exact builds_nil rfl
  | cons a attributes ih =>
      obtain ⟨⟨first, middle⟩, hfirst, h⟩ := exists_of_bind_eq_ok h
      obtain ⟨⟨rest, last⟩, hrest, h⟩ := exists_of_bind_eq_ok h
      cases h
      rw [filterMap_cons_eq_append]
      exact (builds_attributeCode hfirst).append (ih hrest)

mutual

theorem builds_fragmentCode : ∀ {f : Fragment} {parent : Receiver} {names names' : NameCounter}
    {code : MarkupCode}, fragmentCode c parent f names = .ok (code, names') →
    Builds (f.sites c.options) code
  | .element tag attributes children start, parent, names, names', code, h => by
      obtain ⟨holder, own, middle, inner, -, hown, hinner, rfl⟩ := fragmentCode_element h
      have hholder : Builds [.element tag] ⟨[holder], [.createElement holder tag], [], []⟩ :=
        builds_single .element rfl
      have hplaced : Builds [] ⟨[], [.appendChild parent holder], [], [.removeChild parent holder]⟩ :=
        builds_nil rfl
      have hwhole := (hholder.append ((builds_attributesCode hown).append (builds_fragmentsCode hinner))).append
        hplaced
      rw [List.append_nil] at hwhole
      exact hwhole
  | .text value start, parent, names, names', code, h => by
      obtain ⟨holder, -, -, rfl⟩ := fragmentCode_text h
      exact builds_single .text rfl
  | .expression e start, parent, names, names', code, h => by
      obtain ⟨holder, update, -, -, rfl⟩ := fragmentCode_expression h
      exact builds_single .expression rfl

/-- The code of markup gives each of its sites a variable, in the order of the markup. -/
theorem builds_fragmentsCode : ∀ {fs : List Fragment} {parent : Receiver} {names names' : NameCounter}
    {code : MarkupCode}, fragmentsCode c parent fs names = .ok (code, names') →
    Builds (Fragment.sitesAll c.options fs) code
  | [], parent, names, names', code, h => by
      rw [fragmentsCode] at h
      cases h
      exact builds_nil rfl
  | f :: fs, parent, names, names', code, h => by
      obtain ⟨first, middle, rest, hfirst, hrest, rfl⟩ := fragmentsCode_cons h
      rw [Fragment.sitesAll]
      exact (builds_fragmentCode hfirst).append (builds_fragmentsCode hrest)

end

theorem builds_markupCode {html : List Fragment} (h : markupCode c html = .ok code) :
    Builds (Fragment.sitesAll c.options html) code := by
  obtain ⟨⟨whole, last⟩, hwhole, h⟩ := exists_of_bind_eq_ok h
  obtain ⟨blocks, -, h⟩ := exists_of_bind_eq_ok h
  cases h
  have hbuilds := builds_fragmentsCode hwhole
  exact hbuilds

end Code

/-! ### Merged names -/

theorem Names.union_append (xs zs : Names) (ys : List String) :
    Names.union (xs ++ zs) ys = xs ++ Names.union zs (ys.filter fun y => y ∉ xs) := by
  induction ys generalizing zs with
  | nil => rfl
  | cons y ys ih =>
      change Names.union (Names.insert (xs ++ zs) y) ys = _
      by_cases hy : y ∈ xs
      · have hinsert : Names.insert (xs ++ zs) y = xs ++ zs := if_pos (List.mem_append_left zs hy)
        rw [hinsert, ih, List.filter_cons_of_neg (by simpa using hy)]
      · have hinsert : Names.insert (xs ++ zs) y = xs ++ Names.insert zs y := by
          unfold Names.insert
          by_cases hz : y ∈ zs <;> simp [hy, hz]
        rw [hinsert, ih, List.filter_cons_of_pos (by simpa using hy)]
        rfl

/-- Merging names into a set adds, each once, those that are not in it. -/
theorem Names.union_eq_append (xs : Names) (ys : List String) :
    Names.union xs ys = xs ++ Names.ofList (ys.filter fun y => y ∉ xs) := by
  have h := Names.union_append xs [] ys
  rwa [List.append_nil] at h

/-! ### The variables of a component -/

theorem first_next_add (k : Nat) : NameCounter.first.next + (k : Int) = ((k + 1 : Nat) : Int) :=
  Int.add_comm 1 k

/-- The variables of markup are stems of sites with numbers. -/
theorem exists_site_of_assigned {c : MarkupContext} {html : List Fragment} {code : MarkupCode} {v : String}
    (h : markupCode c html = .ok code) (hv : v ∈ code.create.filterMap DomStatement.assigned?) :
    ∃ (site : Site) (n : Nat), v = site.stem ++ "_" ++ toString (n : Int) := by
  rw [(variables_markupCode h).2, Fragment.stemsAll_eq] at hv
  obtain ⟨k, stem, hstem, rfl⟩ := mem_freshAll_iff.1 hv
  obtain ⟨site, -, rfl⟩ := List.mem_map.1 (List.mem_of_getElem? hstem)
  exact ⟨site, k + 1, by rw [first_next_add]⟩

/-- **The variables of a component.**  Whatever the document, its analysis and the options are: no variable
is declared twice.  The first variables are those that hold nodes and handlers.  There is one for each
element, text and expression of the markup and for each handler that is not just a name, in the order of the
markup, and nothing else gets such a variable.  Behind them come the names that reactive statements assign
to, in the order in which these run, each once, without those that the script declares or that are there
already.  Each variable of a node or handler is an identifier, one word of the script, and not reserved. -/
theorem variables_declared_once {options : Options} {d : Document} {a : Analysis} {g : Generated}
    (h : (d.generate options a).result = .ok g) :
    let sites := Fragment.sitesAll options d.html
    let held := g.create.filterMap DomStatement.assigned?
    let assignees := (d.generate options a).analysis.reactive.flatMap fun r => r.assignees
    g.locals.Nodup ∧
    g.locals = held ++ Names.ofList (assignees.filter fun x => x ∉ a.declared ∧ x ∉ held) ∧
    List.Forall₂ Site.MadeBy sites (g.create.filter DomStatement.assigns) ∧
    (∀ (k : Nat) (site : Site), sites[k]? = some site →
      held[k]? = some (site.stem ++ "_" ++ toString (k + 1))) ∧
    ∀ v ∈ held, isAsciiIdentifier v = true ∧ Token.ofChars v.toList = (.word v, v.length) ∧
      v ∉ strictReservedWords := by
  intro sites held assignees
  obtain ⟨markup, ordered, hmarkup, -, hanalysis, hassemble⟩ := exists_assemble_of_generate h
  obtain ⟨hlocals, hcreated⟩ := variables_markupCode hmarkup
  obtain ⟨-, -, hcreate, -⟩ := assemble_eq_ok hassemble
  have hheld : held = NameCounter.first.freshAll (sites.map Site.stem) := by
    rw [← Fragment.stemsAll_eq]
    exact (congrArg (List.filterMap DomStatement.assigned?) hcreate).trans hcreated
  have hmerged : g.locals = Names.union held (undeclaredAssignees (d.generate options a).analysis) := by
    rw [(markup_assemble hassemble).1, hanalysis, hheld, ← Fragment.stemsAll_eq]
    exact congrArg (Names.union · _) hlocals
  have hget : ∀ (k : Nat) (site : Site), sites[k]? = some site →
      held[k]? = some (site.stem ++ "_" ++ toString (k + 1)) := by
    intro k site hsite
    rw [hheld, NameCounter.getElem?_freshAll, List.getElem?_map, hsite, first_next_add]
    rfl
  refine ⟨?_, ?_, ?_, hget, ?_⟩
  · rw [hmerged, hheld]
    exact Names.nodup_union (nodup_freshAll _ _)
  · have hdeclared : (d.generate options a).analysis.declared = a.declared := by rw [hanalysis]
    rw [hmerged, Names.union_eq_append, undeclaredAssignees, hdeclared, List.filter_filter]
    simp only [Bool.decide_and, Bool.and_comm]
    rfl
  · rw [hcreate]
    exact builds_markupCode hmarkup
  · intro v hv
    have hv : v ∈ markup.create.filterMap DomStatement.assigned? := by rw [← hcreate]; exact hv
    obtain ⟨site, n, rfl⟩ := exists_site_of_assigned hmarkup hv
    have hidentifier := isAsciiIdentifier_numbered (isAsciiIdentifier_stem site) n
    exact ⟨hidentifier, ofChars_of_isAsciiIdentifier hidentifier, numbered_not_mem_strictReservedWords _ _⟩

/-- An element whose tag is a reserved word, an event without a name, and one with a digit and a letter that
is not in ASCII. -/
theorem variables_declared_once_odd_names :
    ∃ (d : Document) (a : Analysis) (g : Generated), (d.generate .default a).result = .ok g ∧
      g.locals = ["class__1", "_unnamed_handler_2", "_2_x_handler_3", "txt_4", "total"] ∧ g.locals.Nodup ∧
      ∀ v ∈ g.create.filterMap DomStatement.assigned?, isAsciiIdentifier v = true ∧ v ∉ strictReservedWords := by
  have hrun : ((Document.parse
      "<script>$: total = 1</script><class on:=\x7b() => 1\x7d on:2é-x=\x7b() => 2\x7d>\x7btotal\x7d</class>"
      "odd").toOption.any fun d =>
        ((d.analyze .default).2.generate .default (d.analyze .default).1).result.toOption.any fun g =>
          g.locals == ["class__1", "_unnamed_handler_2", "_2_x_handler_3", "txt_4", "total"]) = true := by
    decide +kernel
  obtain ⟨d, -, hrun⟩ := (Option.any_eq_true _ _).1 hrun
  obtain ⟨g, hg, hlocals⟩ := (Option.any_eq_true _ _).1 hrun
  have hg := toOption_eq_some_iff.1 hg
  obtain ⟨hnodup, -, -, -, hidentifiers⟩ := variables_declared_once hg
  exact ⟨_, _, g, hg, beq_iff_eq.1 hlocals, hnodup,
    fun v hv => ⟨(hidentifiers v hv).1, (hidentifiers v hv).2.2⟩⟩

end ReactiveTemplate

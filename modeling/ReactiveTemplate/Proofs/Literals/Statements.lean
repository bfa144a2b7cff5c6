/-
**Quoted parts of the markup in the module.**

Texts and quoted attributes of the markup are written into the module as literals, each in a statement that
creates it.  Besides literals such a statement holds only a variable, which is an identifier, and fixed code.
So whatever the markup has in quotes, the statement is one line, and the strings in it have the texts of the
markup as their values.

Main definitions:

* `ReactiveTemplate.Script.Spells` — a line that is made of code and the literals of some texts;
* `ReactiveTemplate.Quoted`, `ReactiveTemplate.Fragment.quotedAll` — the texts and quoted attributes of
  markup, in order.

Main results:

* `ReactiveTemplate.quotes_fragmentsCode` — the code of markup creates each quoted part;
* `ReactiveTemplate.spells_render` — the statement of a quoted part;
* `ReactiveTemplate.create_isInfix` — the statements that create the markup are lines of the module;
* `ReactiveTemplate.literals_denote_their_texts` — **literals denote their texts**.
-/

import ReactiveTemplate.Proofs.Identifiers
import ReactiveTemplate.Proofs.Literals.Strings
import ReactiveTemplate.Proofs.Placement

set_option relaxedAutoImplicit false
set_option autoImplicit false

namespace ReactiveTemplate

namespace Script

/-! ### Lines with literals -/

/-- A line made of code and of the literals of the given texts. -/
inductive Spells : List Char → List String → Prop
  | none {cs : List Char} : cs.all isCode = true → Spells cs []
  | literal {code rest : List Char} {texts : List String} (text : String) :
      code.all isCode = true → Spells rest texts →
      Spells (code ++ ((Text.literal text).toList ++ rest)) (text :: texts)

/-- The strings of such a line are the texts. -/
theorem Spells.hasStrings {cs : List Char} {texts : List String} (h : Spells cs texts) :
    HasStrings cs (texts.map fun text => Text.units text.toList) := by
  induction h with
  | none hcode => exact .none hcode
  | literal text hcode _ ih =>
      refine .string hcode ?_ ih
      rw [toList_literal]
      exact stringValue?_literalChars _ _

/-- Such a line has no control characters. -/
theorem Spells.le_toNat {cs : List Char} {texts : List String} (h : Spells cs texts) :
    ∀ c ∈ cs, 0x20 ≤ c.toNat := by
  have hall : ∀ {code : List Char}, code.all isCode = true → ∀ c ∈ code, 0x20 ≤ c.toNat := by
    intro code hcode c hc
    have hc := List.all_eq_true.1 hcode c hc
    simp only [isCode, Bool.and_eq_true, decide_eq_true_eq] at hc
    exact hc.1
  induction h with
  | none hcode => exact hall hcode
  | literal text hcode _ ih =>
      intro c hc
      rcases List.mem_append.1 hc with hc | hc
      · exact hall hcode c hc
      rcases List.mem_append.1 hc with hc | hc
      · rw [toList_literal] at hc
        exact le_toNat_of_mem_literalChars hc
      · exact ih c hc

end Script

open Script

/-! ### Quoted parts of the markup -/

/-- A part of the markup that stands for itself. -/
inductive Quoted where
  | text (value : String)
  | named (name value : String)
  deriving DecidableEq, Repr

/-- The texts of a quoted part. -/
def Quoted.texts : Quoted → List String
  | text value => [value]
  | named name value => [name, value]

def Attribute.quoted? (a : Attribute) : Option Quoted :=
  match a.value with
  | .quoted value => some (.named a.name value)
  | .expression _ => none

mutual

/-- The quoted parts of a fragment: the attributes of an element come before its children. -/
def Fragment.quoted : Fragment → List Quoted
  | .element _ attributes children _ => attributes.filterMap Attribute.quoted? ++ Fragment.quotedAll children
  | .text value _ => [.text value]
  | .expression _ _ => []

/-- The quoted parts of markup, in order. -/
def Fragment.quotedAll : List Fragment → List Quoted
  | [] => []
  | f :: fs => Fragment.quoted f ++ Fragment.quotedAll fs

end

/-- The quoted part that a statement creates. -/
def DomStatement.quoted? : DomStatement → Option Quoted
  | .createText _ (.literal value) => some (.text value)
  | .setAttribute _ name (.literal value) => some (.named name value)
  | _ => none

/-- The variable whose element a statement gives an attribute to. -/
def DomStatement.decorated? : DomStatement → Option String
  | .setAttribute holder _ _ => some holder
  | _ => none

section Code

variable {c : MarkupContext} {holder : String} {names names' : NameCounter} {code : MarkupCode}

theorem quoted_attributeCode {a : Attribute} (h : attributeCode c holder a names = .ok (code, names')) :
    code.create.filterMap DomStatement.quoted? = a.quoted?.toList ∧
      ∀ v ∈ code.create.filterMap DomStatement.decorated?, v = holder := by
  unfold attributeCode at h
  unfold Attribute.quoted?
  cases hvalue : a.value with
  | quoted text =>
      rw [hvalue] at h
      cases h
      exact ⟨rfl, by simp [DomStatement.decorated?]⟩
  | expression e =>
      rw [hvalue] at h
      dsimp only at h
      split at h
      · rcases eventCode_eq_ok h with ⟨handler, -, -, rfl⟩ | ⟨-, text, handler, -, -, -, rfl⟩
        · exact ⟨rfl, by simp [listenerCode, DomStatement.decorated?]⟩
        · exact ⟨rfl, by simp [listenerCode, DomStatement.decorated?]⟩
      · cases h
        exact ⟨rfl, by simp [DomStatement.decorated?]⟩

theorem quoted_attributesCode {attributes : List Attribute}
    (h : attributesCode c holder attributes names = .ok (code, names')) :
    code.create.filterMap DomStatement.quoted? = attributes.filterMap Attribute.quoted? ∧
      ∀ v ∈ code.create.filterMap DomStatement.decorated?, v = holder := by
  induction attributes generalizing names code with
  | nil =>
      cases h
      exact ⟨rfl, fun v hv => nomatch hv⟩
  | cons a attributes ih =>
      obtain ⟨⟨first, middle⟩, hfirst, h⟩ := exists_of_bind_eq_ok h
      obtain ⟨⟨rest, last⟩, hrest, h⟩ := exists_of_bind_eq_ok h
      cases h
      obtain ⟨hquoted, hholder⟩ := quoted_attributeCode hfirst
      obtain ⟨hquoted', hholder'⟩ := ih hrest
      rw [MarkupCode.create_append, List.filterMap_append, List.filterMap_append, hquoted, hquoted']
      refine ⟨(filterMap_cons_eq_append _ a attributes).symm, ?_⟩
      intro v hv
      rcases List.mem_append.1 hv with hv | hv
      · exact hholder v hv
      · exact hholder' v hv

/-- The code creates the given quoted parts, one after the other, and gives attributes to elements of its
own only. -/
def Quotes (parts : List Quoted) (code : MarkupCode) : Prop :=
  code.create.filterMap DomStatement.quoted? = parts ∧
    ∀ v ∈ code.create.filterMap DomStatement.decorated?, v ∈ code.create.filterMap DomStatement.assigned?

theorem Quotes.append {parts parts' : List Quoted} {code code' : MarkupCode} (h : Quotes parts code)
    (h' : Quotes parts' code') : Quotes (parts ++ parts') (code ++ code') := by
  unfold Quotes at h h' ⊢
  simp only [MarkupCode.create_append, List.filterMap_append, List.mem_append]
  refine ⟨by rw [h.1, h'.1], fun v hv => ?_⟩
  rcases hv with hv | hv
  · exact .inl (h.2 v hv)
  · exact .inr (h'.2 v hv)

mutual

theorem quotes_fragmentCode : ∀ {f : Fragment} {parent : Receiver} {names names' : NameCounter}
    {code : MarkupCode}, fragmentCode c parent f names = .ok (code, names') → Quotes f.quoted code
  | .element tag attributes children start, parent, names, names', code, h => by
      obtain ⟨holder, own, middle, inner, -, hown, hinner, rfl⟩ := fragmentCode_element h
      obtain ⟨hquoted, hholder⟩ := quoted_attributesCode hown
      -- the attributes are those of the element that is created before them
      have hself : Quotes (attributes.filterMap Attribute.quoted?)
          ((⟨[holder], [.createElement holder tag], [], []⟩ : MarkupCode) ++ own) := by
        refine ⟨hquoted, fun v hv => ?_⟩
        rw [hholder v hv]
        exact List.mem_cons_self
      have hplaced : Quotes [] ⟨[], [.appendChild parent holder], [], [.removeChild parent holder]⟩ :=
        ⟨rfl, fun v hv => nomatch hv⟩
      have hwhole := (hself.append (quotes_fragmentsCode hinner)).append hplaced
      rw [List.append_nil] at hwhole
      rw [Fragment.quoted]
      unfold Quotes at hwhole ⊢
      simpa only [elementCode, MarkupCode.create_append, List.append_assoc] using hwhole
  | .text value start, parent, names, names', code, h => by
      obtain ⟨holder, -, -, rfl⟩ := fragmentCode_text h
      exact ⟨rfl, fun v hv => nomatch hv⟩
  | .expression e start, parent, names, names', code, h => by
      obtain ⟨holder, update, -, -, rfl⟩ := fragmentCode_expression h
      exact ⟨rfl, fun v hv => nomatch hv⟩

theorem quotes_fragmentsCode : ∀ {fs : List Fragment} {parent : Receiver} {names names' : NameCounter}
    {code : MarkupCode}, fragmentsCode c parent fs names = .ok (code, names') →
    Quotes (Fragment.quotedAll fs) code
  | [], parent, names, names', code, h => by
      rw [fragmentsCode] at h
      cases h
      exact ⟨rfl, fun v hv => nomatch hv⟩
  | f :: fs, parent, names, names', code, h => by
      obtain ⟨first, middle, rest, hfirst, hrest, rfl⟩ := fragmentsCode_cons h
      rw [Fragment.quotedAll]
      exact (quotes_fragmentCode hfirst).append (quotes_fragmentsCode hrest)

end

theorem quotes_markupCode {html : List Fragment} (h : markupCode c html = .ok code) :
    Quotes (Fragment.quotedAll html) code := by
  obtain ⟨⟨whole, last⟩, hwhole, h⟩ := exists_of_bind_eq_ok h
  obtain ⟨blocks, -, h⟩ := exists_of_bind_eq_ok h
  cases h
  have hquotes := quotes_fragmentsCode hwhole
  exact hquotes

/-- The variable in a statement that creates a quoted part is an identifier. -/
theorem isAsciiIdentifier_of_mem_create {html : List Fragment} {s : DomStatement} {v : String}
    (h : markupCode c html = .ok code) (hs : s ∈ code.create)
    (hv : s.assigned? = some v ∨ s.decorated? = some v) : isAsciiIdentifier v = true := by
  have hassigned : v ∈ code.create.filterMap DomStatement.assigned? := by
    rcases hv with hv | hv
    · exact List.mem_filterMap.2 ⟨s, hs, hv⟩
    · exact (quotes_markupCode h).2 v (List.mem_filterMap.2 ⟨s, hs, hv⟩)
  obtain ⟨site, n, rfl⟩ := exists_site_of_assigned h hassigned
  exact isAsciiIdentifier_numbered (isAsciiIdentifier_stem site) n

end Code

/-! ### Statements as lines -/

theorem isCode_of_isLabelPart {c : Char} (h : Options.isLabelPart c = true) : isCode c = true := by
  have hbreakers : (codeBreakers.all fun d => !Options.isLabelPart d) = true := by decide
  have hnot : c ∉ codeBreakers := by
    intro hmem
    have hnone := List.all_eq_true.1 hbreakers c hmem
    rw [h] at hnone
    cases hnone
  have hlow : 0x20 ≤ c.toNat := by
    simp only [Options.isLabelPart, Options.isLabelStart, Bool.or_eq_true, Bool.and_eq_true,
      decide_eq_true_eq, beq_iff_eq] at h
    rcases h with (((⟨h, -⟩ | ⟨h, -⟩) | rfl) | rfl) | ⟨h, -⟩
    · exact Nat.le_trans (by decide) (le_toNat_of_le h)
    · exact Nat.le_trans (by decide) (le_toNat_of_le h)
    · decide
    · decide
    · exact Nat.le_trans (by decide) (le_toNat_of_le h)
  rw [isCode, decide_eq_true hlow, decide_eq_true hnot, Bool.and_self]

theorem all_isCode_of_isAsciiIdentifier {v : String} (h : isAsciiIdentifier v = true) :
    v.toList.all isCode = true := by
  obtain ⟨c, cs, hchars, hc, hcs⟩ := isAsciiIdentifier_iff.1 h
  rw [hchars, List.all_cons, isCode_of_isLabelPart (by rw [Options.isLabelPart, hc, Bool.true_or]), Bool.true_and]
  exact List.all_eq_true.2 fun d hd => isCode_of_isLabelPart (List.all_eq_true.1 hcs d hd)

/-- A statement that creates a quoted part is made of code and the literals of the part. -/
theorem spells_render {s : DomStatement} {q : Quoted} (h : s.quoted? = some q)
    (hv : ∀ v, s.assigned? = some v ∨ s.decorated? = some v → isAsciiIdentifier v = true) :
    Spells s.render.toList q.texts := by
  have hend : Spells ");".toList [] := .none (by decide)
  unfold DomStatement.quoted? at h
  split at h
  · next v value =>
      cases h
      have hcode : (v ++ " = document.createTextNode(").toList.all isCode = true := by
        rw [String.toList_append, List.all_append, all_isCode_of_isAsciiIdentifier (hv v (.inl rfl))]
        decide
      have hline := Spells.literal value hcode hend
      rw [← String.toList_append, ← String.toList_append, ← String.append_assoc] at hline
      exact hline
  · next v name value =>
      cases h
      have hcode : (v ++ ".setAttribute(").toList.all isCode = true := by
        rw [String.toList_append, List.all_append, all_isCode_of_isAsciiIdentifier (hv v (.inr rfl))]
        decide
      have hcomma : ", ".toList.all isCode = true := by decide
      have hline := Spells.literal name hcode (Spells.literal value hcomma hend)
      simp only [← String.toList_append, ← String.append_assoc] at hline
      exact hline
  · cases h

/-! ### Lines of the module -/

theorem exists_lineText_eq (unit : String) (level : Nat) (text : String) :
    ∃ cs, (lineText unit level text).toList = cs ++ ['\n'] := by
  unfold lineText
  split
  · exact ⟨[], rfl⟩
  · exact ⟨_, String.toList_append⟩

theorem renderAll_cons (unit : String) (level : Nat) (l : Layout) (ls : List Layout) :
    (Layout.renderAll unit level (l :: ls)).toList =
      (l.render unit level).toList ++ (Layout.renderAll unit level ls).toList := by
  rw [Layout.renderAll, String.toList_append]

/-- A layout stands in the text of every list that it is in. -/
theorem render_isInfix {unit : String} {level : Nat} {l : Layout} {ls : List Layout} (h : l ∈ ls) :
    (l.render unit level).toList <:+: (Layout.renderAll unit level ls).toList := by
  obtain ⟨before, behind, rfl⟩ := List.append_of_mem h
  rw [renderAll_append, String.toList_append, renderAll_cons]
  exact ⟨_, _, List.append_assoc _ _ _⟩

/-- What is in a block stands in its text. -/
theorem body_isInfix {unit : String} {level : Nat} (header : String) (body : List Layout) (close : String) :
    (Layout.renderAll unit (level + 1) body).toList <:+:
      (Layout.render unit level (.block header body close)).toList := by
  rw [Layout.render, String.toList_append, String.toList_append]
  exact ⟨_, _, rfl⟩

/-- A text behind the first of several lines takes up a line of its own. -/
theorem line_isInfix (unit : String) (level : Nat) (first : String) {text : String} {texts : List String}
    (h : text ∈ texts) (hblank : Text.allBlank text.toList = false) :
    '\n' :: ((indentation unit level ++ text).toList ++ ['\n']) <:+:
      (Layout.renderAll unit level (Layout.lines (first :: texts))).toList := by
  induction texts generalizing first with
  | nil => cases h
  | cons next texts ih =>
      have hcons : (Layout.renderAll unit level (Layout.lines (first :: next :: texts))).toList =
          (lineText unit level first).toList ++
            (Layout.renderAll unit level (Layout.lines (next :: texts))).toList :=
        renderAll_cons unit level _ _
      rw [hcons]
      rcases List.mem_cons.1 h with rfl | h
      · obtain ⟨cs, hcs⟩ := exists_lineText_eq unit level first
        have hline : (lineText unit level text).toList = (indentation unit level ++ text).toList ++ ['\n'] := by
          rw [lineText, hblank, if_neg Bool.false_ne_true, String.toList_append]
          rfl
        have hnext : (Layout.renderAll unit level (Layout.lines (text :: texts))).toList =
            (lineText unit level text).toList ++ (Layout.renderAll unit level (Layout.lines texts)).toList :=
          renderAll_cons unit level _ _
        refine ⟨cs, (Layout.renderAll unit level (Layout.lines texts)).toList, ?_⟩
        rw [hcs, ← hline, hnext]
        simp
      · exact (ih _ h).trans (List.suffix_append _ _).isInfix

/-- The exported function is a block of the module, whatever the format. -/
theorem exists_function_of_layout {c : Component} {format : String} {ls : List Layout}
    (h : c.layout format = .ok ls) :
    ∃ header reactive updates close, Layout.block header (c.functionLayout reactive updates) close ∈ ls := by
  obtain ⟨reactive, -, h⟩ := exists_of_bind_eq_ok h
  obtain ⟨updates, -, h⟩ := exists_of_bind_eq_ok h
  cases h
  by_cases hformat : format = "esm"
  · exact ⟨_, reactive, updates, _, List.mem_append_right _ (List.mem_singleton.2 (if_pos hformat).symm)⟩
  · exact ⟨_, reactive, updates, _, List.mem_append_right _ (List.mem_singleton.2 (if_neg hformat).symm)⟩

/-- The statements that create the markup are lines of the module. -/
theorem create_isInfix {options : Options} {d : Document} {a : Analysis} {g : Generated} {s : DomStatement}
    (h : (d.generate options a).result = .ok g) (hs : s ∈ g.create)
    (hblank : Text.allBlank s.render.toList = false) :
    '\n' :: ((indentation options.indent 3 ++ s.render).toList ++ ['\n']) <:+: g.text.toList := by
  obtain ⟨-, ls, hls, htext⟩ := exists_layout_of_generate h
  obtain ⟨header, reactive, updates, close, hfunction⟩ := exists_function_of_layout hls
  have hlifecycle : g.lifecycleLayout updates ∈ g.functionLayout reactive updates := by
    simp [Component.functionLayout]
  rw [htext]
  -- from the line out: the block that creates, the object it is in, and the function
  exact (line_isInfix options.indent 3 "$$target = target;" (List.mem_map_of_mem hs) hblank).trans <|
    (body_isInfix _ _ _).trans <| (render_isInfix List.mem_cons_self).trans <|
    (body_isInfix _ _ _).trans <| (render_isInfix hlifecycle).trans <|
    (body_isInfix _ _ _).trans <| render_isInfix hfunction

theorem allBlank_render {s : DomStatement} {q : Quoted} (h : s.quoted? = some q) :
    Text.allBlank s.render.toList = false := by
  have hend : ';' ∈ s.render.toList := by
    unfold DomStatement.quoted? at h
    split at h
    · rw [DomStatement.render, String.toList_append]
      exact List.mem_append_right _ (by decide)
    · rw [DomStatement.render, String.toList_append]
      exact List.mem_append_right _ (by decide)
    · cases h
  exact List.all_eq_false.2 ⟨';', hend, by decide⟩

/-- **Literals denote their texts.**  The literal of a text is a string of the script that ends where the
literal ends, whatever follows.  Its value is made of the code units of the text, which determine the text,
and it has no control characters, so no line ends in it.  The grammar of the script takes it for one string.
In a component, each text and each quoted attribute of the markup is created by a statement of its own, in
the order of the markup.  The statement has no control characters and is a line of the module, and the
values of the strings in it are the texts of the part. -/
theorem literals_denote_their_texts :
    (∀ (text : String) (rest : List Char),
      stringValue? ((Text.literal text).toList ++ rest) = some (Text.units text.toList, rest)) ∧
    (∀ text text' : String, Text.units text.toList = Text.units text'.toList → text = text') ∧
    (∀ (text : String), ∀ c ∈ (Text.literal text).toList, 0x20 ≤ c.toNat) ∧
    (∀ (text : String) (rest : List Char) (place : Place) (c : Cursor),
      c.rest = (Text.literal text).toList ++ rest →
      ∃ node d, stringLiteral place c = some (node, d) ∧ node.kind = .string ∧ node.start = c.pos ∧
        node.stop = c.pos + Text.byteLength (Text.literal text).toList ∧ d.behind = rest) ∧
    ∀ (options : Options) (d : Document) (a : Analysis) (g : Generated),
      (d.generate options a).result = .ok g →
      g.create.filterMap DomStatement.quoted? = Fragment.quotedAll d.html ∧
      ∀ s ∈ g.create, ∀ q, s.quoted? = some q →
        (∀ c ∈ s.render.toList, 0x20 ≤ c.toNat) ∧
        '\n' :: ((indentation options.indent 3 ++ s.render).toList ++ ['\n']) <:+: g.text.toList ∧
        ∀ values, HasStrings s.render.toList values ↔
          values = q.texts.map fun text => Text.units text.toList := by
  have hvalue : ∀ (text : String) (rest : List Char),
      stringValue? ((Text.literal text).toList ++ rest) = some (Text.units text.toList, rest) := by
    intro text rest
    rw [toList_literal]
    exact stringValue?_literalChars text.toList rest
  refine ⟨hvalue, ?_, ?_, ?_, ?_⟩
  · intro text text' h
    exact String.toList_inj.1 (Text.units_inj h)
  · intro text c hc
    rw [toList_literal] at hc
    exact le_toNat_of_mem_literalChars hc
  · intro text rest place c hc
    have hread := hvalue text rest
    rw [← hc] at hread
    obtain ⟨node, d, hnode, hkind, hstart, hstop, hbehind⟩ :=
      exists_stringLiteral_of_stringValue? place hread
    rw [hc, Text.byteLength_append] at hstop
    exact ⟨node, d, hnode, hkind, hstart, by omega, hbehind⟩
  · intro options d a g h
    obtain ⟨markup, hmarkup, hcreate, -, -⟩ := generate_eq_ok_parts h
    refine ⟨?_, ?_⟩
    · rw [hcreate]
      exact (quotes_markupCode hmarkup).1
    · intro s hs q hq
      have hspells : Spells s.render.toList q.texts := by
        refine spells_render hq fun v hv => ?_
        exact isAsciiIdentifier_of_mem_create hmarkup (hcreate ▸ hs) hv
      refine ⟨hspells.le_toNat, create_isInfix h hs (allBlank_render hq), fun values => ⟨?_, ?_⟩⟩
      · intro hvalues
        exact hvalues.unique hspells.hasStrings
      · rintro rfl
        exact hspells.hasStrings

/-- Quotes, a backslash before a quote and a line feed in an attribute, and a control character in a text. -/
theorem literals_denote_their_texts_marks :
    ∃ (d : Document) (a : Analysis) (g : Generated), (d.generate .default a).result = .ok g ∧
      (∃ s ∈ g.create, s.render = "p_1.setAttribute(\"title\", \"say \\\"hi\\\"\\\\\\n\");" ∧
        ∀ values, HasStrings s.render.toList values ↔
          values = [Text.units "title".toList, Text.units "say \"hi\"\\\n".toList]) ∧
      ∃ s ∈ g.create, s.render = "txt_2 = document.createTextNode(\"a\\u0001b\");" ∧
        ∀ values, HasStrings s.render.toList values ↔ values = [Text.units "a\x01b".toList] := by
  have hrun : ((Document.parse "<p title='say \"hi\"\\\n'>a\x01b</p>" "marks").toOption.any fun d =>
      ((d.analyze .default).2.generate .default (d.analyze .default).1).result.toOption.any fun g =>
        g.create.contains (.setAttribute "p_1" "title" (.literal "say \"hi\"\\\n")) &&
          g.create.contains (.createText "txt_2" (.literal "a\x01b"))) = true := by
    decide +kernel
  obtain ⟨d, -, hrun⟩ := (Option.any_eq_true _ _).1 hrun
  obtain ⟨g, hg, hparts⟩ := (Option.any_eq_true _ _).1 hrun
  obtain ⟨hattribute, htext⟩ := Bool.and_eq_true_iff.1 hparts
  have hg := toOption_eq_some_iff.1 hg
  obtain ⟨-, hcreated⟩ := literals_denote_their_texts.2.2.2.2 _ _ _ _ hg
  have hattribute := List.contains_iff_mem.1 hattribute
  have htext := List.contains_iff_mem.1 htext
  exact ⟨_, _, g, hg, ⟨_, hattribute, by decide +kernel, (hcreated _ hattribute _ rfl).2.2⟩,
    ⟨_, htext, by decide +kernel, (hcreated _ htext _ rfl).2.2⟩⟩

end ReactiveTemplate

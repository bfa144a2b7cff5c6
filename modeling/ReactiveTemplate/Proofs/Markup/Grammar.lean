/-
**The grammar of templates.**

This module says which texts are templates and what documents they stand for, without saying how they
are read.  A template is a sequence of items.  Where an item takes as many characters as it can, the
grammar looks at the text behind it, so each rule speaks of a text and of the text that follows it.
Every rule knows the offset at which its text starts, for the nodes of a document record theirs, and the
script block that stands before its text, for there is at most one.

Main definitions:

* `ReactiveTemplate.MaximalRun` — a run of characters that cannot be made longer;
* `ReactiveTemplate.ScriptTag`, `ReactiveTemplate.StartsScript` — the opening tag of the script block,
  which comes before all other readings of a text;
* `ReactiveTemplate.BracedText`, `ReactiveTemplate.AttributeText`, `ReactiveTemplate.TagText` —
  expressions in braces, attributes, and what stands behind the name in an opening tag;
* `ReactiveTemplate.Content` — sequences of items;
* `ReactiveTemplate.Document.Derives` — the document that a template stands for.

Main results:

* `ReactiveTemplate.scriptOpening?_eq_some_iff`, `ReactiveTemplate.takeUntil?_eq_some_iff`,
  `ReactiveTemplate.attributeValue_eq_ok_iff` — the small readers find what the grammar says.
-/

import Mathlib.Data.List.TakeWhile
import Mathlib.Tactic.ByContra
import ReactiveTemplate.Markup.Reader

set_option relaxedAutoImplicit false
set_option autoImplicit false

namespace ReactiveTemplate

open Script

/-! ### Runs of characters -/

/-- A run of characters of a class that cannot be made longer: the text behind it starts with no
character of the class. -/
structure MaximalRun (p : Char → Bool) (run next : List Char) : Prop where
  all : ∀ c ∈ run, p c = true
  stops : ∀ c, next.head? = some c → p c = false

/-- A text of blanks. -/
def Blanks (ws : List Char) : Prop :=
  ∀ c ∈ ws, Text.isBlank c = true

/-- A tag name that cannot be made longer. -/
inductive TagName : List Char → List Char → Prop
  | mk {c : Char} {cs next : List Char} : isTagStart c = true → MaximalRun isTagPart cs next →
      TagName (c :: cs) next

/-- The text `before` ends where a literal occurs first. -/
def BeforeFirst (literal before after : List Char) : Prop :=
  ∀ u v, before ++ (literal ++ after) = u ++ (literal ++ v) → before.length ≤ u.length

/-- The opening tag of the script block. -/
inductive ScriptTag : List Char → Prop
  | mk {ws : List Char} : Blanks ws → ScriptTag ("<script".toList ++ ws ++ ['>'])

/-- The end of the script block. -/
def scriptEnd : List Char :=
  "</script>".toList

/-- A text that starts with the opening tag of the script block. -/
def StartsScript (cs : List Char) : Prop :=
  ∃ tag, ScriptTag tag ∧ tag <+: cs

/-! ### Expressions and tags -/

/-- An expression in braces at an offset.  The reader of expressions sees all that follows the opening
brace and ends at the closing one. -/
inductive BracedText (offset : Nat) : List Char → List Char → Embedded → Prop
  | mk {inner next : List Char} {e : Embedded} :
      parseEmbedded (inner ++ '}' :: next) (offset + 1) = .ok (e, offset + 1 + inner.length) →
      BracedText offset ('{' :: (inner ++ ['}'])) next e

/-- The value of an attribute at an offset. -/
inductive ValueText (offset : Nat) : List Char → List Char → AttributeValue → Prop
  | quoted {mark : Char} {value next : List Char} : mark = '"' ∨ mark = '\'' → mark ∉ value →
      ValueText offset (mark :: (value ++ [mark])) next (.quoted (String.ofList value))
  | braced {text next : List Char} {e : Embedded} : BracedText offset text next e →
      ValueText offset text next (.expression e)

/-- An attribute at an offset. -/
inductive AttributeText (offset : Nat) : List Char → List Char → Attribute → Prop
  | mk {name text next : List Char} {value : AttributeValue} : name ≠ [] →
      MaximalRun isAttributePart name ('=' :: (text ++ next)) →
      ValueText (offset + name.length + 1) text next value →
      AttributeText offset (name ++ '=' :: text) next ⟨String.ofList name, value, offset⟩

/-- What stands behind the name in an opening tag at an offset: attributes with blanks around them, and
the end of the tag.  The flag tells that the element ends with its tag. -/
inductive TagText : Nat → List Char → List Char → List Attribute → Bool → Prop
  | closed {offset : Nat} {ws next : List Char} : Blanks ws →
      TagText offset (ws ++ ['/', '>']) next [] true
  | opened {offset : Nat} {ws next : List Char} : Blanks ws →
      TagText offset (ws ++ ['>']) next [] false
  | attr {offset : Nat} {ws own text next : List Char} {a : Attribute}
      {attributes : List Attribute} {ends : Bool} : Blanks ws →
      AttributeText (offset + ws.length) own (text ++ next) a →
      TagText (offset + ws.length + own.length) text next attributes ends →
      TagText offset (ws ++ (own ++ text)) next (a :: attributes) ends

/-- The closing tag of an element. -/
inductive ClosingTag (name : List Char) : List Char → Prop
  | mk {ws : List Char} : Blanks ws → ClosingTag name ('<' :: '/' :: (name ++ (ws ++ ['>'])))

/-! ### Items -/

/-- The fragments that a run of text gives. -/
def textFragments (run : List Char) (offset : Nat) : List Fragment :=
  if Text.allBlank run then [] else [.text (String.ofList run) offset]

/-- A sequence of items: `Content before offset text next fragments after` says that `text`, which
starts at `offset` and is followed by `next`, is a sequence of items that gives `fragments`.  The script
block read so far is `before` in front of the text and `after` behind it. -/
inductive Content : Option ScriptBlock → Nat → List Char → List Char → List Fragment →
    Option ScriptBlock → Prop
  | nil {s : Option ScriptBlock} {offset : Nat} {next : List Char} : Content s offset [] next [] s
  | script {after : Option ScriptBlock} {offset : Nat} {tag body text next : List Char}
      {program : Source} {fs : List Fragment} : ScriptTag tag →
      BeforeFirst scriptEnd body (text ++ next) →
      Source.ofScript? body (offset + tag.length) = some program →
      Content (some (.ofProgram program offset))
        (offset + tag.length + body.length + scriptEnd.length) text next fs after →
      Content none offset (tag ++ (body ++ (scriptEnd ++ text))) next fs after
  | emptyElement {before after : Option ScriptBlock} {offset : Nat} {name tag text next : List Char}
      {attributes : List Attribute} {fs : List Fragment} :
      ¬StartsScript ('<' :: (name ++ (tag ++ (text ++ next)))) →
      TagName name (tag ++ (text ++ next)) →
      TagText (offset + 1 + name.length) tag (text ++ next) attributes true →
      Content before (offset + 1 + name.length + tag.length) text next fs after →
      Content before offset ('<' :: (name ++ (tag ++ text))) next
        (.element (String.ofList name) attributes [] offset :: fs) after
  | element {before middle after : Option ScriptBlock} {offset : Nat}
      {name tag inner closing text next : List Char} {attributes : List Attribute}
      {children fs : List Fragment} :
      ¬StartsScript ('<' :: (name ++ (tag ++ (inner ++ (closing ++ (text ++ next)))))) →
      TagName name (tag ++ (inner ++ (closing ++ (text ++ next)))) →
      TagText (offset + 1 + name.length) tag (inner ++ (closing ++ (text ++ next))) attributes false →
      Content before (offset + 1 + name.length + tag.length) inner (closing ++ (text ++ next)) children
        middle →
      ClosingTag name closing →
      Content middle (offset + 1 + name.length + tag.length + inner.length + closing.length) text next
        fs after →
      Content before offset ('<' :: (name ++ (tag ++ (inner ++ (closing ++ text))))) next
        (.element (String.ofList name) attributes children offset :: fs) after
  | expression {before after : Option ScriptBlock} {offset : Nat} {braced text next : List Char}
      {e : Embedded} {fs : List Fragment} : BracedText offset braced (text ++ next) e →
      Content before (offset + braced.length) text next fs after →
      Content before offset (braced ++ text) next (.expression e offset :: fs) after
  | text {before after : Option ScriptBlock} {offset : Nat} {run text next : List Char}
      {fs : List Fragment} : run ≠ [] → MaximalRun isTextPart run (text ++ next) →
      Content before (offset + run.length) text next fs after →
      Content before offset (run ++ text) next (textFragments run offset ++ fs) after

/-- The document that a template of the given name stands for: the whole text is a sequence of items. -/
structure Document.Derives (template filename : String) (d : Document) : Prop where
  content : Content none 0 template.toList [] d.html d.script
  filename_eq : d.filename = filename
  source_eq : d.source = template

/-! ### Reading runs and literals -/

variable {p : Char → Bool} {c : Char} {cs name next rest : List Char} {offset : Nat}

/-- Every text starts with a maximal run of any class, which may be empty. -/
theorem exists_maximalRun (p : Char → Bool) (cs : List Char) :
    ∃ run next, cs = run ++ next ∧ MaximalRun p run next := by
  refine ⟨cs.takeWhile p, cs.dropWhile p, List.takeWhile_append_dropWhile.symm,
    fun c hc => List.mem_takeWhile_imp hc, fun c hc => ?_⟩
  have hstop := List.head?_dropWhile_not p cs
  rwa [hc] at hstop

theorem MaximalRun.takeWhile_eq {run : List Char} (h : MaximalRun p run next) :
    (run ++ next).takeWhile p = run := by
  rw [List.takeWhile_append_of_pos h.all]
  cases next with
  | nil => simp
  | cons c next => simp [h.stops c rfl]

/-- A run of blanks ends before every character that is none. -/
theorem Blanks.maximalRun {ws : List Char} (h : Blanks ws) (hc : Text.isBlank c = false) :
    MaximalRun Text.isBlank ws (c :: next) :=
  ⟨h, fun d hd => by rwa [← Option.some.inj hd]⟩

theorem stripLiteral?_eq_some_iff {literal : List Char} :
    stripLiteral? literal cs = some rest ↔ cs = literal ++ rest := by
  induction literal generalizing cs with
  | nil => simp [stripLiteral?]
  | cons l literal ih =>
      cases cs with
      | nil => simp [stripLiteral?]
      | cons c cs =>
          rw [stripLiteral?]
          by_cases h : l = c
          · simp [h, ih]
          · simp [h, Ne.symm h]

/-- The part in front of the first occurrence of a literal, one character further back. -/
theorem beforeFirst_cons {literal before after : List Char}
    (hc : ¬literal <+: c :: (before ++ (literal ++ after))) :
    BeforeFirst literal (c :: before) after ↔ BeforeFirst literal before after := by
  constructor
  · intro h u v huv
    have hlen := h (c :: u) v (by simp [huv])
    simpa using hlen
  · intro h u v huv
    cases u with
    | nil => exact absurd ⟨v, huv.symm⟩ hc
    | cons d u =>
        have hlen := h u v (List.cons.inj huv).2
        simpa using hlen

theorem takeUntil?_eq_some_iff {literal before : List Char} (hl : literal ≠ []) :
    takeUntil? literal cs = some before ↔
      ∃ after, cs = before ++ (literal ++ after) ∧ BeforeFirst literal before after := by
  induction cs generalizing before with
  | nil => simp [takeUntil?, hl]
  | cons c cs ih =>
      rw [takeUntil?]
      by_cases hpre : literal <+: c :: cs
      · rw [if_pos (List.isPrefixOf_iff_prefix.2 hpre)]
        obtain ⟨after, hafter⟩ := hpre
        constructor
        · rintro ⟨⟩
          exact ⟨after, hafter.symm, fun u v _ => Nat.zero_le _⟩
        · rintro ⟨after', heq, hfirst⟩
          -- the literal stands at the start, so nothing is in front of its first occurrence
          have hlen := hfirst [] after (heq.symm.trans hafter.symm)
          rw [List.length_eq_zero_iff.1 (Nat.le_zero.1 hlen)]
      · rw [if_neg fun h => hpre (List.isPrefixOf_iff_prefix.1 h), Option.map_eq_some_iff]
        constructor
        · rintro ⟨b, hb, rfl⟩
          obtain ⟨after, rfl, hfirst⟩ := ih.1 hb
          exact ⟨after, rfl, (beforeFirst_cons hpre).2 hfirst⟩
        · rintro ⟨after, heq, hfirst⟩
          cases before with
          | nil => exact absurd ⟨after, heq.symm⟩ hpre
          | cons d before =>
              obtain ⟨rfl, rfl⟩ := List.cons.inj heq
              exact ⟨before, ih.2 ⟨after, rfl, (beforeFirst_cons hpre).1 hfirst⟩, rfl⟩

/-- The first occurrence of a single character. -/
theorem beforeFirst_singleton_iff {before after : List Char} :
    BeforeFirst [c] before after ↔ c ∉ before := by
  constructor
  · intro h hc
    obtain ⟨u, v, rfl⟩ := List.append_of_mem hc
    have hlen := h u (v ++ c :: after) (by simp)
    rw [List.length_append, List.length_cons] at hlen
    omega
  · intro h u v huv
    by_contra hlt
    refine h ?_
    -- the character that follows `u` is inside the text
    have hget : (before ++ ([c] ++ after))[u.length]? = some c := by rw [huv]; simp
    rw [List.getElem?_append_left (by omega)] at hget
    exact List.mem_of_getElem? hget

/-! ### Reading tags -/

theorem scriptOpening?_eq_some_iff {tag : List Char} :
    scriptOpening? cs = some tag ↔ ScriptTag tag ∧ tag <+: cs := by
  have hgt : Text.isBlank '>' = false := by decide
  constructor
  · intro h
    obtain ⟨inside, hinside, h⟩ := Option.bind_eq_some_iff.1 h
    obtain ⟨rest, hrest, h⟩ := Option.bind_eq_some_iff.1 h
    obtain ⟨ws, next, rfl, hws⟩ := exists_maximalRun Text.isBlank inside
    rw [stripLiteral?_eq_some_iff] at hinside hrest
    rw [hws.takeWhile_eq] at h hrest
    rw [List.drop_left] at hrest
    cases h
    exact ⟨.mk hws.all, rest, by rw [hinside, hrest]; simp⟩
  · rintro ⟨⟨hws⟩, rest, rfl⟩
    next ws =>
      have hinside : stripLiteral? "<script".toList ("<script".toList ++ ws ++ ['>'] ++ rest) =
          some (ws ++ '>' :: rest) := stripLiteral?_eq_some_iff.2 (by simp)
      have hblanks : (ws ++ '>' :: rest).takeWhile Text.isBlank = ws :=
        (Blanks.maximalRun hws hgt).takeWhile_eq
      have hclose : stripLiteral? ['>'] ((ws ++ '>' :: rest).drop ws.length) = some rest :=
        stripLiteral?_eq_some_iff.2 (by simp)
      simp only [scriptOpening?, hinside, hblanks, hclose, Option.bind_eq_bind, Option.bind_some]
      rfl

theorem scriptOpening?_eq_none_iff : scriptOpening? cs = none ↔ ¬StartsScript cs := by
  rw [Option.eq_none_iff_forall_ne_some]
  simp only [ne_eq, scriptOpening?_eq_some_iff, StartsScript, not_exists]

/-- A tag name that is there is read as far as it goes. -/
theorem TagName.tagName_eq (h : TagName name next) : tagName (name ++ next) = name := by
  obtain ⟨hc, hrun⟩ := h
  simp [tagName, hc, hrun.takeWhile_eq]

theorem exists_tagName (h : tagName cs ≠ []) :
    ∃ name next, cs = name ++ next ∧ TagName name next := by
  cases cs with
  | nil => exact absurd rfl h
  | cons c cs =>
      obtain ⟨run, next, rfl, hrun⟩ := exists_maximalRun isTagPart cs
      by_cases hc : isTagStart c = true
      · exact ⟨c :: run, next, rfl, .mk hc hrun⟩
      · simp [tagName, hc] at h

theorem TagName.ne_nil (h : TagName name next) : name ≠ [] := by
  obtain ⟨-, -⟩ := h
  simp

/-! ### Reading values -/

theorem searchEnd?_eq_some {before : List Char} {e : Embedded} {n : Nat}
    (h : searchEnd? offset before cs = some (e, n)) :
    ∃ inner next, cs = inner ++ '}' :: next ∧ n = before.length + inner.length ∧
      embedded? (before.reverse ++ inner) offset = some e := by
  induction cs generalizing before with
  | nil => cases h
  | cons c cs ih =>
      have hgo : searchEnd? offset (c :: before) cs = some (e, n) →
          ∃ inner next, c :: cs = inner ++ '}' :: next ∧ n = before.length + inner.length ∧
            embedded? (before.reverse ++ inner) offset = some e := by
        intro h
        obtain ⟨inner, next, rfl, rfl, he⟩ := ih h
        exact ⟨c :: inner, next, rfl, by simp; omega, by simpa using he⟩
      rw [searchEnd?] at h
      split at h
      · next hc =>
          split at h
          · next e' he =>
              cases h
              obtain rfl : c = '}' := by simpa using hc
              exact ⟨[], cs, rfl, rfl, by simpa using he⟩
          · exact hgo h
      · exact hgo h

/-- An expression that was read ends at a closing brace, and the text in front of the brace is the
expression. -/
theorem parseEmbedded_eq_ok {e : Embedded} {stop : Nat} (h : parseEmbedded rest offset = .ok (e, stop)) :
    ∃ inner next, rest = inner ++ '}' :: next ∧ stop = offset + inner.length ∧
      embedded? inner offset = some e := by
  unfold parseEmbedded at h
  split at h
  · cases h
  · split at h
    · next hsearch =>
        cases h
        obtain ⟨inner, next, rfl, rfl, he⟩ := searchEnd?_eq_some hsearch
        exact ⟨inner, next, rfl, by simp, by simpa using he⟩
    · cases h

/-- Reading an expression behind an opening brace. -/
theorem parseEmbedded_eq_ok_iff {e : Embedded} {stop : Nat} :
    parseEmbedded rest (offset + 1) = .ok (e, stop) ↔
      ∃ text next, '{' :: rest = text ++ next ∧ stop + 1 = offset + text.length ∧
        BracedText offset text next e := by
  constructor
  · intro h
    obtain ⟨inner, next, rfl, rfl, -⟩ := parseEmbedded_eq_ok h
    exact ⟨'{' :: (inner ++ ['}']), next, by simp, by simp; omega, .mk h⟩
  · rintro ⟨text, next, hrest, hstop, ⟨h⟩⟩
    next inner =>
      obtain rfl : rest = inner ++ '}' :: next := by simpa using hrest
      obtain rfl : stop = offset + 1 + inner.length := by simp at hstop; omega
      exact h

theorem BracedText.length_pos {text : List Char} {e : Embedded} (h : BracedText offset text next e) :
    0 < text.length := by
  obtain ⟨-⟩ := h
  simp

theorem attributeValue_brace (name : String) :
    attributeValue name ('{' :: rest) offset =
      (parseEmbedded rest (offset + 1)).map fun r => (.expression r.1, r.2 - offset + 1) := by
  rw [attributeValue]
  cases parseEmbedded rest (offset + 1) <;> rfl

theorem attributeValue_mark {mark : Char} (name : String) (hmark : mark = '"' ∨ mark = '\'') :
    attributeValue name (mark :: rest) offset =
      match takeUntil? [mark] rest with
      | some value => .ok (.quoted (String.ofList value), value.length + 2)
      | none => .error ⟨.unterminatedValue name mark.toString, offset + (mark :: rest).length⟩ := by
  rcases hmark with rfl | rfl <;> rfl

theorem attributeValue_eq_ok_iff {name : String} {value : AttributeValue} {n : Nat} :
    attributeValue name cs offset = .ok (value, n) ↔
      ∃ text next, cs = text ++ next ∧ n = text.length ∧ ValueText offset text next value := by
  constructor
  · intro h
    cases cs with
    | nil => cases h
    | cons c rest =>
        by_cases hbrace : c = '{'
        · subst hbrace
          rw [attributeValue_brace] at h
          cases hparse : parseEmbedded rest (offset + 1) with
          | error l => rw [hparse] at h; cases h
          | ok result =>
              rw [hparse] at h
              cases h
              obtain ⟨text, next, hrest, hstop, hbraced⟩ := parseEmbedded_eq_ok_iff.1 hparse
              have hpos := hbraced.length_pos
              exact ⟨text, next, hrest, by omega, .braced hbraced⟩
        · by_cases hmark : c = '"' ∨ c = '\''
          · rw [attributeValue_mark _ hmark] at h
            split at h
            · next body htake =>
                cases h
                obtain ⟨after, rfl, hfirst⟩ := (takeUntil?_eq_some_iff (by simp)).1 htake
                exact ⟨c :: (body ++ [c]), after, by simp, by simp,
                  .quoted hmark (beforeFirst_singleton_iff.1 hfirst)⟩
            · cases h
          · simp [attributeValue, hmark] at h
  · rintro ⟨text, next, rfl, rfl, htext⟩
    cases htext with
    | @quoted mark body _ hmark hbody =>
        have htake : takeUntil? [mark] (body ++ ([mark] ++ next)) = some body :=
          (takeUntil?_eq_some_iff (by simp)).2 ⟨next, rfl, beforeFirst_singleton_iff.2 hbody⟩
        rw [List.cons_append, attributeValue_mark _ hmark, List.append_assoc, htake]
        simp
    | @braced _ _ e hbraced =>
        obtain ⟨hparse⟩ := hbraced
        next inner =>
          rw [List.cons_append, List.append_assoc, List.singleton_append, attributeValue_brace, hparse]
          simp [Except.map]
          omega

end ReactiveTemplate

/-
**The reader of templates goes forward.**

The reader keeps a cursor into the template and takes one item after the other.  Each item has at least one
character, and all its characters are in the template.  So the cursor moves forward with every item and never
leaves the template, no run of the reader goes on for ever, and each ends with a document or with a fault.
What the template is made of takes several items: an element takes its opening tag, the items between its
tags and its closing tag.  It moves the cursor forward because each of them does.

Main definitions:

* `ReactiveTemplate.Reading` — the reader on its way: what it has read, and its cursor;
* `ReactiveTemplate.Advances` — the reader takes an item;
* `ReactiveTemplate.CompletesAttribute`, `ReactiveTemplate.CompletesClosingTag`,
  `ReactiveTemplate.CompletesFragment` — the reader comes to the end of a part of the template;
* `ReactiveTemplate.Halts` — the reader cannot go on, and what it answers.

Main results:

* `ReactiveTemplate.Advances.cursor_lt`, `ReactiveTemplate.Advances.cursor_le` — single items;
* `ReactiveTemplate.exists_run` — a run to the end;
* `ReactiveTemplate.exists_completesFragment` — a fragment that begins is read to its end;
* `ReactiveTemplate.in_of_readFrom_error` — faults are found inside the template;
* `ReactiveTemplate.reader_makes_progress` — **the reader goes forward and comes to an end**.
-/

import Mathlib.Logic.Relation
import ReactiveTemplate.Proofs.Markup.Recognition

set_option relaxedAutoImplicit false
set_option autoImplicit false

namespace ReactiveTemplate

open Script

/-! ### Items -/

/-- The reader on its way through a text. -/
structure Reading where
  /-- What has been read. -/
  state : ReaderState
  /-- The offset of what comes next. -/
  cursor : Nat

/-- The reader before it has read anything. -/
def Reading.start : Reading :=
  ⟨.initial, 0⟩

/-- The reader takes an item of a text. -/
def Advances (cs : List Char) (r r' : Reading) : Prop :=
  ∃ c rest n, cs.drop r.cursor = c :: rest ∧ readStep r.state c rest r.cursor = .ok (r'.state, n) ∧
    r'.cursor = r.cursor + 1 + n

/-- The reader comes to a place on its way through a text. -/
def Reached (cs : List Char) (r : Reading) : Prop :=
  Relation.ReflTransGen (Advances cs) .start r

variable {cs : List Char} {r r' : Reading}

theorem Advances.exists_takes (h : Advances cs r r') :
    ∃ text next, cs.drop r.cursor = text ++ next ∧ text ≠ [] ∧ r'.cursor = r.cursor + text.length ∧
      Takes r.state r.cursor text next r'.state := by
  obtain ⟨c, rest, n, hdrop, hstep, hcursor⟩ := h
  obtain ⟨text, next, hsplit, hlength, htakes⟩ := takes_of_readStep hstep
  refine ⟨text, next, hdrop.trans hsplit, ?_, by omega, htakes⟩
  rintro rfl
  cases hlength

/-- An item has at least one character. -/
theorem Advances.cursor_lt (h : Advances cs r r') : r.cursor < r'.cursor := by
  obtain ⟨c, rest, n, -, -, hcursor⟩ := h
  omega

/-- All characters of an item are in the text. -/
theorem Advances.cursor_le (h : Advances cs r r') : r'.cursor ≤ cs.length := by
  obtain ⟨text, next, hdrop, hne, hcursor, -⟩ := h.exists_takes
  have hlength := congrArg List.length hdrop
  rw [List.length_drop, List.length_append] at hlength
  have hpos := List.length_pos_iff.2 hne
  omega

/-! ### Runs -/

theorem cursor_le_of_reached (h : Reached cs r) : r.cursor ≤ cs.length := by
  induction h with
  | refl => exact Nat.zero_le _
  | tail _ hstep _ => exact hstep.cursor_le

theorem cursor_lt_of_transGen (h : Relation.TransGen (Advances cs) r r') : r.cursor < r'.cursor := by
  induction h with
  | single hstep => exact hstep.cursor_lt
  | tail _ hstep ih => exact ih.trans hstep.cursor_lt

/-- The reader takes a number of items. -/
inductive Runs (cs : List Char) : Nat → Reading → Reading → Prop
  | nil {r : Reading} : Runs cs 0 r r
  | cons {n : Nat} {r middle r' : Reading} : Advances cs r middle → Runs cs n middle r' → Runs cs (n + 1) r r'

/-- A run takes no more items than it passes characters. -/
theorem Runs.add_le {n : Nat} (h : Runs cs n r r') : r.cursor + n ≤ r'.cursor := by
  induction h with
  | nil => exact Nat.le_refl _
  | cons hstep _ ih =>
      have hlt := hstep.cursor_lt
      omega

theorem Runs.reached {n : Nat} (h : Runs cs n r r') (hr : Reached cs r) : Reached cs r' := by
  induction h with
  | nil => exact hr
  | cons hstep _ ih => exact ih (hr.tail hstep)

/-- The reader cannot go on: it is at the end of the text, or there is a fault where an item should be. -/
inductive Halts (cs : List Char) (r : Reading) : Except Located ReaderState → Prop
  | complete : r.cursor = cs.length → endFault? r.state = none → Halts cs r (.ok r.state)
  | unfinished {fault : Fault} : r.cursor = cs.length → endFault? r.state = some fault →
      Halts cs r (.error ⟨fault, r.cursor⟩)
  | stuck {c : Char} {rest : List Char} {l : Located} : cs.drop r.cursor = c :: rest →
      readStep r.state c rest r.cursor = .error l → Halts cs r (.error l)

theorem readFrom_of_advances (h : Advances cs r r') :
    readFrom r.state 0 r.cursor (cs.drop r.cursor) = readFrom r'.state 0 r'.cursor (cs.drop r'.cursor) := by
  obtain ⟨text, next, hdrop, -, hcursor, htakes⟩ := h.exists_takes
  have hnext : cs.drop r'.cursor = next := by
    rw [hcursor, ← List.drop_drop, hdrop, List.drop_left]
  rw [hdrop, hnext, hcursor]
  exact readFrom_of_takes htakes

/-- From every place in the text the reader goes on until it halts, with the answer that reading gives. -/
theorem exists_run (hr : r.cursor ≤ cs.length) :
    ∃ n last, Runs cs n r last ∧ Halts cs last (readFrom r.state 0 r.cursor (cs.drop r.cursor)) := by
  -- items differ in length, so the induction is on how much text is left
  induction hleft : cs.length - r.cursor using Nat.strong_induction_on generalizing r with
  | _ left ih =>
      cases hdrop : cs.drop r.cursor with
      | nil =>
          have hend : r.cursor = cs.length := Nat.le_antisymm hr (List.drop_eq_nil_iff.1 hdrop)
          refine ⟨0, r, .nil, ?_⟩
          rw [readFrom]
          cases hfault : endFault? r.state with
          | none => exact .complete hend hfault
          | some fault => exact .unfinished hend hfault
      | cons c rest =>
          cases hstep : readStep r.state c rest r.cursor with
          | error l =>
              refine ⟨0, r, .nil, ?_⟩
              rw [readFrom, hstep]
              exact .stuck hdrop hstep
          | ok result =>
              have hadvances : Advances cs r ⟨result.1, r.cursor + 1 + result.2⟩ :=
                ⟨c, rest, result.2, hdrop, hstep, rfl⟩
              have hlt := hadvances.cursor_lt
              have hle := hadvances.cursor_le
              obtain ⟨n, last, hrun, hhalts⟩ := ih _ (by omega) hle rfl
              rw [← readFrom_of_advances hadvances, hdrop] at hhalts
              exact ⟨n + 1, last, .cons hadvances hrun, hhalts⟩

/-- No run goes on for ever. -/
theorem not_exists_endless (cs : List Char) : ¬∃ f : Nat → Reading, ∀ i, Advances cs (f i) (f (i + 1)) := by
  rintro ⟨f, hf⟩
  have hge : ∀ i, i ≤ (f i).cursor := by
    intro i
    induction i with
    | zero => exact Nat.zero_le _
    | succ i ih =>
        have hstep := (hf i).cursor_lt
        omega
  have hlast := hge (cs.length + 1)
  have hle := (hf cs.length).cursor_le
  omega

/-! ### Parts of the template -/

/-- The reader takes an attribute. -/
def CompletesAttribute (cs : List Char) (r r' : Reading) : Prop :=
  Advances cs r r' ∧ ∃ t a, r.state.tag = some t ∧
    r'.state.tag = some { t with attributes := t.attributes ++ [a] }

/-- The reader takes the closing tag of the innermost element. -/
def CompletesClosingTag (cs : List Char) (r r' : Reading) : Prop :=
  Advances cs r r' ∧ r.state.tag = none ∧ ∃ e, r.state.opened = e :: r'.state.opened

/-- The reader is in something that was opened behind some open elements. -/
def Inside (outer : List OpenElement) (s : ReaderState) : Prop :=
  ∃ inner, s.opened = inner ++ outer ∧ (s.tag ≠ none ∨ inner ≠ [])

/-- The reader is in content directly behind some open elements. -/
def Back (outer : List OpenElement) (s : ReaderState) : Prop :=
  s.tag = none ∧ s.opened = outer

/-- The reader goes on, and until it arrives it is in what was opened behind some open elements. -/
inductive GoesThrough (cs : List Char) (outer : List OpenElement) : Reading → Reading → Prop
  | last {r r' : Reading} : Advances cs r r' → GoesThrough cs outer r r'
  | more {r middle r' : Reading} : Advances cs r middle → Inside outer middle.state →
      GoesThrough cs outer middle r' → GoesThrough cs outer r r'

/-- The reader takes a fragment, from its first character to its last: a text, be it blank or not, an
expression, the script block, or an element with all that is in it. -/
def CompletesFragment (cs : List Char) (r r' : Reading) : Prop :=
  r.state.tag = none ∧ GoesThrough cs r.state.opened r r' ∧ Back r.state.opened r'.state

theorem GoesThrough.transGen {outer : List OpenElement} (h : GoesThrough cs outer r r') :
    Relation.TransGen (Advances cs) r r' := by
  induction h with
  | last hstep => exact .single hstep
  | more hstep _ _ ih => exact .head hstep ih

/-- Inside something, an item leads no further out than to where it was opened. -/
theorem inside_or_back {outer : List OpenElement} {s s' : ReaderState} {offset : Nat} {text next : List Char}
    (h : Takes s offset text next s') (hs : Inside outer s) : Inside outer s' ∨ Back outer s' := by
  obtain ⟨inner, hopened, hinside⟩ := hs
  cases h with
  | blank htag hc => exact .inl ⟨inner, hopened, hinside⟩
  | close htag =>
      cases inner with
      | nil => exact .inr ⟨rfl, hopened⟩
      | cons e inner => exact .inl ⟨e :: inner, hopened, .inr (by simp)⟩
  | @enter t _ _ htag =>
      exact .inl ⟨⟨t.name, t.attributes, t.start, s.current⟩ :: inner, congrArg (_ :: ·) hopened, .inr (by simp)⟩
  | attr htag ha => exact .inl ⟨inner, hopened, .inl (by simp)⟩
  | @leave e rest _ _ _ _ htag hleft hname heq hclosing =>
      obtain ⟨e', inner, rfl⟩ := List.exists_cons_of_ne_nil (hinside.resolve_left (by simp [htag]))
      obtain ⟨-, rfl⟩ : e = e' ∧ rest = inner ++ outer := by simpa [hleft] using hopened
      cases inner with
      | nil => exact .inr ⟨htag, rfl⟩
      | cons f inner => exact .inl ⟨f :: inner, rfl, .inr (by simp)⟩
  | script htag hscript hopening hbody hprogram =>
      exact .inl ⟨inner, hopened, .inr (hinside.resolve_left (by simp [htag]))⟩
  | tag htag hscript hname => exact .inl ⟨inner, hopened, .inl (by simp)⟩
  | expression htag he => exact .inl ⟨inner, hopened, .inr (hinside.resolve_left (by simp [htag]))⟩
  | text htag hne hrun => exact .inl ⟨inner, hopened, .inr (hinside.resolve_left (by simp [htag]))⟩

/-- An item of content that is no closing tag is a fragment or opens one. -/
theorem inside_or_back_of_content {s s' : ReaderState} {offset : Nat} {text next : List Char}
    (h : Takes s offset text next s') (hcontent : s.tag = none) (hopening : ¬['<', '/'] <+: text) :
    Inside s.opened s' ∨ Back s.opened s' := by
  cases h with
  | blank htag _ | close htag | enter htag | attr htag _ => simp [hcontent] at htag
  | leave htag _ _ _ hclosing =>
      obtain ⟨-⟩ := hclosing
      exact absurd (List.prefix_append ['<', '/'] _) hopening
  | script htag hscript hopening hbody hprogram => exact .inr ⟨htag, rfl⟩
  | tag htag hscript hname => exact .inl ⟨[], rfl, .inl (by simp)⟩
  | expression htag he => exact .inr ⟨htag, rfl⟩
  | text htag hne hrun => exact .inr ⟨htag, rfl⟩

/-- A text that ends inside something is unfinished. -/
theorem exists_endFault?_of_inside {outer : List OpenElement} {s : ReaderState} (h : Inside outer s) :
    ∃ fault, endFault? s = some fault := by
  obtain ⟨inner, hopened, hinside⟩ := h
  unfold endFault?
  cases htag : s.tag with
  | some t => exact ⟨_, rfl⟩
  | none =>
      obtain ⟨e, inner, rfl⟩ := List.exists_cons_of_ne_nil (hinside.resolve_left (by simp [htag]))
      rw [hopened]
      exact ⟨_, rfl⟩

/-- Inside something the reader comes back to where it was opened, unless it answers with a fault. -/
theorem exists_goesThrough {outer : List OpenElement} (hr : r.cursor ≤ cs.length) (hinside : Inside outer r.state) :
    (∃ r', GoesThrough cs outer r r' ∧ Back outer r'.state) ∨
      ∃ l, readFrom r.state 0 r.cursor (cs.drop r.cursor) = .error l := by
  induction hleft : cs.length - r.cursor using Nat.strong_induction_on generalizing r with
  | _ left ih =>
      cases hdrop : cs.drop r.cursor with
      | nil =>
          obtain ⟨fault, hfault⟩ := exists_endFault?_of_inside hinside
          exact .inr ⟨⟨fault, r.cursor⟩, by rw [readFrom, hfault]⟩
      | cons c rest =>
          cases hstep : readStep r.state c rest r.cursor with
          | error l => exact .inr ⟨l, by rw [readFrom, hstep]⟩
          | ok result =>
              have hadvances : Advances cs r ⟨result.1, r.cursor + 1 + result.2⟩ :=
                ⟨c, rest, result.2, hdrop, hstep, rfl⟩
              obtain ⟨text, next, -, -, -, htakes⟩ := hadvances.exists_takes
              rcases inside_or_back htakes hinside with hstill | hback
              · have hlt := hadvances.cursor_lt
                have hle := hadvances.cursor_le
                rw [← hdrop, readFrom_of_advances hadvances]
                rcases ih _ (by omega) hle hstill rfl with ⟨r', hgoes, hback⟩ | hfault
                · exact .inl ⟨r', .more hadvances hstill hgoes, hback⟩
                · exact .inr hfault
              · exact .inl ⟨_, .last hadvances, hback⟩

/-- A fragment that begins is read to its end, unless the reader answers with a fault. -/
theorem exists_completesFragment (hmore : r.cursor < cs.length) (hcontent : r.state.tag = none)
    (hopening : ¬['<', '/'] <+: cs.drop r.cursor) :
    (∃ r', CompletesFragment cs r r') ∨ ∃ l, readFrom r.state 0 r.cursor (cs.drop r.cursor) = .error l := by
  cases hdrop : cs.drop r.cursor with
  | nil => exact absurd (List.drop_eq_nil_iff.1 hdrop) (by omega)
  | cons c rest =>
      cases hstep : readStep r.state c rest r.cursor with
      | error l => exact .inr ⟨l, by rw [readFrom, hstep]⟩
      | ok result =>
          have hadvances : Advances cs r ⟨result.1, r.cursor + 1 + result.2⟩ :=
            ⟨c, rest, result.2, hdrop, hstep, rfl⟩
          obtain ⟨text, next, hsplit, -, -, htakes⟩ := hadvances.exists_takes
          have htext : ¬['<', '/'] <+: text := by
            rintro ⟨behind, rfl⟩
            exact hopening ⟨behind ++ next, by rw [hsplit, List.append_assoc]⟩
          rcases inside_or_back_of_content htakes hcontent htext with hinside | hback
          · rw [← hdrop, readFrom_of_advances hadvances]
            rcases exists_goesThrough hadvances.cursor_le hinside with ⟨r', hgoes, hback⟩ | hfault
            · exact .inl ⟨r', hcontent, .more hadvances hinside hgoes, hback⟩
            · exact .inr hfault
          · exact .inl ⟨_, hcontent, .last hadvances, hback⟩

/-! ### Places of faults -/

/-- A fault lies in a text that starts at an offset and has a length. -/
def Located.In (l : Located) (offset length : Nat) : Prop :=
  offset ≤ l.offset ∧ l.offset ≤ offset + length

theorem Located.In.widen {l : Located} {offset offset' length length' : Nat} (h : l.In offset length)
    (hstart : offset' ≤ offset) (hend : offset + length ≤ offset' + length') : l.In offset' length' :=
  ⟨hstart.trans h.1, h.2.trans hend⟩

theorem in_of_scanFrom_error {stack : List Char} {skip offset : Nat} {l : Located}
    (h : scanFrom stack skip offset cs = .error l) : l.In offset cs.length := by
  fun_induction scanFrom stack skip offset cs with
  | case1 stack skip offset =>
      cases h
      exact ⟨Nat.le_refl _, Nat.le_add_right _ _⟩
  | case2 stack offset skip c cs ih => exact (ih h).widen (by omega) (by simp; omega)
  | case3 stack offset c cs stack' skip hstep ih => exact (ih h).widen (by omega) (by simp; omega)
  | case4 stack offset c cs hstep => cases h
  | case5 stack offset c cs fault hstep =>
      cases h
      exact ⟨Nat.le_refl _, Nat.le_add_right _ _⟩

theorem in_of_parseEmbedded_error {rest : List Char} {offset : Nat} {l : Located}
    (h : parseEmbedded rest offset = .error l) : l.In offset rest.length := by
  have hhere : ∀ fault, Located.In ⟨fault, offset⟩ offset rest.length :=
    fun fault => ⟨Nat.le_refl _, Nat.le_add_right _ _⟩
  unfold parseEmbedded at h
  split at h
  · cases h
    exact hhere _
  · split at h
    · cases h
    · cases h
      unfold embeddedFault
      split
      · next hscan => exact in_of_scanFrom_error hscan
      · dsimp only
        split
        · exact hhere _
        · exact hhere _

theorem in_of_attributeValue_error {name : String} {offset : Nat} {l : Located}
    (h : attributeValue name cs offset = .error l) : l.In offset cs.length := by
  cases cs with
  | nil =>
      cases h
      exact ⟨Nat.le_refl _, Nat.le_refl _⟩
  | cons c rest =>
      by_cases hbrace : c = '{'
      · subst hbrace
        rw [attributeValue_brace] at h
        cases hparse : parseEmbedded rest (offset + 1) with
        | error l' =>
            rw [hparse] at h
            cases h
            exact (in_of_parseEmbedded_error hparse).widen (by omega) (by simp; omega)
        | ok result => rw [hparse] at h; cases h
      · by_cases hmark : c = '"' ∨ c = '\''
        · rw [attributeValue_mark _ hmark] at h
          split at h
          · cases h
          · cases h
            exact ⟨Nat.le_add_right _ _, Nat.le_refl _⟩
        · simp only [attributeValue, hmark, if_false, Except.error.injEq] at h
          subst h
          exact ⟨Nat.le_refl _, Nat.le_add_right _ _⟩

theorem in_of_attributeStep_error {s : ReaderState} {t : OpenTag} {offset : Nat} {l : Located}
    (h : attributeStep s t cs offset = .error l) : l.In offset cs.length := by
  obtain ⟨name, after, rfl, hname⟩ := exists_maximalRun isAttributePart cs
  simp only [attributeStep, hname.takeWhile_eq, List.drop_left] at h
  split at h
  · cases h
    exact ⟨Nat.le_refl _, Nat.le_add_right _ _⟩
  · split at h
    · cases h
      exact ⟨Nat.le_add_right _ _, by simp⟩
    · next rest hrest =>
        obtain rfl : after = '=' :: rest := stripLiteral?_eq_some_iff.1 hrest
        cases hvalue : attributeValue (String.ofList name) rest (offset + name.length + 1) with
        | error l' =>
            rw [hvalue] at h
            cases h
            exact (in_of_attributeValue_error hvalue).widen (by omega) (by simp; omega)
        | ok result => rw [hvalue] at h; cases h

theorem in_of_contentStep_error {s : ReaderState} {c : Char} {rest : List Char} {offset : Nat} {l : Located}
    (h : contentStep s c rest offset = .error l) : l.In offset (c :: rest).length := by
  have hhere : ∀ fault, Located.In ⟨fault, offset⟩ offset (c :: rest).length :=
    fun fault => ⟨Nat.le_refl _, Nat.le_add_right _ _⟩
  unfold contentStep at h
  split at h
  · unfold closingStep at h
    split at h
    · cases h
      exact hhere _
    · dsimp only at h
      split at h
      · cases h
      · cases h
        exact hhere _
  · split at h
    · next tag hopening =>
        obtain ⟨-, hpre⟩ := scriptOpening?_eq_some_iff.1 hopening
        have hlength := hpre.length_le
        unfold scriptStep at h
        split at h
        · cases h
          exact hhere _
        · dsimp only at h
          split at h
          · cases h
            refine ⟨?_, ?_⟩ <;> simp only [List.length_drop] <;> omega
          · split at h
            · cases h
              exact ⟨Nat.le_add_right _ _, Nat.add_le_add_left hlength _⟩
            · cases h
    · split at h
      · unfold openingStep at h
        dsimp only at h
        split at h
        · cases h
          exact ⟨Nat.le_succ _, by simp⟩
        · cases h
      · split at h
        · cases hparse : parseEmbedded rest (offset + 1) with
          | error l' =>
              rw [expressionStep, hparse] at h
              cases h
              exact (in_of_parseEmbedded_error hparse).widen (by omega) (by simp; omega)
          | ok result => rw [expressionStep, hparse] at h; cases h
        · cases h

/-- A fault in an item is found between the start of the item and the end of the text. -/
theorem in_of_readStep_error {s : ReaderState} {c : Char} {rest : List Char} {offset : Nat} {l : Located}
    (h : readStep s c rest offset = .error l) : l.In offset (c :: rest).length := by
  unfold readStep at h
  split at h
  · unfold tagStep at h
    split at h
    · cases h
    · split at h
      · cases h
      · split at h
        · cases h
        · exact in_of_attributeStep_error h
  · exact in_of_contentStep_error h

theorem in_of_readFrom_error {s : ReaderState} {skip offset : Nat} {l : Located}
    (h : readFrom s skip offset cs = .error l) : l.In offset cs.length := by
  fun_induction readFrom s skip offset cs with
  | case1 s skip offset fault hfault =>
      cases h
      exact ⟨Nat.le_refl _, Nat.le_add_right _ _⟩
  | case2 s skip offset hfault => cases h
  | case3 s offset skip c cs ih => exact (ih h).widen (by omega) (by simp; omega)
  | case4 s offset c cs s' skip hstep ih => exact (ih h).widen (by omega) (by simp; omega)
  | case5 s offset c cs l' hstep =>
      cases h
      exact in_of_readStep_error hstep

/-! ### Expressions -/

/-- An expression that is read is not empty, and the brace that ends it is in the text. -/
theorem stop_of_parseEmbedded {p stop : Nat} {e : Embedded} (h : parseEmbedded (cs.drop p) p = .ok (e, stop)) :
    p < stop ∧ stop < cs.length ∧ cs[stop]? = some '}' := by
  obtain ⟨inner, next, hdrop, rfl, -⟩ := parseEmbedded_eq_ok h
  have hget : cs[p + inner.length]? = some '}' := by
    rw [← List.getElem?_drop, hdrop]
    simp
  have hne : inner ≠ [] := by
    rintro rfl
    have hblank : blankBeforeBrace ('}' :: next) = true := by simp [blankBeforeBrace, Text.allBlank]
    rw [hdrop, List.nil_append, parseEmbedded, if_pos hblank] at h
    cases h
  have hpos := List.length_pos_iff.2 hne
  exact ⟨by omega, (List.getElem?_eq_some_iff.1 hget).1, hget⟩

/-! ### Templates -/

/-- **The reader goes forward and comes to an end.**  On every template: the cursor is never outside of the
template.  Each fragment, attribute and closing tag that is completed has moved it forward.  An expression at
an offset ends at a closing brace behind the offset.  A fragment that begins is read to its end, or the
answer is a fault.  No run goes on for ever; the run from the start takes no more items than the template has
characters and halts, with a document or with a fault inside the template. -/
theorem reader_makes_progress (template filename : String) :
    (∀ r, Reached template.toList r → r.cursor ≤ template.length) ∧
    (∀ r r', CompletesFragment template.toList r r' ∨ CompletesAttribute template.toList r r' ∨
      CompletesClosingTag template.toList r r' → r.cursor < r'.cursor ∧ r'.cursor ≤ template.length) ∧
    (∀ p e stop, parseEmbedded (template.toList.drop p) p = .ok (e, stop) →
      p + 1 ≤ stop ∧ stop ≤ template.length - 1 ∧ template.toList[stop]? = some '}') ∧
    (∀ r : Reading, r.cursor < template.length → r.state.tag = none →
      ¬['<', '/'] <+: template.toList.drop r.cursor →
      (∃ r', CompletesFragment template.toList r r') ∨
        ∃ l, readFrom r.state 0 r.cursor (template.toList.drop r.cursor) = .error l) ∧
    (¬∃ f : Nat → Reading, ∀ i, Advances template.toList (f i) (f (i + 1))) ∧
    ∃ n last result, n ≤ template.length ∧ Runs template.toList n .start last ∧
      Halts template.toList last result ∧
      Document.parse template filename = result.map (fun s => ⟨s.current, s.script, filename, template⟩) ∧
      ∀ l, result = .error l → l.offset ≤ template.length := by
  rw [← String.length_toList]
  generalize hcs : template.toList = cs
  refine ⟨fun r => cursor_le_of_reached, ?_, ?_, fun r => exists_completesFragment, not_exists_endless cs, ?_⟩
  · intro r r' hcompletes
    have hgoes : Relation.TransGen (Advances cs) r r' := by
      rcases hcompletes with ⟨-, hgoes, -⟩ | ⟨hstep, -⟩ | ⟨hstep, -⟩
      · exact hgoes.transGen
      · exact .single hstep
      · exact .single hstep
    obtain ⟨middle, -, hlast⟩ := Relation.TransGen.tail'_iff.1 hgoes
    exact ⟨cursor_lt_of_transGen hgoes, hlast.cursor_le⟩
  · intro p e stop h
    obtain ⟨hlt, hle, hget⟩ := stop_of_parseEmbedded h
    exact ⟨hlt, by omega, hget⟩
  · have hstart : Reading.start.cursor ≤ cs.length := Nat.zero_le _
    obtain ⟨n, last, hrun, hhalts⟩ := exists_run hstart
    refine ⟨n, last, readFrom .initial 0 0 cs, ?_, hrun, hhalts, by rw [← hcs]; rfl, fun l hl => ?_⟩
    · have hbound := hrun.add_le
      have hlast := cursor_le_of_reached (hrun.reached .refl)
      omega
    · have hin := (in_of_readFrom_error hl).2
      rwa [Nat.zero_add] at hin

/-- An element with an attribute, blanks and an expression is read to its end. -/
theorem reader_makes_progress_element :
    ∃ r', CompletesFragment "<p a=\"b\"> \x7bx\x7d </p>".toList .start r' ∧ 0 < r'.cursor := by
  obtain ⟨-, hcompleted, -, hbegun, -⟩ := reader_makes_progress "<p a=\"b\"> \x7bx\x7d </p>" "element"
  have hread : (Document.parse "<p a=\"b\"> \x7bx\x7d </p>" "element").toOption.isSome = true := by decide +kernel
  rcases hbegun .start (by decide) rfl (by decide) with ⟨r', hr'⟩ | ⟨l, hl⟩
  · exact ⟨r', hr', (hcompleted _ _ (.inl hr')).1⟩
  · have hfailed : Document.parse "<p a=\"b\"> \x7bx\x7d </p>" "element" = .error l := congrArg (Except.map _) hl
    rw [hfailed] at hread
    cases hread

end ReactiveTemplate

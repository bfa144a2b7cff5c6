/-
**The reader of templates accepts exactly the grammar.**

The reader takes one item after the other and keeps the open elements on a stack, while the grammar
nests sequences of items in elements.  Between the two stands `ReactiveTemplate.Takes`: what one step of
the reader takes, said in the words of the grammar.

A derivation is followed by the reader item by item, so the reader accepts what the grammar derives
(`ReactiveTemplate.readFrom_content`).  For the other direction, `ReactiveTemplate.Closes` says what a
stack of open elements still asks of the text: to complete the innermost element, to close it, and to go
on with the elements around it.  Each step of an accepting run adds its item to what the rest of the run
was shown to be.

Main results:

* `ReactiveTemplate.readStep_of_takes`, `ReactiveTemplate.takes_of_readStep` — single steps;
* `ReactiveTemplate.readFrom_content` — the reader follows a derivation;
* `ReactiveTemplate.completes_of_readFrom` — every accepting run has a derivation behind it;
* `ReactiveTemplate.parse_eq_ok_iff_derives` — **reading accepts exactly the grammar**.
-/

import ReactiveTemplate.Proofs.Markup.Grammar

set_option relaxedAutoImplicit false
set_option autoImplicit false

namespace ReactiveTemplate

open Script

/-! ### Single steps -/

/-- What one step of the reader takes: `Takes s offset text next s'` says that in state `s` the reader
takes `text`, which starts at `offset` and is followed by `next`, and is in state `s'` behind it. -/
inductive Takes : ReaderState → Nat → List Char → List Char → ReaderState → Prop
  | blank {s : ReaderState} {t : OpenTag} {offset : Nat} {c : Char} {next : List Char} :
      s.tag = some t → Text.isBlank c = true → Takes s offset [c] next s
  | close {s : ReaderState} {t : OpenTag} {offset : Nat} {next : List Char} :
      s.tag = some t → Takes s offset ['/', '>'] next (s.addEmpty t)
  | enter {s : ReaderState} {t : OpenTag} {offset : Nat} {next : List Char} :
      s.tag = some t → Takes s offset ['>'] next (s.enter t)
  | attr {s : ReaderState} {t : OpenTag} {offset : Nat} {text next : List Char} {a : Attribute} :
      s.tag = some t → AttributeText offset text next a →
      Takes s offset text next { s with tag := some { t with attributes := t.attributes ++ [a] } }
  | leave {s : ReaderState} {e : OpenElement} {outer : List OpenElement} {offset : Nat}
      {name text next : List Char} : s.tag = none → s.opened = e :: outer → tagName name = name →
      String.ofList name = e.name → ClosingTag name text → Takes s offset text next (s.leave e outer)
  | script {s : ReaderState} {offset : Nat} {tag body next : List Char} {program : Source} :
      s.tag = none → s.script = none → ScriptTag tag → BeforeFirst scriptEnd body next →
      Source.ofScript? body (offset + tag.length) = some program →
      Takes s offset (tag ++ (body ++ scriptEnd)) next
        { s with script := some (.ofProgram program offset) }
  | tag {s : ReaderState} {offset : Nat} {name next : List Char} :
      s.tag = none → ¬StartsScript ('<' :: (name ++ next)) → TagName name next →
      Takes s offset ('<' :: name) next { s with tag := some ⟨String.ofList name, [], offset⟩ }
  | expression {s : ReaderState} {offset : Nat} {text next : List Char} {e : Embedded} :
      s.tag = none → BracedText offset text next e →
      Takes s offset text next (s.add (.expression e offset))
  | text {s : ReaderState} {offset : Nat} {run next : List Char} :
      s.tag = none → run ≠ [] → MaximalRun isTextPart run next →
      Takes s offset run next { s with current := s.current ++ textFragments run offset }

variable {s s' : ReaderState} {t : OpenTag} {offset n : Nat} {c : Char}
  {cs name text next rest run : List Char}

/-! #### Items of content -/

theorem ScriptTag.exists_cons {tag : List Char} (h : ScriptTag tag) :
    ∃ p, tag = '<' :: 's' :: p := by
  obtain ⟨-⟩ := h
  exact ⟨_, rfl⟩

theorem not_startsScript (hc : c ≠ '<') : ¬StartsScript (c :: rest) := by
  rintro ⟨tag, htag, hpre⟩
  obtain ⟨p, rfl⟩ := htag.exists_cons
  exact hc (List.cons_prefix_cons.1 hpre).1.symm

/-- A name is no slash. -/
theorem TagName.head?_ne_slash (h : TagName name next) :
    ¬('<' = '<' ∧ (name ++ next).head? = some '/') := by
  rintro ⟨-, hhead⟩
  obtain ⟨hc, -⟩ := h
  rw [List.cons_append, List.head?_cons, Option.some.injEq] at hhead
  rw [hhead] at hc
  revert hc
  decide

theorem scriptStep_eq_ok_iff {tag : List Char} :
    scriptStep s tag (tag ++ rest) offset = .ok (s', n) ↔
      ∃ body next program, rest = body ++ (scriptEnd ++ next) ∧
        n + 1 = tag.length + body.length + scriptEnd.length ∧ s.script = none ∧
        BeforeFirst scriptEnd body next ∧
        Source.ofScript? body (offset + tag.length) = some program ∧
        s' = { s with script := some (.ofProgram program offset) } := by
  have hlength : "</script>".length = 9 ∧ scriptEnd.length = 9 := ⟨rfl, rfl⟩
  have htake : ∀ body, takeUntil? "</script>".toList rest = some body ↔
      ∃ next, rest = body ++ (scriptEnd ++ next) ∧ BeforeFirst scriptEnd body next :=
    fun body => takeUntil?_eq_some_iff (by decide)
  simp only [scriptStep, List.drop_left, hlength]
  constructor
  · intro h
    split at h
    · cases h
    · next hscript =>
        split at h
        · cases h
        · next body hbody =>
            split at h
            · cases h
            · next program hprogram =>
                obtain ⟨next, rfl, hfirst⟩ := (htake body).1 hbody
                cases h
                exact ⟨body, next, program, rfl, by omega, by simpa using hscript, hfirst, hprogram, rfl⟩
  · rintro ⟨body, next, program, hrest, hn, hscript, hfirst, hprogram, rfl⟩
    rw [if_neg (by simp [hscript]), (htake body).2 ⟨next, hrest, hfirst⟩]
    simp only [hprogram, Except.ok.injEq, Prod.mk.injEq, true_and]
    omega

theorem isTagPart_eq_false_of_isBlank (h : Text.isBlank c = true) : isTagPart c = false := by
  have hle : ∀ a : Char, a ≤ c ↔ a.toNat ≤ c.toNat := fun _ => Iff.rfl
  have hge : ∀ b : Char, c ≤ b ↔ c.toNat ≤ b.toNat := fun _ => Iff.rfl
  have hletters : 'a'.toNat = 97 ∧ 'z'.toNat = 122 ∧ '0'.toNat = 48 ∧ '9'.toNat = 57 :=
    ⟨rfl, rfl, rfl, rfl⟩
  simp only [Text.isBlank, isTagPart, isTagStart, Bool.or_eq_true, Bool.and_eq_true,
    decide_eq_true_eq, beq_iff_eq, Bool.or_eq_false_iff, Bool.and_eq_false_iff,
    decide_eq_false_iff_not, hle, hge] at h ⊢
  omega

/-- The longest name that a text starts with, or no name, and the text behind it. -/
theorem exists_eq_tagName_append (cs : List Char) :
    ∃ next, cs = tagName cs ++ next ∧ tagName (tagName cs) = tagName cs := by
  by_cases h : tagName cs = []
  · exact ⟨cs, by simp [h], by rw [h, tagName]⟩
  · obtain ⟨name, next, rfl, hname⟩ := exists_tagName h
    rw [hname.tagName_eq]
    obtain ⟨hc, hrun⟩ := hname
    exact ⟨next, rfl, by rw [tagName, if_pos hc, List.takeWhile_eq_self_iff.2 hrun.all]⟩

/-- A name, or no name, in front of a character that cannot go on with it. -/
theorem tagName_append (hname : tagName name = name)
    (hnext : ∀ d, next.head? = some d → isTagPart d = false) : tagName (name ++ next) = name := by
  cases name with
  | nil =>
      cases next with
      | nil => rfl
      | cons d next =>
          have hd := hnext d rfl
          rw [isTagPart, Bool.or_eq_false_iff] at hd
          simp [tagName, hd.1]
  | cons c name =>
      by_cases hc : isTagStart c = true
      · rw [tagName, if_pos hc, List.cons.injEq, List.takeWhile_eq_self_iff] at hname
        exact TagName.tagName_eq (.mk hc ⟨hname.2, hnext⟩)
      · simp [tagName, hc] at hname

theorem closingStep_eq_ok_iff :
    closingStep s ('<' :: '/' :: rest) offset = .ok (s', n) ↔
      ∃ e outer name closing next, '<' :: '/' :: rest = closing ++ next ∧ n + 1 = closing.length ∧
        s.opened = e :: outer ∧ tagName name = name ∧ String.ofList name = e.name ∧
        ClosingTag name closing ∧ s' = s.leave e outer := by
  have hgt : Text.isBlank '>' = false := by decide
  constructor
  · intro h
    cases hopened : s.opened with
    | nil => simp [closingStep, hopened] at h
    | cons e outer =>
        obtain ⟨after, hrest, hname⟩ := exists_eq_tagName_append rest
        have hafter : rest.drop (tagName rest).length = after :=
          (congrArg (List.drop _) hrest).trans List.drop_left
        obtain ⟨ws, next, rfl, hws⟩ := exists_maximalRun Text.isBlank after
        simp only [closingStep, hopened, List.drop_succ_cons, List.drop_zero, Nat.add_comm 2, hafter,
          hws.takeWhile_eq, List.drop_left] at h
        split at h
        · next hends =>
            cases h
            obtain ⟨next', rfl⟩ : ∃ next', next = '>' :: next' := List.head?_eq_some_iff.1 hends.2
            refine ⟨e, outer, tagName rest, _, next', ?_, ?_, rfl, hname, hends.1, .mk hws.all, rfl⟩
            · simpa using hrest
            · simp
              omega
        · cases h
  · rintro ⟨e, outer, name, closing, next, hrest, hn, hopened, hname, heq, ⟨hws⟩, rfl⟩
    next ws =>
      obtain rfl : rest = name ++ (ws ++ '>' :: next) := by simpa using hrest
      have hread : tagName (name ++ (ws ++ '>' :: next)) = name := by
        refine tagName_append hname fun d hd => ?_
        cases ws with
        | nil => rw [← Option.some.inj hd]; decide
        | cons w ws =>
            rw [← Option.some.inj hd]
            exact isTagPart_eq_false_of_isBlank (hws w (by simp))
      have hblanks : (ws ++ '>' :: next).takeWhile Text.isBlank = ws :=
        (hws.maximalRun hgt).takeWhile_eq
      rw [closingStep, hopened]
      simp only [List.drop_succ_cons, List.drop_zero, hread, Nat.add_comm 2, List.drop_left, hblanks,
        heq, List.head?_cons, and_self, if_true, Except.ok.injEq, Prod.mk.injEq, true_and]
      simp at hn
      omega

theorem openingStep_eq_ok_iff :
    openingStep s rest offset = .ok (s', n) ↔
      ∃ name next, rest = name ++ next ∧ n = name.length ∧ TagName name next ∧
        s' = { s with tag := some ⟨String.ofList name, [], offset⟩ } := by
  constructor
  · intro h
    rw [openingStep] at h
    by_cases hne : tagName rest = []
    · simp [hne] at h
    · obtain ⟨name, next, rfl, hname⟩ := exists_tagName hne
      rw [hname.tagName_eq, if_neg hname.ne_nil] at h
      cases h
      exact ⟨name, next, rfl, rfl, hname, rfl⟩
  · rintro ⟨name, next, rfl, rfl, hname, rfl⟩
    rw [openingStep, hname.tagName_eq, if_neg hname.ne_nil]

theorem expressionStep_eq_ok_iff :
    expressionStep s rest offset = .ok (s', n) ↔
      ∃ text next e, '{' :: rest = text ++ next ∧ n + 1 = text.length ∧ BracedText offset text next e ∧
        s' = s.add (.expression e offset) := by
  have hstep : expressionStep s rest offset = (parseEmbedded rest (offset + 1)).map fun r =>
      (s.add (.expression r.1 offset), r.2 - offset) := by
    rw [expressionStep]
    cases parseEmbedded rest (offset + 1) <;> rfl
  rw [hstep]
  constructor
  · intro h
    cases hparse : parseEmbedded rest (offset + 1) with
    | error l => rw [hparse] at h; cases h
    | ok result =>
        rw [hparse] at h
        cases h
        obtain ⟨text, next, hrest, hstop, hbraced⟩ := parseEmbedded_eq_ok_iff.1 hparse
        have hpos := hbraced.length_pos
        exact ⟨text, next, result.1, hrest, by omega, hbraced, rfl⟩
  · rintro ⟨text, next, e, hrest, hn, hbraced, rfl⟩
    have hparse : parseEmbedded rest (offset + 1) = .ok (e, offset + n) :=
      parseEmbedded_eq_ok_iff.2 ⟨text, next, hrest, by omega, hbraced⟩
    rw [hparse]
    simp [Except.map]

theorem textStep_eq_ok_iff (hc : isTextPart c = true) :
    textStep s (c :: rest) offset = .ok (s', n) ↔
      ∃ run next, c :: rest = run ++ next ∧ n + 1 = run.length ∧ MaximalRun isTextPart run next ∧
        s' = { s with current := s.current ++ textFragments run offset } := by
  obtain ⟨run, next, hrest, hrun⟩ := exists_maximalRun isTextPart (c :: rest)
  have hpos : 0 < run.length := by
    cases run with
    | nil => simp [hrun.stops c (by simp at hrest; simp [← hrest])] at hc
    | cons d run => simp
  have hstep : textStep s (c :: rest) offset =
      .ok ({ s with current := s.current ++ textFragments run offset }, run.length - 1) := by
    rw [textStep, hrest, hrun.takeWhile_eq]
    by_cases hblank : Text.allBlank run = true <;> simp [textFragments, hblank, ReaderState.add]
  rw [hstep, Except.ok.injEq, Prod.mk.injEq]
  constructor
  · rintro ⟨rfl, rfl⟩
    exact ⟨run, next, hrest, by omega, hrun, rfl⟩
  · rintro ⟨run', next', hrest', hn, hrun', rfl⟩
    -- both runs are the longest one
    obtain rfl : run = run' := by
      rw [← hrun.takeWhile_eq, ← hrun'.takeWhile_eq, ← hrest, ← hrest']
    exact ⟨rfl, by omega⟩

/-! #### Items of opening tags -/

theorem attributeStep_eq_ok_iff :
    attributeStep s t cs offset = .ok (s', n) ↔
      ∃ text next a, cs = text ++ next ∧ n + 1 = text.length ∧ AttributeText offset text next a ∧
        s' = { s with tag := some { t with attributes := t.attributes ++ [a] } } := by
  constructor
  · intro h
    obtain ⟨name, after, rfl, hname⟩ := exists_maximalRun isAttributePart cs
    simp only [attributeStep, hname.takeWhile_eq, List.drop_left] at h
    split at h
    · cases h
    · next hne =>
        split at h
        · cases h
        · next rest hrest =>
            obtain rfl : after = '=' :: rest := stripLiteral?_eq_some_iff.1 hrest
            cases hvalue : attributeValue (String.ofList name) rest (offset + name.length + 1) with
            | error l => rw [hvalue] at h; cases h
            | ok result =>
                rw [hvalue] at h
                cases h
                obtain ⟨text, next, rfl, hn, htext⟩ := attributeValue_eq_ok_iff.1 hvalue
                refine ⟨name ++ '=' :: text, next, _, by simp, ?_, .mk hne hname htext, rfl⟩
                simp [hn, Nat.add_assoc]
  · rintro ⟨text, next, a, rfl, hn, ⟨hne, hname, hvalue⟩, rfl⟩
    next name text value =>
      have hread : attributeValue (String.ofList name) (text ++ next) (offset + name.length + 1) =
          .ok (value, text.length) := attributeValue_eq_ok_iff.2 ⟨text, next, rfl, rfl, hvalue⟩
      have heq : stripLiteral? ['='] ('=' :: (text ++ next)) = some (text ++ next) :=
        stripLiteral?_eq_some_iff.2 rfl
      simp only [attributeStep, List.append_assoc, List.cons_append, hname.takeWhile_eq,
        List.drop_left, if_neg hne, heq, hread]
      simp [bind, Except.bind, pure, Except.pure]
      simp at hn
      omega

/-- What attribute names are made of is neither a blank nor at the end of a tag. -/
theorem AttributeText.exists_cons {a : Attribute} (h : AttributeText offset text next a) :
    ∃ c p, text = c :: p ∧ Text.isBlank c = false ∧ c ≠ '/' ∧ c ≠ '>' := by
  obtain ⟨hne, hname, -⟩ := h
  next name _ _ =>
    obtain ⟨c, name, rfl⟩ := List.exists_cons_of_ne_nil hne
    have hc := hname.all c (by simp)
    simp only [isAttributePart, Bool.and_eq_true, Bool.not_eq_true', bne_iff_ne, ne_eq] at hc
    exact ⟨c, _, rfl, hc.1.1.1.1.1.1.1.1, hc.1.1.1.1.1.1.2, hc.1.1.1.1.1.2⟩

/-! #### All items -/

theorem readStep_content (h : s.tag = none) : readStep s c rest offset = contentStep s c rest offset := by
  rw [readStep, h]

theorem readStep_of_takes (h : Takes s offset text next s') :
    ∃ c p, text = c :: p ∧ readStep s c (p ++ next) offset = .ok (s', p.length) := by
  cases h with
  | blank htag hc => exact ⟨_, [], rfl, by simp [readStep, htag, tagStep, hc]⟩
  | close htag =>
      have hslash : Text.isBlank '/' = false := by decide
      exact ⟨'/', ['>'], rfl, by simp [readStep, htag, tagStep, hslash]⟩
  | enter htag =>
      have hgt : Text.isBlank '>' = false := by decide
      exact ⟨'>', [], rfl, by simp [readStep, htag, tagStep, hgt]⟩
  | attr htag ha =>
      obtain ⟨c, p, rfl, hblank, hslash, hgt⟩ := ha.exists_cons
      refine ⟨c, p, rfl, ?_⟩
      simp only [readStep, htag, tagStep, hblank, Bool.false_eq_true, if_false, hslash, false_and, hgt]
      exact attributeStep_eq_ok_iff.2 ⟨_, next, _, by simp, by simp, ha, rfl⟩
  | leave htag hopened hname heq hclosing =>
      obtain ⟨hws⟩ := hclosing
      refine ⟨'<', _, rfl, ?_⟩
      rw [readStep_content htag]
      rw [contentStep, if_pos (by simp)]
      exact closingStep_eq_ok_iff.2
        ⟨_, _, _, _, next, by simp, by simp, hopened, hname, heq, .mk hws, rfl⟩
  | @script _ tag body _ program htag hscript hopening hbody hprogram =>
      have hread : scriptOpening? (tag ++ (body ++ (scriptEnd ++ next))) = some tag :=
        scriptOpening?_eq_some_iff.2 ⟨hopening, List.prefix_append _ _⟩
      have hstep : scriptStep s tag (tag ++ (body ++ (scriptEnd ++ next))) offset = .ok
          ({ s with script := some (.ofProgram program offset) },
            tag.length + body.length + scriptEnd.length - 1) :=
        scriptStep_eq_ok_iff.2 ⟨body, next, program, rfl,
          Nat.sub_add_cancel (Nat.le_add_left 1 _), hscript, hbody, hprogram, rfl⟩
      obtain ⟨p, rfl⟩ := hopening.exists_cons
      refine ⟨'<', 's' :: p ++ (body ++ scriptEnd), rfl, ?_⟩
      simp only [List.append_assoc, List.cons_append] at hread hstep ⊢
      rw [readStep_content htag]
      simp only [contentStep, hread, hstep, List.head?_cons, Option.some.injEq, Char.reduceEq, and_false,
        if_false, List.length_cons, List.length_append, Except.ok.injEq, Prod.mk.injEq, true_and]
      omega
  | tag htag hscript hname =>
      refine ⟨'<', _, rfl, ?_⟩
      rw [readStep_content htag, contentStep, if_neg hname.head?_ne_slash,
        scriptOpening?_eq_none_iff.2 hscript]
      exact openingStep_eq_ok_iff.2 ⟨_, next, rfl, rfl, hname, rfl⟩
  | expression htag he =>
      obtain ⟨hparse⟩ := he
      refine ⟨'{', _, rfl, ?_⟩
      rw [readStep_content htag]
      simp only [contentStep, scriptOpening?_eq_none_iff.2 (not_startsScript (by decide : '{' ≠ '<')),
        Char.reduceEq, false_and, if_false, if_true]
      exact expressionStep_eq_ok_iff.2 ⟨_, next, _, by simp, by simp, .mk hparse, rfl⟩
  | text htag hne hrun =>
      obtain ⟨c, run, rfl⟩ := List.exists_cons_of_ne_nil hne
      have hc := hrun.all c (by simp)
      have hne' : c ≠ '<' ∧ c ≠ '{' := by simpa [isTextPart] using hc
      refine ⟨c, run, rfl, ?_⟩
      rw [readStep_content htag]
      simp only [contentStep, scriptOpening?_eq_none_iff.2 (not_startsScript hne'.1), hne'.1, hne'.2,
        false_and, if_false]
      exact (textStep_eq_ok_iff hc).2 ⟨_, next, rfl, by simp, hrun, rfl⟩

theorem takes_of_readStep (h : readStep s c rest offset = .ok (s', n)) :
    ∃ text next, c :: rest = text ++ next ∧ text.length = n + 1 ∧ Takes s offset text next s' := by
  unfold readStep at h
  split at h
  · next t htag =>
      unfold tagStep at h
      split at h
      · next hblank =>
          cases h
          exact ⟨[c], rest, rfl, rfl, .blank htag hblank⟩
      · split at h
        · next hclose =>
            cases h
            obtain ⟨rest', rfl⟩ := List.head?_eq_some_iff.1 hclose.2
            exact ⟨['/', '>'], rest', by rw [hclose.1]; rfl, rfl, .close htag⟩
        · split at h
          · next hgt =>
              cases h
              exact ⟨['>'], rest, by rw [hgt]; rfl, rfl, .enter htag⟩
          · obtain ⟨text, next, a, heq, hn, ha, rfl⟩ := attributeStep_eq_ok_iff.1 h
            exact ⟨text, next, heq, hn.symm, .attr htag ha⟩
  · next htag =>
      unfold contentStep at h
      split at h
      · next hclose =>
          obtain ⟨rest', rfl⟩ := List.head?_eq_some_iff.1 hclose.2
          rw [hclose.1] at h ⊢
          obtain ⟨e, outer, name, closing, next, heq, hn, hopened, hname, hename, hclosing, rfl⟩ :=
            closingStep_eq_ok_iff.1 h
          exact ⟨closing, next, heq, hn.symm, .leave htag hopened hname hename hclosing⟩
      · split at h
        · next tag hopening =>
            obtain ⟨hscriptTag, rest', hrest⟩ := scriptOpening?_eq_some_iff.1 hopening
            rw [← hrest] at h ⊢
            obtain ⟨body, next, program, rfl, hn, hscript, hbody, hprogram, rfl⟩ :=
              scriptStep_eq_ok_iff.1 h
            refine ⟨tag ++ (body ++ scriptEnd), next, by simp, ?_,
              .script htag hscript hscriptTag hbody hprogram⟩
            rw [hn, List.length_append, List.length_append, Nat.add_assoc]
        · next hopening =>
            have hscript := scriptOpening?_eq_none_iff.1 hopening
            split at h
            · next hlt =>
                subst hlt
                obtain ⟨name, next, rfl, rfl, hname, rfl⟩ := openingStep_eq_ok_iff.1 h
                exact ⟨'<' :: name, next, rfl, rfl, .tag htag hscript hname⟩
            · next hlt =>
                split at h
                · next hbrace =>
                    subst hbrace
                    obtain ⟨text, next, e, heq, hn, he, rfl⟩ := expressionStep_eq_ok_iff.1 h
                    exact ⟨text, next, heq, hn.symm, .expression htag he⟩
                · next hbrace =>
                    have hc : isTextPart c = true := by simp [isTextPart, hlt, hbrace]
                    obtain ⟨run, next, heq, hn, hrun, rfl⟩ := (textStep_eq_ok_iff hc).1 h
                    refine ⟨run, next, heq, hn.symm, .text htag ?_ hrun⟩
                    rintro rfl
                    cases hn

/-! ### The reader follows derivations -/

theorem readFrom_skip (s : ReaderState) (p next : List Char) (offset : Nat) :
    readFrom s p.length offset (p ++ next) = readFrom s 0 (offset + p.length) next := by
  induction p generalizing offset with
  | nil => rfl
  | cons c p ih =>
      rw [List.cons_append, List.length_cons, readFrom, ih, Nat.add_right_comm, Nat.add_assoc]

theorem readFrom_of_takes (h : Takes s offset text next s') :
    readFrom s 0 offset (text ++ next) = readFrom s' 0 (offset + text.length) next := by
  obtain ⟨c, p, rfl, hstep⟩ := readStep_of_takes h
  rw [List.cons_append, readFrom, hstep]
  change readFrom s' p.length (offset + 1) (p ++ next) = _
  rw [readFrom_skip, List.length_cons, Nat.add_right_comm, Nat.add_assoc]

/-- The state behind an opening tag. -/
def ReaderState.endTag (s : ReaderState) (t : OpenTag) (ends : Bool) : ReaderState :=
  if ends then s.addEmpty t else s.enter t

theorem readFrom_blanks {ws : List Char} (htag : s.tag = some t) (hws : Blanks ws) :
    readFrom s 0 offset (ws ++ next) = readFrom s 0 (offset + ws.length) next := by
  induction ws generalizing offset with
  | nil => rfl
  | cons c ws ih =>
      have hstep : readFrom s 0 offset ([c] ++ (ws ++ next)) = readFrom s 0 (offset + 1) (ws ++ next) :=
        readFrom_of_takes (.blank htag (hws c (by simp)))
      rw [List.cons_append, ← List.singleton_append, hstep, ih fun d hd => hws d (by simp [hd]),
        List.length_cons, Nat.add_right_comm, Nat.add_assoc]

theorem readFrom_tagText {attributes : List Attribute} {ends : Bool}
    (h : TagText offset text next attributes ends) (htag : s.tag = some t) :
    readFrom s 0 offset (text ++ next) =
      readFrom (s.endTag { t with attributes := t.attributes ++ attributes } ends) 0
        (offset + text.length) next := by
  induction h generalizing s t with
  | closed hws =>
      rw [List.append_assoc, readFrom_blanks htag hws, readFrom_of_takes (.close htag)]
      simp [ReaderState.endTag, Nat.add_assoc]
  | opened hws =>
      rw [List.append_assoc, readFrom_blanks htag hws, readFrom_of_takes (.enter htag)]
      simp [ReaderState.endTag, Nat.add_assoc]
  | attr hws ha _ ih =>
      rw [List.append_assoc, List.append_assoc, readFrom_blanks htag hws,
        readFrom_of_takes (.attr htag ha), ih rfl]
      simp [ReaderState.endTag, ReaderState.addEmpty, ReaderState.enter, ReaderState.add, Nat.add_assoc]

theorem TagName.tagName_self (h : TagName name next) : tagName name = name := by
  obtain ⟨hc, hrun⟩ := h
  rw [tagName, if_pos hc, List.takeWhile_eq_self_iff.2 hrun.all]

theorem length_cons_add (c : Char) (text : List Char) :
    offset + (c :: text).length = offset + 1 + text.length := by
  rw [List.length_cons]
  omega

/-- The reader follows a sequence of items. -/
theorem readFrom_content {before after : Option ScriptBlock} {fs : List Fragment}
    (h : Content before offset text next fs after) (opened : List OpenElement)
    (current : List Fragment) :
    readFrom ⟨none, opened, current, before⟩ 0 offset (text ++ next) =
      readFrom ⟨none, opened, current ++ fs, after⟩ 0 (offset + text.length) next := by
  induction h generalizing opened current with
  | nil => rw [List.append_nil]; rfl
  | @script _ offset tag body text next _ _ hopening hbody hprogram _ ih =>
      have hsplit : tag ++ (body ++ (scriptEnd ++ text)) ++ next =
          (tag ++ (body ++ scriptEnd)) ++ (text ++ next) := by
        simp
      rw [hsplit, readFrom_of_takes (.script rfl rfl hopening hbody hprogram)]
      simp only [List.length_append, ← Nat.add_assoc]
      exact ih opened current
  | @emptyElement _ _ offset name tag text next _ _ hno hname htext _ ih =>
      have hsplit : '<' :: (name ++ (tag ++ text)) ++ next = ('<' :: name) ++ (tag ++ (text ++ next)) := by
        simp
      have hlength : offset + ('<' :: (name ++ (tag ++ text))).length =
          offset + 1 + name.length + tag.length + text.length := by
        simp
        omega
      rw [hsplit, hlength, readFrom_of_takes (.tag rfl hno hname), length_cons_add,
        readFrom_tagText htext rfl]
      refine (ih opened (current ++ [.element _ _ [] offset])).trans ?_
      rw [List.append_assoc]
      rfl
  | @element _ _ _ offset name tag inner closing text next _ children _ hno hname htext _ hclosing _
      ihinner ih =>
      have hsplit : '<' :: (name ++ (tag ++ (inner ++ (closing ++ text)))) ++ next =
          ('<' :: name) ++ (tag ++ (inner ++ (closing ++ (text ++ next)))) := by
        simp
      have hlength : offset + ('<' :: (name ++ (tag ++ (inner ++ (closing ++ text))))).length =
          offset + 1 + name.length + tag.length + inner.length + closing.length + text.length := by
        simp
        omega
      rw [hsplit, hlength, readFrom_of_takes (.tag rfl hno hname), length_cons_add,
        readFrom_tagText htext rfl]
      refine (ihinner (⟨_, _, offset, current⟩ :: opened) []).trans ?_
      rw [readFrom_of_takes (.leave rfl rfl hname.tagName_self rfl hclosing)]
      refine (ih opened (current ++ [.element _ _ children offset])).trans ?_
      rw [List.append_assoc]
      rfl
  | @expression _ _ offset _ _ _ e _ he _ ih =>
      rw [List.append_assoc, readFrom_of_takes (.expression rfl he), List.length_append,
        ← Nat.add_assoc, ← List.singleton_append, ← List.append_assoc]
      exact ih opened (current ++ [.expression e offset])
  | text hne hrun _ ih =>
      rw [List.append_assoc, readFrom_of_takes (.text rfl hne hrun), List.length_append,
        ← Nat.add_assoc, ← List.append_assoc]
      exact ih opened (current ++ textFragments _ _)

/-! ### Accepting runs have derivations -/

/-- What a stack of open elements asks of the text from an offset on, so that reading it ends in the
state `final`: the innermost element goes on with items and is closed, and the text behind it does what
the outer elements ask.  With no element open the text is a sequence of items to its end. -/
def Closes (final : ReaderState) :
    List OpenElement → List Fragment → Option ScriptBlock → Nat → List Char → Prop
  | [], current, script, offset, cs =>
      ∃ fs, Content script offset cs [] fs final.script ∧ final.current = current ++ fs
  | e :: outer, current, script, offset, cs =>
      ∃ inner name closing rest children middle, cs = inner ++ (closing ++ rest) ∧
        Content script offset inner (closing ++ rest) children middle ∧
        String.ofList name = e.name ∧ ClosingTag name closing ∧
        Closes final outer (e.siblings ++ [.element e.name e.attributes (current ++ children) e.start])
          middle (offset + inner.length + closing.length) rest

/-- What a state asks of the text from an offset on: inside an opening tag also the rest of the tag. -/
def Completes (final s : ReaderState) (offset : Nat) (cs : List Char) : Prop :=
  match s.tag with
  | none => Closes final s.opened s.current s.script offset cs
  | some t =>
      ∃ text next attributes ends, cs = text ++ next ∧ TagText offset text next attributes ends ∧
        let s' := s.endTag { t with attributes := t.attributes ++ attributes } ends
        Closes final s'.opened s'.current s'.script (offset + text.length) next

theorem completes_content {final : ReaderState} (h : s.tag = none) :
    Completes final s offset cs ↔ Closes final s.opened s.current s.script offset cs := by
  rw [Completes, h]

theorem completes_tag {final : ReaderState} (h : s.tag = some t) :
    Completes final s offset cs ↔
      ∃ text next attributes ends, cs = text ++ next ∧ TagText offset text next attributes ends ∧
        let s' := s.endTag { t with attributes := t.attributes ++ attributes } ends
        Closes final s'.opened s'.current s'.script (offset + text.length) next := by
  rw [Completes, h]

/-- One more item in front, whatever elements are open. -/
theorem Closes.prepend {final : ReaderState} {opened : List OpenElement} {current gs : List Fragment}
    {script script' : Option ScriptBlock} {item : List Char}
    (hitem : ∀ text next fs after, rest = text ++ next →
      Content script' (offset + item.length) text next fs after →
      Content script offset (item ++ text) next (gs ++ fs) after)
    (h : Closes final opened (current ++ gs) script' (offset + item.length) rest) :
    Closes final opened current script offset (item ++ rest) := by
  cases opened with
  | nil =>
      obtain ⟨fs, hcontent, heq⟩ := h
      exact ⟨gs ++ fs, hitem rest [] fs _ (by simp) hcontent, by rw [heq, List.append_assoc]⟩
  | cons e outer =>
      obtain ⟨inner, name, closing, rest, children, middle, rfl, hcontent, hname, hclosing, h⟩ := h
      refine ⟨item ++ inner, name, closing, rest, gs ++ children, middle, by simp,
        hitem inner _ children middle rfl hcontent, hname, hclosing, ?_⟩
      rwa [List.length_append, ← List.append_assoc, ← Nat.add_assoc]

theorem TagText.cons_blank {attributes : List Attribute} {ends : Bool} (hc : Text.isBlank c = true)
    (h : TagText (offset + 1) text next attributes ends) :
    TagText offset (c :: text) next attributes ends := by
  have hblanks : ∀ ws, Blanks ws → Blanks (c :: ws) :=
    fun ws hws => List.forall_mem_cons.2 ⟨hc, hws⟩
  cases h with
  | @closed _ ws _ hws => exact .closed (hblanks ws hws)
  | @opened _ ws _ hws => exact .opened (hblanks ws hws)
  | @attr _ ws own _ _ _ _ _ hws ha htext =>
      rw [← length_cons_add c] at ha htext
      exact .attr (hblanks ws hws) ha htext

/-- An element that ends with its opening tag. -/
theorem closes_emptyElement {final : ReaderState} {opened : List OpenElement} {current : List Fragment}
    {script : Option ScriptBlock} {tag : List Char} {attributes : List Attribute}
    (hno : ¬StartsScript ('<' :: (name ++ (tag ++ next)))) (hname : TagName name (tag ++ next))
    (htag : TagText (offset + 1 + name.length) tag next attributes true)
    (h : Closes final opened (current ++ [.element (String.ofList name) attributes [] offset]) script
      (offset + 1 + name.length + tag.length) next) :
    Closes final opened current script offset ('<' :: name ++ (tag ++ next)) := by
  have hlength : offset + ('<' :: (name ++ tag)).length = offset + 1 + name.length + tag.length := by
    rw [length_cons_add, List.length_append, ← Nat.add_assoc]
  rw [List.cons_append, ← List.append_assoc, ← List.cons_append]
  rw [← hlength] at h
  refine Closes.prepend (fun text next fs after heq hcontent => ?_) h
  subst heq
  rw [hlength] at hcontent
  rw [List.cons_append, List.append_assoc]
  exact .emptyElement hno hname htag hcontent

/-- An element whose opening tag is followed by items and a closing tag. -/
theorem closes_element {final : ReaderState} {opened : List OpenElement} {current : List Fragment}
    {script : Option ScriptBlock} {tag : List Char} {attributes : List Attribute}
    (hno : ¬StartsScript ('<' :: (name ++ (tag ++ next)))) (hname : TagName name (tag ++ next))
    (htag : TagText (offset + 1 + name.length) tag next attributes false)
    (h : Closes final (⟨String.ofList name, attributes, offset, current⟩ :: opened) [] script
      (offset + 1 + name.length + tag.length) next) :
    Closes final opened current script offset ('<' :: name ++ (tag ++ next)) := by
  obtain ⟨inner, name', closing, rest, children, middle, rfl, hinner, hname', hclosing, h⟩ := h
  obtain rfl : name' = name := String.ofList_injective hname'
  have hlength : offset + ('<' :: (name' ++ (tag ++ (inner ++ closing)))).length =
      offset + 1 + name'.length + tag.length + inner.length + closing.length := by
    simp only [length_cons_add, List.length_append, Nat.add_assoc]
  have hsplit : '<' :: name' ++ (tag ++ (inner ++ (closing ++ rest))) =
      '<' :: (name' ++ (tag ++ (inner ++ closing))) ++ rest := by
    simp
  rw [← hlength] at h
  rw [hsplit]
  refine Closes.prepend (fun text next fs after heq hcontent => ?_) h
  subst heq
  rw [hlength] at hcontent
  simp only [List.cons_append, List.append_assoc]
  exact .element hno hname htag hinner hclosing hcontent

theorem completes_of_takes {final : ReaderState} (h : Takes s offset text next s')
    (hrest : Completes final s' (offset + text.length) next) :
    Completes final s offset (text ++ next) := by
  have hnil : Blanks [] := fun _ hc => nomatch hc
  cases h with
  | blank htag hc =>
      rw [completes_tag htag] at hrest ⊢
      obtain ⟨text, next, attributes, ends, rfl, htext, h⟩ := hrest
      refine ⟨_ :: text, next, attributes, ends, rfl, htext.cons_blank hc, ?_⟩
      rwa [length_cons_add]
  | close htag =>
      rw [completes_tag htag]
      refine ⟨[] ++ ['/', '>'], next, [], true, rfl, .closed hnil, ?_⟩
      rwa [List.append_nil]
  | enter htag =>
      rw [completes_tag htag]
      refine ⟨[] ++ ['>'], next, [], false, rfl, .opened hnil, ?_⟩
      rwa [List.append_nil]
  | @attr _ _ _ _ a htag ha =>
      rw [completes_tag htag]
      rw [completes_tag rfl] at hrest
      obtain ⟨behind, next, attributes, ends, rfl, htext, h⟩ := hrest
      refine ⟨[] ++ (text ++ behind), next, a :: attributes, ends, by simp, .attr hnil ha htext, ?_⟩
      rw [List.append_assoc, Nat.add_assoc, ← List.length_append] at h
      cases ends <;> exact h
  | @leave e outer _ name _ _ htag hopened hname heq hclosing =>
      have h := (completes_content (by exact htag)).1 hrest
      rw [completes_content htag, hopened]
      refine ⟨[], name, text, next, [], s.script, rfl, .nil, heq, hclosing, ?_⟩
      rwa [List.append_nil]
  | script htag hscript hopening hbody hprogram =>
      have h := (completes_content (by exact htag)).1 hrest
      rw [completes_content htag, hscript]
      rw [← List.append_nil s.current] at h
      refine Closes.prepend (fun text next fs after heq hcontent => ?_) h
      subst heq
      simp only [List.append_assoc]
      refine .script hopening hbody hprogram ?_
      simpa [Nat.add_assoc] using hcontent
  | @tag _ name _ htag hscript hname =>
      rw [completes_tag rfl] at hrest
      obtain ⟨tag, next, attributes, ends, rfl, htext, h⟩ := hrest
      rw [completes_content htag]
      rw [length_cons_add] at h htext
      cases ends with
      | true => exact closes_emptyElement hscript hname htext h
      | false => exact closes_element hscript hname htext h
  | expression htag he =>
      have h := (completes_content (by exact htag)).1 hrest
      rw [completes_content htag]
      refine Closes.prepend (fun text next fs after heq hcontent => ?_) h
      subst heq
      exact .expression he hcontent
  | text htag hne hrun =>
      have h := (completes_content (by exact htag)).1 hrest
      rw [completes_content htag]
      refine Closes.prepend (fun text next fs after heq hcontent => ?_) h
      subst heq
      exact .text hne hrun hcontent

theorem completes_of_readFrom {final : ReaderState} (h : readFrom s 0 offset cs = .ok final) :
    Completes final s offset cs := by
  -- items differ in length, so the induction is on how much text is left
  induction hlen : cs.length using Nat.strong_induction_on generalizing s offset cs with
  | _ n ih =>
      cases cs with
      | nil =>
          cases htag : s.tag with
          | some t => simp [readFrom, endFault?, htag] at h
          | none =>
              cases hopened : s.opened with
              | cons e outer => simp [readFrom, endFault?, htag, hopened] at h
              | nil =>
                  obtain rfl : s = final := by simpa [readFrom, endFault?, htag, hopened] using h
                  rw [completes_content htag, hopened]
                  exact ⟨[], .nil, (List.append_nil _).symm⟩
      | cons c rest =>
          cases hstep : readStep s c rest offset with
          | error l =>
              rw [readFrom, hstep] at h
              cases h
          | ok result =>
              obtain ⟨text, next, heq, hlength, htakes⟩ := takes_of_readStep hstep
              rw [heq, readFrom_of_takes htakes] at h
              rw [heq, List.length_append] at hlen
              rw [heq]
              exact completes_of_takes htakes (ih next.length (by omega) h rfl)

/-! ### Templates -/

theorem Document.Derives.parse_eq_ok {template filename : String} {d : Document}
    (h : d.Derives template filename) : Document.parse template filename = .ok d := by
  obtain ⟨hcontent, hfilename, hsource⟩ := h
  obtain ⟨html, script, _, _⟩ := d
  subst hfilename hsource
  have hread := readFrom_content hcontent [] []
  rw [List.append_nil, List.nil_append] at hread
  rw [Document.parse, ReaderState.initial, hread]
  rfl

theorem Document.derives_of_parse {template filename : String} {d : Document}
    (h : Document.parse template filename = .ok d) : d.Derives template filename := by
  rw [Document.parse] at h
  cases hread : readFrom .initial 0 0 template.toList with
  | error l => rw [hread] at h; cases h
  | ok final =>
      rw [hread] at h
      cases h
      obtain ⟨fs, hcontent, hcurrent⟩ := (completes_content rfl).1 (completes_of_readFrom hread)
      obtain rfl : final.current = fs := hcurrent
      exact ⟨hcontent, rfl, rfl⟩

/-- **Reading accepts exactly the grammar**: a template is read as a document if and only if the grammar
derives the document from it, and a template is rejected if and only if it derives no document. -/
theorem parse_eq_ok_iff_derives (template filename : String) :
    (∀ d, Document.parse template filename = .ok d ↔ d.Derives template filename) ∧
      ((∃ l, Document.parse template filename = .error l) ↔
        ¬∃ d : Document, d.Derives template filename) := by
  have hiff : ∀ d, Document.parse template filename = .ok d ↔ d.Derives template filename :=
    fun d => ⟨Document.derives_of_parse, Document.Derives.parse_eq_ok⟩
  refine ⟨hiff, ?_⟩
  simp only [← hiff]
  cases Document.parse template filename <;> simp

end ReactiveTemplate

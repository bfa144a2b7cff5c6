/-
**An expression ends with a token.**

The rules for expressions end by taking a token, or with a rule that does, and no token ends in a line
feed: where a literal holds one, a quote or slash follows.  So the line feed that is put behind the text
of an expression belongs to no node in it.

Main definitions:

* `ReactiveTemplate.Script.Cursor.Tight` — a cursor whose last token does not end in a line feed;
* `ReactiveTemplate.Script.Ends` — contract: the parser ends behind such a token;
* `ReactiveTemplate.Script.Grammar.Ending` — a grammar whose rules for expressions all do.

Main results:

* `ReactiveTemplate.Script.Token.not_mem_take` — tokens hold no line feed;
* `ReactiveTemplate.Script.assignmentRule_ends` — expressions end behind a token;
* `ReactiveTemplate.Script.groupRounds_tight` — so do the parts of a list in parentheses when no comma
  follows the last one.
-/

import ReactiveTemplate.Proofs.Embedding.Groups

set_option relaxedAutoImplicit false
set_option autoImplicit false

namespace ReactiveTemplate.Script

open Node

/-! ### Tokens hold no line feed -/

section Characters

variable {cs : List Char}

theorem not_mem_take_of_le {m n : Nat} (h : '\n' ∉ cs.take n) (hmn : m ≤ n) : '\n' ∉ cs.take m :=
  fun hmem => h (List.take_subset_take_left cs hmn hmem)

theorem not_mem_take_add {m n : Nat} (h : '\n' ∉ cs.take m) (h' : '\n' ∉ (cs.drop m).take n) :
    '\n' ∉ cs.take (m + n) := by
  rw [List.take_add, List.mem_append]
  exact fun hmem => hmem.elim h h'

theorem not_mem_take_cons {x : Char} {n : Nat} (hx : x ≠ '\n') (h : '\n' ∉ cs.take n) :
    '\n' ∉ (x :: cs).take (n + 1) := by
  rw [List.take_succ_cons, List.mem_cons]
  exact fun hmem => hmem.elim (fun heq => hx heq.symm) h

theorem isHex_ne {x : Char} (h : isHex x = true) : x ≠ '\n' := by
  rintro rfl
  exact absurd h (by decide)

theorem isDecimal_ne {x : Char} (h : isDecimal x = true) : x ≠ '\n' := by
  rintro rfl
  exact absurd h (by decide)

theorem not_mem_take_bracedEscapeLength {value : Option Nat} {n : Nat}
    (h : bracedEscapeLength value cs = some n) : '\n' ∉ cs.take n := by
  induction cs generalizing value n with
  | nil => simp
  | cons x cs ih =>
      unfold bracedEscapeLength at h
      split at h
      · next heq =>
          obtain ⟨rfl, rfl⟩ := List.cons.inj heq
          split at h
          · cases h
            simp
          · cases h
      · next heq =>
          obtain ⟨rfl, rfl⟩ := List.cons.inj heq
          dsimp only at h
          split at h
          · next hhex =>
              obtain ⟨m, hm, rfl⟩ := Option.map_eq_some_iff.1 h
              exact not_mem_take_cons (isHex_ne (Bool.and_eq_true_iff.1 hhex).1) (ih hm)
          · cases h
      · next heq => cases heq

theorem not_mem_take_unicodeEscapeLength {n : Nat} (h : unicodeEscapeLength cs = some n) :
    '\n' ∉ cs.take n := by
  unfold unicodeEscapeLength at h
  split at h
  · obtain ⟨m, hm, rfl⟩ := Option.map_eq_some_iff.1 h
    have hbraced := not_mem_take_bracedEscapeLength hm
    exact not_mem_take_cons (by decide) (not_mem_take_cons (by decide)
      (not_mem_take_cons (by decide) hbraced))
  · split at h
    · next hhex =>
        cases h
        simp only [Bool.and_eq_true] at hhex
        have ha := isHex_ne hhex.1.1.1
        have hb := isHex_ne hhex.1.1.2
        have hc := isHex_ne hhex.1.2
        have hd := isHex_ne hhex.2
        simp [ha.symm, hb.symm, hc.symm, hd.symm]
    · cases h
  · cases h

theorem head_of_unicodeEscapeLength {x : Char} {n : Nat} (h : unicodeEscapeLength (x :: cs) = some n) :
    x = '\\' := by
  unfold unicodeEscapeLength at h
  split at h
  · next heq => exact (List.cons.inj heq).1
  · next heq => exact (List.cons.inj heq).1
  · cases h

theorem not_mem_take_wordPartLength (escaped : Nat) (h : '\n' ∉ cs.take escaped) :
    '\n' ∉ cs.take (wordPartLength escaped cs) := by
  induction cs generalizing escaped with
  | nil => simp
  | cons x cs ih =>
      cases escaped with
      | succ escaped =>
          rw [wordPartLength]
          rw [List.take_succ_cons, List.mem_cons, not_or] at h
          exact not_mem_take_cons (Ne.symm h.1) (ih escaped h.2)
      | zero =>
          rw [wordPartLength]
          split
          · next hname =>
              have hx : x ≠ '\n' := by
                rintro rfl
                exact absurd hname (by decide)
              exact not_mem_take_cons hx (ih 0 (by simp))
          · split
            · next n hescape =>
                -- an escape is part of the word as a whole
                have hx : x = '\\' := head_of_unicodeEscapeLength hescape
                have hall := not_mem_take_unicodeEscapeLength hescape
                have htail : '\n' ∉ cs.take (n - 1) := by
                  cases n with
                  | zero => simp
                  | succ n => exact fun hmem => hall (List.mem_cons_of_mem _ hmem)
                exact not_mem_take_cons (by rw [hx]; decide) (ih (n - 1) htail)
            · simp

theorem not_mem_take_wordLength (cs : List Char) : '\n' ∉ cs.take (wordLength cs) := by
  unfold wordLength
  split
  · split
    · exact not_mem_take_wordPartLength 0 (by simp)
    · simp
  · simp

theorem not_mem_take_digitsLength {digit : Char → Bool} (hdigit : digit '\n' = false) (cs : List Char) :
    '\n' ∉ cs.take (digitsLength digit cs) := by
  have hne : ∀ {x}, digit x = true → x ≠ '\n' := by
    rintro x hx rfl
    rw [hdigit] at hx
    cases hx
  fun_induction digitsLength digit cs with
  | case1 c d cs h ih =>
      exact not_mem_take_cons (hne (Bool.and_eq_true_iff.1 h).1) (not_mem_take_cons (by decide) ih)
  | case2 c d cs _ h => exact not_mem_take_cons (hne h) (by simp)
  | case3 => simp
  | case4 c cs _ h ih => exact not_mem_take_cons (hne h) ih
  | case5 => simp
  | case6 => simp

theorem not_mem_take_exponentLength (cs : List Char) : '\n' ∉ cs.take (exponentLength cs) := by
  have hdigits : ∀ ds : List Char, '\n' ∉ ds.take (digitsLength isDecimal ds) :=
    not_mem_take_digitsLength (by decide)
  unfold exponentLength
  split
  · next e ds =>
      split
      · next he =>
          have he : e ≠ '\n' := by rintro rfl; exact absurd he (by decide)
          split
          · next s ds =>
              split
              · next hs =>
                  have hs : s ≠ '\n' := by rintro rfl; exact absurd hs (by decide)
                  dsimp only
                  split
                  · simp
                  · exact not_mem_take_cons he (not_mem_take_cons hs (hdigits ds))
              · dsimp only
                split
                · simp
                · exact not_mem_take_cons he (hdigits _)
          · simp
      · simp
  · simp

theorem not_mem_take_withBigMark {n : Nat} (h : '\n' ∉ cs.take n) :
    '\n' ∉ cs.take (withBigMark n (cs.drop n)) := by
  unfold withBigMark
  split
  · next hbig =>
      refine not_mem_take_add h ?_
      cases hrest : cs.drop n with
      | nil => simp
      | cons x rest =>
          rw [hrest] at hbig
          obtain rfl : x = 'n' := by simpa using hbig
          simp
  · exact h

theorem not_mem_take_radixLength (cs : List Char) : '\n' ∉ cs.take (radixLength cs) := by
  unfold radixLength
  split
  · next r ds =>
      dsimp only
      split
      · next p hp =>
          have hr : r ≠ '\n' := by
            rintro rfl
            simp at hp
          have hdigit : p '\n' = false := by
            split at hp
            · cases hp; decide
            · split at hp
              · cases hp; decide
              · split at hp
                · cases hp; decide
                · cases hp
          split
          · simp
          · have hdigits := not_mem_take_digitsLength hdigit ds
            have hall : '\n' ∉ ('0' :: r :: ds).take (digitsLength p ds + 2) :=
              not_mem_take_cons (by decide) (not_mem_take_cons hr hdigits)
            exact not_mem_take_withBigMark hall
      · simp
  · simp

theorem not_mem_take_fractionLength {big : Bool} {whole : Nat} (h : '\n' ∉ cs.take whole) :
    '\n' ∉ cs.take (fractionLength big whole cs) := by
  unfold fractionLength
  split
  · next ds hds =>
      dsimp only
      split
      · simp
      · have hfraction : '\n' ∉ cs.take (whole + (1 + digitsLength isDecimal ds)) := by
          refine not_mem_take_add h ?_
          rw [hds, Nat.add_comm]
          exact not_mem_take_cons (by decide) (not_mem_take_digitsLength (by decide) ds)
        rw [← Nat.add_assoc] at hfraction
        exact not_mem_take_add hfraction (not_mem_take_exponentLength _)
  · dsimp only
    split
    · simp
    · split
      · exact not_mem_take_add h (not_mem_take_exponentLength _)
      · split
        · exact not_mem_take_withBigMark h
        · exact h

theorem not_mem_take_decimalLength (cs : List Char) : '\n' ∉ cs.take (decimalLength cs) := by
  have hrun : '\n' ∉ cs.take (cs.takeWhile isDecimal).length := by
    rw [← List.prefix_iff_eq_take.1 (List.takeWhile_prefix isDecimal)]
    exact fun hmem => absurd (List.all_eq_true.1 List.all_takeWhile _ hmem) (by decide)
  unfold decimalLength
  split
  · split
    · dsimp only
      split
      · exact hrun
      · exact not_mem_take_fractionLength hrun
    · exact not_mem_take_fractionLength (by simp)
  · exact not_mem_take_fractionLength (not_mem_take_digitsLength (by decide) _)

theorem not_mem_take_numberLength (cs : List Char) : '\n' ∉ cs.take (numberLength cs) := by
  unfold numberLength
  dsimp only
  split
  · exact not_mem_take_radixLength cs
  · exact not_mem_take_decimalLength cs

theorem not_mem_take_punctuator? {p : String × Nat} (h : punctuator? cs = some p) :
    '\n' ∉ cs.take p.2 := by
  unfold punctuator? at h
  split at h
  · split at h <;> cases h <;> simp
  · obtain ⟨q, hq, rfl⟩ := Option.map_eq_some_iff.1 h
    have hall : ∀ q ∈ punctuators, '\n' ∉ q.2 := by decide
    have hpre := List.find?_some hq
    rw [← List.prefix_iff_eq_take.1 (List.isPrefixOf_iff_prefix.1 hpre)]
    exact hall q (List.mem_of_find?_eq_some hq)

theorem Token.ofChars_lineFeed (cs : List Char) : Token.ofChars ('\n' :: cs) = (.stray, 1) := by
  have hp : punctuator? ('\n' :: cs) = none := by
    unfold punctuator?
    split
    · next heq => exact absurd (List.cons.inj heq).1 (by decide)
    · simp [punctuators]
  rw [Token.ofChars_mark (by decide), hp]
  rfl

/-- A token holds no line feed. -/
theorem Token.not_mem_take (h : (Token.ofChars cs).1 ≠ .stray) :
    '\n' ∉ cs.take (Token.ofChars cs).2 := by
  match cs with
  | [] => simp
  | x :: rest =>
      have hx : x ≠ '\n' := by
        rintro rfl
        exact h (by rw [Token.ofChars_lineFeed])
      have hone : '\n' ∉ (x :: rest).take 1 := not_mem_take_cons hx (by simp)
      -- one case for each class of tokens, in the order in which they are tried
      unfold Token.ofChars
      dsimp only
      split
      · exact not_mem_take_wordLength (x :: rest)
      · split
        · exact not_mem_take_numberLength (x :: rest)
        · split
          · exact hone
          · split
            · exact hone
            · split
              · split
                · exact not_mem_take_cons hx (not_mem_take_wordLength rest)
                · exact hone
              · split
                · next hp => exact not_mem_take_punctuator? hp
                · exact hone

end Characters

/-! ### Cursors behind a token -/

variable {α β : Type} {text : List Char} {g : Grammar} {place : Place} {c : Cursor}

/-- A cursor of the text whose last token does not end in a line feed. -/
structure Cursor.Tight (text : List Char) (c : Cursor) : Prop extends Cursor.In text c where
  last : ∃ before x after,
    text = before ++ x :: after ∧ Text.byteLength (before ++ [x]) = c.stop ∧ x ≠ '\n'

/-- Moving past characters that hold no line feed. -/
theorem Cursor.In.tight_takeRaw (h : c.In text) {n : Nat} (hn : n ≠ 0) (hne : c.rest ≠ [])
    (hlast : '\n' ∉ c.rest.take n) : (c.takeRaw n).Tight text := by
  obtain ⟨before, htext, hpos⟩ := h.restAt
  have hnonempty : c.rest.take n ≠ [] := by simp [hn, hne]
  have hcut := List.dropLast_concat_getLast hnonempty
  generalize hlastChar : (c.rest.take n).getLast hnonempty = x at hcut
  have hx : x ≠ '\n' := by
    rintro rfl
    exact hlast (hlastChar ▸ List.getLast_mem hnonempty)
  refine ⟨(h.takeRaw n).mem, before ++ (c.rest.take n).dropLast, x, c.rest.drop n, ?_, ?_, hx⟩
  · calc text = before ++ (c.rest.take n ++ c.rest.drop n) := by rw [List.take_append_drop, htext]
      _ = before ++ (((c.rest.take n).dropLast ++ [x]) ++ c.rest.drop n) := by rw [hcut]
      _ = _ := by simp
  · rw [List.append_assoc, hcut, Text.byteLength_append, hpos]
    rfl

theorem Cursor.Tight.settle (h : c.Tight text) : c.settle.Tight text :=
  ⟨h.toIn.settle.mem, h.last⟩

theorem Cursor.In.tight_take (h : c.In text) {n : Nat} (hn : n ≠ 0) (hne : c.rest ≠ [])
    (hlast : '\n' ∉ c.rest.take n) : (c.take n).Tight text :=
  (h.tight_takeRaw hn hne hlast).settle

/-! ### The contract -/

/-- The parser ends behind a token. -/
def Ends (text : List Char) (p : Parser α) : Prop :=
  ∀ place c, c.In text → Ensures p place c fun _ c' => c'.Tight text

section Steps

variable {p : Parser α} {f : α → Parser β} {Q : β → Cursor → Prop} {t : Bool}

theorem Ensures.and {Q Q' : α → Cursor → Prop} (h : Ensures p place c Q) (h' : Ensures p place c Q') :
    Ensures p place c fun a c' => Q a c' ∧ Q' a c' :=
  fun a c' hp => ⟨h a c' hp, h' a c' hp⟩

theorem Ends.step (hp : Ends text p) (hc : c.In text)
    (hf : ∀ a c', c'.Tight text → Ensures (f a) place c' Q) : Ensures (p >>= f) place c Q :=
  (hp place c hc).step hf

theorem Ends.within (hp : Ends text p) (place : Place) : Ends text (Script.within place p) :=
  fun _ => hp place

theorem Ends.orElse {q : Parser α} (hp : Ends text p) (hq : Ends text q) : Ends text (p <|> q) :=
  fun place c hc => .orElse (hp place c hc) (hq place c hc)

/-- Making a node moves nothing. -/
theorem nodeFrom_tight {kind : Kind} {start : Nat} {cs : List Node} (h : c.Tight text) :
    Ensures (nodeFrom kind start cs) place c fun _ c' => c'.Tight text := by
  rintro _ _ ⟨⟩
  exact h

/-- Looking at the next token. -/
theorem peek_eq_step {f : Token → Parser β}
    (hf : ∀ token, (Token.ofChars c.rest).1 = token → Ensures (f token) place c Q) :
    Ensures (peek >>= f) place c Q :=
  .bind (by rintro _ _ ⟨⟩; exact hf _ rfl)

/-- A token that is none of the two that rules never take. -/
theorem advance_tight (hc : c.In text) (hfinish : (Token.ofChars c.rest).1 ≠ .finish)
    (hstray : (Token.ofChars c.rest).1 ≠ .stray) :
    Ensures advance place c fun _ c' => c'.Tight text := by
  rintro _ _ ⟨⟩
  have hne := Token.ne_nil hfinish
  exact hc.tight_take (Token.length_ne_zero hne) hne (Token.not_mem_take hstray)

theorem punctuator_ends (w : String) : Ends text (punctuator w) := by
  intro place c hc
  refine .bind ?_
  rintro _ _ ⟨⟩
  refine require_step fun htoken => ?_
  have htoken : (Token.ofChars c.rest).1 = .punctuator w := eq_of_beq htoken
  exact advance_tight hc (by rw [htoken]; nofun) (by rw [htoken]; nofun)

theorem keyword_ends (w : String) : Ends text (keyword w) := by
  intro place c hc
  refine .bind ?_
  rintro _ _ ⟨⟩
  refine require_step fun htoken => ?_
  have htoken : (Token.ofChars c.rest).1 = .word w := eq_of_beq htoken
  exact advance_tight hc (by rw [htoken]; nofun) (by rw [htoken]; nofun)

/-- A leaf made of a token that a rule has looked at. -/
theorem leaf_tight {kind : Kind} (hc : c.In text) (hfinish : (Token.ofChars c.rest).1 ≠ .finish)
    (hstray : (Token.ofChars c.rest).1 ≠ .stray) :
    Ensures (leaf kind) place c fun _ c' => c'.Tight text :=
  here_step ((advance_tight hc hfinish hstray).step fun _ _ h => nodeFrom_tight h)

theorem leaf_stays {kind : Kind} (hc : c.In text) :
    Ensures (leaf kind) place c fun _ c' => c'.In text :=
  here_step (advance_moves.step (.refl hc) fun _ c h => by rintro _ _ ⟨⟩; exact h.mem)

theorem nameLeaf_ends (kind : Kind) : Ends text (nameLeaf kind) := by
  intro place c hc
  refine peek_eq_step fun token htoken => ?_
  split
  · exact require_step fun _ => leaf_tight hc (by rw [htoken]; nofun) (by rw [htoken]; nofun)
  · exact .failure

theorem identifier_ends : Ends text identifier := nameLeaf_ends _

/-- A value that is extended step by step ends behind a token, if it did so at first. -/
theorem iterate_tight {step : α → Parser (Option α)} {x : α}
    (hstep : ∀ {c x}, c.Tight text → Ensures (step x) place c fun _ c' => c'.Tight text)
    (h : c.Tight text) : Ensures (iterate step x) place c fun _ c' => c'.Tight text := by
  have hall : ∀ n {c x}, c.Tight text →
      Ensures (iterateAtMost step n x) place c fun _ c' => c'.Tight text := by
    intro n
    induction n with
    | zero => exact fun h => .pure h
    | succ n ih =>
        intro c x h
        refine (hstep h).step fun y c' h' => ?_
        cases y with
        | none => exact .pure h'
        | some y => exact ih h'
  exact get_step (hall _ h)

/-- A repetition ends where it is told to. -/
theorem repeatUntil_done {done : Parser Bool} {p : Parser α} (hdone : Looks done) :
    Ensures (repeatUntil done p) place c fun _ c' => done place c' = some (true, c') := by
  have hall : ∀ n c, Ensures (repeatAtMost done p n) place c
      fun _ c' => done place c' = some (true, c') := by
    intro n
    induction n with
    | zero => exact fun _ => .failure
    | succ n ih =>
        intro c
        refine .bind fun b c' hb => ?_
        obtain rfl : c' = c := hdone place c b c' hb
        cases b with
        | true => exact .pure hb
        | false => exact .any fun _ c' => (ih c').step fun _ _ h => .pure h
  exact get_step (hall _ c)

/-- Parts up to a closing punctuator end behind it. -/
theorem separated_ends {close : String} {p : Parser Node} (hp : Reads text p) :
    Ends text (separated close p) := fun _ _ hc =>
  (separatedItems_reads hp).step (.refl hc) fun _ _ h =>
    (punctuator_ends _).step h.mem fun _ _ h => .pure h

theorem separatedWithHoles_ends {close : String} {p : Parser Node} (hp : Reads text p) :
    Ends text (separatedWithHoles close p) := fun _ _ hc =>
  (separatedRounds_reads hp).step (.refl hc) fun _ _ h =>
    (punctuator_ends _).step h.mem fun _ _ h => .pure h

end Steps

/-! ### Literals -/

/-- The characters that open a string. -/
theorem Token.quote_ne {cs : List Char} {mark : Char} (h : (Token.ofChars cs).1 = .quote mark) :
    mark ≠ '\n' := by
  rintro rfl
  unfold Token.ofChars at h
  split at h
  · cases h
  · dsimp only at h
    split at h
    · cases h
    · split at h
      · unfold numberToken at h
        split at h <;> cases h
      · split at h
        · next hquote =>
            cases h
            exact absurd hquote (by decide)
        · split at h
          · cases h
          · split at h
            · split at h <;> cases h
            · split at h <;> cases h

/-- Moving past the quote that closes a literal. -/
theorem tight_take_mark {mark : Char} (hc : c.In text) (hmark : mark ≠ '\n')
    (hat : atChar mark place c = some (true, c)) : (c.take 1).Tight text := by
  have hhead : (c.rest.head? == some mark) = true := congrArg Prod.fst (Option.some.inj hat)
  cases hrest : c.rest with
  | nil =>
      rw [hrest] at hhead
      cases hhead
  | cons x rest =>
      obtain rfl : x = mark := by simpa [hrest] using hhead
      refine hc.tight_take Nat.one_ne_zero (by simp [hrest]) ?_
      rw [hrest]
      exact not_mem_take_cons hmark (by simp)

theorem stringLiteral_ends : Ends text stringLiteral := by
  intro place s hs
  refine peek_eq_step fun token htoken => ?_
  split
  · next mark =>
      have hpieces := (stringPieces_reads mark place _ (hs.takeRaw 1).mem).and
        (repeatUntil_done (atChar_looks mark))
      refine here_step (modify_step (hpieces.step fun pieces c h => modify_step ?_))
      exact nodeFrom_tight (tight_take_mark h.1.mem (Token.quote_ne htoken) h.2)
  · exact .failure

theorem templateLiteral_ends (hg : g.Reading text) : Ends text (templateLiteral g) := by
  intro place s hs
  have hpieces := (templatePieces_reads hg place _ (hs.takeRaw 1).mem).and
    (repeatUntil_done (atChar_looks _))
  refine peek_looks.step fun _ => require_step fun _ => here_step (modify_step ?_)
  refine hpieces.step fun pieces c h => modify_step ?_
  exact nodeFrom_tight (tight_take_mark h.1.mem (by decide) h.2)

/-- The pattern of a regular expression goes up to a slash. -/
theorem regexPatternLength_slash {inClass : Bool} {cs : List Char} {n : Nat}
    (h : regexPatternLength inClass cs = some n) : (cs.drop n).head? = some '/' := by
  fun_induction regexPatternLength inClass cs generalizing n with
  | case1 => cases h
  | case2 => cases h
  | case3 inClass c cs _ ih =>
      obtain ⟨m, hm, rfl⟩ := Option.map_eq_some_iff.1 h
      exact ih hm
  | case4 => cases h
  | case5 inClass c cs _ _ _ ih =>
      obtain ⟨m, hm, rfl⟩ := Option.map_eq_some_iff.1 h
      exact ih hm
  | case6 inClass c cs _ _ _ _ ih =>
      obtain ⟨m, hm, rfl⟩ := Option.map_eq_some_iff.1 h
      exact ih hm
  | case7 inClass c cs _ _ _ _ hslash =>
      cases h
      simpa using (Bool.and_eq_true_iff.1 hslash).1
  | case8 inClass c cs _ _ _ _ _ ih =>
      obtain ⟨m, hm, rfl⟩ := Option.map_eq_some_iff.1 h
      exact ih hm

theorem rawLeaf_ensures {kind : Kind} {n : Nat} :
    Ensures (rawLeaf kind n) place c fun _ c' => n ≠ 0 ∧ c' = c.takeRaw n := by
  refine require_step fun hn => here_step (modify_step ?_)
  exact nodeFrom_ensures.mono fun _ _ h => ⟨by simpa using hn, h.2⟩

theorem regexLiteral_ends : Ends text regexLiteral := by
  intro place s hs
  refine here_step ((atChar_looks _).step fun _ => require_step fun _ => modify_step ?_)
  refine (atChar_looks _).step fun _ => require_step fun _ => get_step ?_
  have hopen := (hs.takeRaw 1).mem
  split
  · next n hn =>
      have hslash := regexPatternLength_slash hn
      refine rawLeaf_ensures.step fun pattern c h => modify_step (get_step ?_)
      obtain ⟨-, rfl⟩ := h
      have hpattern := (hopen.takeRaw n).mem
      cases hrest : (s.takeRaw 1).rest.drop n with
      | nil => rw [hrest] at hslash; cases hslash
      | cons x rest =>
          obtain rfl : x = '/' := by simpa [hrest] using hslash
          have hclosed : (((s.takeRaw 1).takeRaw n).takeRaw 1).Tight text := by
            refine hpattern.tight_takeRaw Nat.one_ne_zero ?_ ?_
            · change (s.takeRaw 1).rest.drop n ≠ []
              simp [hrest]
            · change '\n' ∉ ((s.takeRaw 1).rest.drop n).take 1
              rw [hrest]
              exact not_mem_take_cons (by decide) (by simp)
          dsimp only
          split
          · exact modify_step (nodeFrom_tight hclosed.settle)
          · refine rawLeaf_ensures.step fun flags c h => modify_step (nodeFrom_tight ?_)
            obtain ⟨hflags, rfl⟩ := h
            refine (hclosed.toIn.tight_takeRaw hflags ?_ ?_).settle
            · exact fun hnil => hflags (by rw [hnil]; rfl)
            · rw [← List.prefix_iff_eq_take.1 (List.takeWhile_prefix isRegexFlag)]
              exact fun hmem => absurd (List.all_eq_true.1 List.all_takeWhile _ hmem) (by decide)
  · exact .failure

/-! ### Functions and classes -/

/-- A grammar whose rules for nested expressions end behind a token. -/
structure Grammar.Ending (text : List Char) (g : Grammar) : Prop where
  reading : g.Reading text
  assignment : Ends text g.assignment
  cover : Ends text g.cover
  binary : ∀ least, Ends text (g.binary least)
  unary : Ends text g.unary
  callee : Ends text g.callee

theorem Grammar.Ending.empty : Grammar.empty.Ending text := by
  constructor
  case reading => exact .empty
  case binary => exact fun _ _ _ _ => .failure
  all_goals exact fun _ _ _ => .failure

theorem statementBlock_ends (hg : g.Reading text) : Ends text (statementBlock g) := by
  intro place s hs
  refine here_step ((punctuator_takes _).step (.refl hs) fun _ c h => ?_)
  refine (repeatUntil_reads_nodes (atPunctuator_looks _) hg.statement).step h fun _ c h => ?_
  exact (punctuator_ends _).step h.mem fun _ _ h => nodeFrom_tight h

theorem arrowTail_tight {start : Nat} {parameters : Node} (hg : g.Ending text) (hc : c.In text) :
    Ensures (arrowTail g start parameters) place c fun _ c' => c'.Tight text := by
  refine newlineAhead_looks.step fun _ => require_step fun _ => ?_
  refine (punctuator_takes _).step (.refl hc) fun _ c h => (atPunctuator_looks _).step fun _ => ?_
  split
  · exact (statementBlock_ends hg.reading).step h.mem fun _ _ h => nodeFrom_tight h
  · exact hg.assignment.step h.mem fun _ _ h => nodeFrom_tight h

theorem nameArrow_tight {start : Nat} (hg : g.Ending text) (hc : c.In text) :
    Ensures (nameArrow g start) place c fun _ c' => c'.Tight text :=
  identifier_reads.step (.refl hc) fun _ _ h => arrowTail_tight hg h.mem

theorem signatureAndBody_ends (hg : g.Reading text) : Ends text (signatureAndBody g) := fun _ _ hc =>
  (formalParameters_reads hg).step (.refl hc) fun _ _ h =>
    (statementBlock_ends hg).step h.mem fun _ _ h => .pure h

theorem functionTail_tight {declared : Bool} {kind : Kind} {start : Nat} (hg : g.Reading text)
    (hc : c.In text) :
    Ensures (functionTail g declared kind start) place c fun _ c' => c'.Tight text := by
  refine (atPunctuator_looks _).step fun _ => ?_
  split
  · exact (signatureAndBody_ends hg).step hc fun _ _ h => nodeFrom_tight h
  · refine identifier_reads.step (.refl hc) fun _ c h => ?_
    exact (signatureAndBody_ends hg).step h.mem fun _ _ h => nodeFrom_tight h

theorem functionNode_ends (hg : g.Reading text) (declared : Bool) :
    Ends text (functionNode g declared) := by
  intro place s hs
  refine here_step (atAsyncFunction_looks.step fun b => ?_)
  refine optionalMove_step advance_moves (.refl hs) fun c h => ?_
  refine (keyword_takes _).step h fun _ c h => ?_
  exact tryPunctuator_step h (fun c h => functionTail_tight hg h.mem) (functionTail_tight hg h.mem)

theorem classNode_ends (hg : g.Reading text) (declared : Bool) : Ends text (classNode g declared) := by
  have hbody : Ends text (classBody g) := fun place s hs => by
    refine here_step ((punctuator_takes _).step (.refl hs) fun _ c h => ?_)
    refine (classMembers_reads hg).step h fun members c h => ?_
    exact (punctuator_ends _).step h.mem fun _ _ h => nodeFrom_tight h
  intro place s hs
  refine here_step ((keyword_takes _).step (.refl hs) fun _ c h => ?_)
  refine (className_reads declared).step h fun name c h => ?_
  refine (classHeritage_reads hg).step h fun heritage c h => ?_
  exact hbody.step h.mem fun _ _ h => nodeFrom_tight h

/-! ### Values -/

theorem spreadOr_ends {p : Parser Node} (hp : Ends text p) : Ends text (spreadOr p) := by
  intro place s hs
  refine here_step (tryPunctuator_step (.refl hs) (fun c h => ?_) ?_)
  · exact hp.step h.mem fun _ _ h => nodeFrom_tight h
  · exact hp place s hs

theorem coverLiteral_ends (hg : g.Reading text) : Ends text (coverLiteral g) := by
  intro place s hs
  refine here_step (tryPunctuator_step (.refl hs) (fun c h => ?_) ?_)
  · refine ((separatedWithHoles_ends (spreadOr_reads hg.cover)).within _).step h.mem fun _ _ h => ?_
    exact nodeFrom_tight h
  · refine (punctuator_takes _).step (.refl hs) fun _ c h => ?_
    exact ((separated_ends (objectMember_reads hg)).within _).step h.mem fun _ _ h => nodeFrom_tight h

theorem literalValue_ends (hg : g.Reading text) : Ends text (literalValue g) := fun _ _ hs =>
  (coverLiteral_ends hg).step hs fun _ _ h => require_step fun _ => .pure h

theorem parenthesized_ends (hg : g.Reading text) : Ends text (parenthesized g) := by
  intro place s hs
  refine here_step ((punctuator_takes _).step (.refl hs) fun _ c h => ?_)
  refine (hg.expression.within _).step h fun inner c h => ?_
  exact (punctuator_ends _).step h.mem fun _ _ h => nodeFrom_tight h

theorem callArguments_ends (hg : g.Reading text) : Ends text (callArguments g) := by
  intro place s hs
  refine here_step ((punctuator_takes _).step (.refl hs) fun _ c h => ?_)
  refine ((separated_ends (spreadOr_reads hg.assignment)).within _).step h.mem fun _ _ h => ?_
  exact (nodeFrom_tight h).step fun _ _ h => .pure h

theorem importArguments_ends (hg : g.Reading text) : Ends text (importArguments g) := by
  intro place s hs
  refine here_step ((punctuator_takes _).step (.refl hs) fun _ c h => ?_)
  refine ((separated_ends hg.assignment).within _).step h.mem fun _ _ h => require_step fun _ => ?_
  exact (nodeFrom_tight h).step fun _ _ h => .pure h

theorem metaProperty_ends (first second : String) : Ends text (metaProperty first second) := by
  intro place s hs
  refine here_step ((keyword_takes _).step (.refl hs) fun _ c h => ?_)
  refine (punctuator_takes _).step h fun _ c h => ?_
  exact (keyword_ends _).step h.mem fun _ _ h => nodeFrom_tight h

/-- What a word stands for as a value, where the word is known to stand. -/
theorem wordValue_tight {w : String} (hg : g.Reading text) (hc : c.In text)
    (htoken : (Token.ofChars c.rest).1 = .word w) :
    Ensures (wordValue g w) place c fun _ c' => c'.Tight text := by
  have hleaf : ∀ {kind}, Ensures (leaf kind) place c fun _ c' => c'.Tight text :=
    leaf_tight hc (by rw [htoken]; nofun) (by rw [htoken]; nofun)
  unfold wordValue
  split
  · exact hleaf
  · refine peekSecond_looks.step fun second => ?_
    split
    · exact hleaf
    · exact hleaf
    · exact hleaf
    · exact .failure
  · exact hleaf
  · exact hleaf
  · exact hleaf
  · exact hleaf
  · exact functionNode_ends hg false place c hc
  · exact classNode_ends hg false place c hc
  · refine .orElse (metaProperty_ends _ _ place c hc) ?_
    exact peekSecond_looks.step fun _ => require_step fun _ => hleaf
  · refine atAsyncFunction_looks.step fun _ => ?_
    split
    · exact functionNode_ends hg false place c hc
    · exact identifier_ends place c hc
  · exact identifier_ends place c hc

theorem punctuatorValue_ends (hg : g.Reading text) (p : String) : Ends text (punctuatorValue g p) := by
  unfold punctuatorValue
  split
  · exact parenthesized_ends hg
  · exact literalValue_ends hg
  · exact literalValue_ends hg
  · exact regexLiteral_ends
  · exact regexLiteral_ends
  · exact fun _ _ _ => .failure

theorem primary_ends (hg : g.Reading text) : Ends text (primary g) := by
  intro place s hs
  refine peek_eq_step fun token htoken => ?_
  cases token with
  | word w => exact wordValue_tight hg hs htoken
  | punctuator p => exact punctuatorValue_ends hg p place s hs
  | number => exact leaf_tight hs (by rw [htoken]; nofun) (by rw [htoken]; nofun)
  | quote mark => exact stringLiteral_ends place s hs
  | backtick => exact templateLiteral_ends hg place s hs
  | privateName => exact .failure
  | finish => exact .failure
  | stray => exact .failure

/-! ### Accesses and calls -/

theorem accessedProperty_ends : Ends text accessedProperty := by
  intro place s hs
  refine peek_eq_step fun token htoken => ?_
  split
  · exact (leaf_tight hs (by rw [htoken]; nofun) (by rw [htoken]; nofun)).step fun _ _ h => .pure h
  · exact (leaf_tight hs (by rw [htoken]; nofun) (by rw [htoken]; nofun)).step fun _ _ h => .pure h
  · exact .failure

theorem accessIndex_ends (hg : g.Reading text) : Ends text (accessIndex g) := by
  intro place s hs
  refine (punctuator_takes _).step (.refl hs) fun _ c h => ?_
  refine (hg.expression.within _).step h fun index c h => ?_
  exact (punctuator_ends _).step h.mem fun _ _ h => .pure h

theorem optionalAccess_tight {object : Node} (hg : g.Reading text) (hc : c.In text) :
    Ensures (optionalAccess g object) place c fun _ c' => c'.Tight text := by
  refine (leaf_stays hc).step fun chain c hc => (atPunctuator_looks _).step fun _ => ?_
  split
  · exact (callArguments_ends hg).step hc fun _ _ h => nodeFrom_tight h
  · refine (atPunctuator_looks _).step fun _ => ?_
    split
    · exact (accessIndex_ends hg).step hc fun _ _ h => nodeFrom_tight h
    · exact accessedProperty_ends.step hc fun _ _ h => nodeFrom_tight h

theorem accessStep_tight {object : Node} {calls : Bool} (hg : g.Reading text) (hc : c.Tight text) :
    Ensures (accessStep g calls object) place c fun _ c' => c'.Tight text := by
  have hsome : ∀ {kind start cs} {c : Cursor}, c.Tight text →
      Ensures (do return some (← nodeFrom kind start cs)) place c fun _ c' => c'.Tight text :=
    fun h => (nodeFrom_tight h).step fun _ _ h => .pure h
  refine peek_looks.step fun _ => ?_
  split
  · refine advance_moves.step (.refl hc.toIn) fun _ c h => ?_
    exact accessedProperty_ends.step h.mem fun _ _ h => hsome h
  · exact (accessIndex_ends hg).step hc.toIn fun _ _ h => hsome h
  · exact (templateLiteral_ends hg).step hc.toIn fun _ _ h => hsome h
  · exact require_step fun _ => (optionalAccess_tight hg hc.toIn).step fun _ _ h => .pure h
  · split
    · dsimp only
      split
      · exact (importArguments_ends hg).step hc.toIn fun _ _ h => hsome h
      · exact (callArguments_ends hg).step hc.toIn fun _ _ h => hsome h
    · exact .pure hc
  · exact .pure hc

theorem newOrPrimary_ends (hg : g.Ending text) : Ends text (newOrPrimary g) := by
  have hnew : Ends text (newExpression g) := fun place s hs => by
    refine here_step ((keyword_takes _).step (.refl hs) fun _ c h => ?_)
    refine hg.callee.step h.mem fun callee c h => require_step fun _ => ?_
    refine (atPunctuator_looks _).step fun _ => ?_
    split
    · exact (callArguments_ends hg.reading).step h.toIn fun _ _ h => nodeFrom_tight h
    · exact nodeFrom_tight h
  intro place s hs
  refine (atWord_looks _).step fun _ => ?_
  split
  · exact ((metaProperty_ends _ _).orElse hnew) place s hs
  · exact primary_ends hg.reading place s hs

theorem calleeRule_ends (hg : g.Ending text) : Ends text (calleeRule g) := fun _ _ hs =>
  (newOrPrimary_ends hg).step hs fun _ _ h => iterate_tight (accessStep_tight hg.reading) h

/-! ### Operators -/

theorem assignTo_tight {left : Node} {kind : Kind} (hg : g.Ending text) (hc : c.In text) :
    Ensures (assignTo g left kind) place c fun _ c' => c'.Tight text :=
  advance_moves.step (.refl hc) fun _ _ h =>
    hg.assignment.step h.mem fun _ _ h => nodeFrom_tight h

theorem updateStep_tight {operand : Node × Bool} (hg : g.Ending text) (hc : c.Tight text) :
    Ensures (updateStep g operand) place c fun _ c' => c'.Tight text := by
  refine peek_eq_step fun token htoken => newlineAhead_looks.step fun _ => ?_
  split
  · next hupdate =>
      have hoperator : isUpdateOperator token = true := by
        simp only [Bool.and_eq_true] at hupdate
        exact hupdate.1.2
      have hadvance : Ensures advance place c fun _ c' => c'.Tight text :=
        advance_tight hc.toIn (by rw [htoken]; rintro rfl; cases hoperator)
          (by rw [htoken]; rintro rfl; cases hoperator)
      refine hadvance.step fun _ c h => (nodeFrom_tight h).step fun update c h => ?_
      refine (atContinuation_looks _).step fun _ => ?_
      split
      · refine (iterate_tight (accessStep_tight hg.reading) h).step fun accessed c h => ?_
        refine peek_looks.step fun _ => ?_
        split
        · exact (assignTo_tight hg h.toIn).step fun _ _ h => .pure h
        · exact .pure h
      · exact .pure h
  · exact .pure hc

theorem postfixOf_tight {value : Node} (hg : g.Ending text) (hc : c.Tight text) :
    Ensures (postfixOf g value) place c fun _ c' => c'.Tight text :=
  (iterate_tight (accessStep_tight hg.reading) hc).step fun _ _ h =>
    (iterate_tight (updateStep_tight hg) h).step fun _ _ h => .pure h

theorem yieldExpression_ends (hg : g.Ending text) (whole : Bool) :
    Ends text (yieldExpression g whole) := by
  intro place s hs
  refine here_step ((keyword_ends _).step hs fun _ c h => (atStatementEnd_looks _).step fun _ => ?_)
  split
  · exact nodeFrom_tight h
  · have hoperand : ∀ {c : Cursor} {start}, c.In text → Ensures (do
        let operand ← g.assignment
        nodeFrom .yieldExpression start [operand]) place c fun _ c' => c'.Tight text :=
      fun hc => hg.assignment.step hc fun _ _ h => nodeFrom_tight h
    refine peek_looks.step fun token => newlineAhead_looks.step fun _ => ?_
    refine tryPunctuator_step (.refl h.toIn) (fun c h => hoperand h.mem) ?_
    split
    · exact hoperand h.toIn
    · exact (nodeFrom_tight h).step fun _ _ h => postfixOf_tight hg h

theorem groupParts_ends (hg : g.Reading text) : Ends text (groupParts g) := by
  intro place s hs parts d h
  obtain ⟨hopen, e, hrounds, hclose, rfl⟩ := groupParts_eq_some_iff.1 h
  have hmem := (groupRounds_reads hg _ _ (hs.take _).mem _ _ hrounds).mem
  have hne := Token.ne_nil (show (Token.ofChars e.rest).1 ≠ .finish by rw [hclose]; nofun)
  exact hmem.tight_take (Token.length_ne_zero hne) hne
    (Token.not_mem_take (by rw [hclose]; nofun))

theorem groupCall_tight {callee : Node} {opening : Nat} {parts : List (Node × Bool)}
    (hc : c.Tight text) : Ensures (groupCall callee opening parts) place c fun _ c' => c'.Tight text :=
  require_step fun _ => (nodeFrom_tight hc).step fun _ _ h => nodeFrom_tight h

theorem awaited_ends (hg : g.Ending text) : Ends text (awaited g) := fun _ _ hs =>
  here_step ((keyword_takes _).step (.refl hs) fun _ _ h =>
    hg.unary.step h.mem fun _ _ h => nodeFrom_tight h)

theorem awaitedGroup_ends (hg : g.Ending text) : Ends text (awaitedGroup g) := by
  intro place s hs
  refine here_step (identifier_ends.step hs fun callee c h => here_step ?_)
  refine (groupParts_ends hg.reading).step h.toIn fun parts c h => ?_
  split
  · refine (nodeFrom_tight h).step fun group c h => ?_
    exact (postfixOf_tight hg h).step fun _ _ h => nodeFrom_tight h
  · exact (groupCall_tight h).step fun _ _ h => postfixOf_tight hg h

theorem awaitOperand_ends (hg : g.Ending text) : Ends text (awaitOperand g) := by
  have hnamed : Ends text (do postfixOf g (← identifier)) := fun _ _ hs =>
    identifier_ends.step hs fun _ _ h => postfixOf_tight hg h
  have hregex : Ends text (awaitedRegex g) := fun _ _ hs =>
    (awaited_ends hg).step hs fun _ _ h => atOperandEnd_looks.step fun _ => require_step fun _ => .pure h
  intro place s hs
  refine peekSecond_looks.step fun _ => endsBehindNext_looks.step fun _ => ?_
  split
  · exact hnamed place s hs
  · split
    · exact awaitedGroup_ends hg place s hs
    · exact (hregex.orElse hnamed) place s hs
    · exact (hregex.orElse hnamed) place s hs
    · exact ((awaited_ends hg).orElse hnamed) place s hs
    · exact ((awaited_ends hg).orElse hnamed) place s hs
    · exact awaited_ends hg place s hs

theorem unaryRule_ends (hg : g.Ending text) : Ends text (unaryRule g) := by
  intro place s hs
  refine here_step (peek_looks.step fun _ => ?_)
  split
  · refine advance_moves.step (.refl hs) fun _ c h => ?_
    exact hg.unary.step h.mem fun _ _ h => nodeFrom_tight h
  · split
    · refine advance_moves.step (.refl hs) fun _ c h => ?_
      exact hg.unary.step h.mem fun _ _ h => nodeFrom_tight h
    · split
      · exact awaitOperand_ends hg place s hs
      · split
        · exact yieldExpression_ends hg false place s hs
        · exact (newOrPrimary_ends hg).step hs fun _ _ h => postfixOf_tight hg h

theorem firstOperand_ends (hg : g.Ending text) (least : Nat) : Ends text (firstOperand g least) := by
  intro place s hs
  refine peek_eq_step fun token htoken => ?_
  split
  · next hprivate =>
      have hname : token = .privateName := eq_of_beq (Bool.and_eq_true_iff.1 hprivate).2
      refine peekSecond_looks.step fun _ => read_looks.step fun _ => require_step fun _ => ?_
      exact leaf_tight hs (by rw [htoken, hname]; nofun) (by rw [htoken, hname]; nofun)
  · exact unaryRule_ends hg place s hs

theorem joinFrom_tight {first : Node} {least : Nat} (hg : g.Ending text) (hc : c.Tight text) :
    Ensures (joinFrom g least first) place c fun _ c' => c'.Tight text := by
  have hstep : ∀ {c : Cursor} {left : Joined}, c.Tight text →
      Ensures (binaryStep g least left) place c fun _ c' => c'.Tight text := by
    intro c left hc
    refine peek_looks.step fun _ => ?_
    split
    · refine read_looks.step fun _ => ?_
      split
      · refine require_step fun _ => advance_moves.step (.refl hc.toIn) fun _ c h => ?_
        refine (hg.binary _).step h.mem fun right c h => ?_
        exact (nodeFrom_tight h).step fun _ _ h => .pure h
      · exact .pure hc
    · exact .pure hc
  exact (iterate_tight hstep hc).step fun _ _ h => .pure h

theorem binaryRule_ends (hg : g.Ending text) (least : Nat) : Ends text (binaryRule g least) := fun _ _ hs =>
  (firstOperand_ends hg least).step hs fun _ _ h => joinFrom_tight hg h

/-! ### Assignments, conditionals and arrow functions -/

theorem assignmentFrom_tight {first : Node} (hg : g.Ending text) (hc : c.Tight text) :
    Ensures (assignmentFrom g first) place c fun _ c' => c'.Tight text := by
  refine (joinFrom_tight hg hc).step fun left c h => peek_looks.step fun _ => ?_
  split
  · exact assignTo_tight hg h.toIn
  · refine tryPunctuator_step (.refl h.toIn) (fun c h => ?_) (.pure h)
    refine (hg.reading.assignment.within _).step h fun yes c h => ?_
    refine (punctuator_takes _).step h fun _ c h => ?_
    exact hg.assignment.step h.mem fun _ _ h => nodeFrom_tight h

theorem assignmentWith_tight {value : Node} (hg : g.Ending text) (hc : c.Tight text) :
    Ensures (assignmentWith g value) place c fun _ c' => c'.Tight text :=
  (postfixOf_tight hg hc).step fun _ _ h => assignmentFrom_tight hg h

theorem literalFirst_ends (hg : g.Ending text) (lenient : Bool) : Ends text (literalFirst g lenient) := by
  intro place s hs
  refine (coverLiteral_ends hg.reading).step hs fun literal c h => (atPunctuator_looks _).step fun _ => ?_
  split
  · split
    · exact assignmentFrom_tight hg h
    · exact .failure
  · refine atPartEnd_looks.step fun _ => ?_
    split
    · exact .pure h
    · exact require_step fun _ => assignmentWith_tight hg h

theorem arrowWith_tight {arrow : Node} (hg : g.Ending text) (hc : c.Tight text) :
    Ensures (arrowWith g arrow) place c fun _ c' => c'.Tight text := by
  refine (atContinuation_looks _).step fun _ => ?_
  split
  · exact assignmentWith_tight hg hc
  · exact .pure hc

theorem groupArrow_tight {start opening : Nat} {parts : List (Node × Bool)} (hg : g.Ending text)
    (hc : c.Tight text) :
    Ensures (groupArrow g start opening parts) place c fun _ c' => c'.Tight text := by
  refine require_step fun _ => ?_
  split
  · refine (nodeFrom_tight hc).step fun list c h => ?_
    exact (arrowTail_tight hg h.toIn).step fun _ _ h => arrowWith_tight hg h
  · exact .failure

theorem groupFirst_ends (hg : g.Ending text) : Ends text (groupFirst g) := by
  intro place s hs
  refine here_step ((groupParts_ends hg.reading).step hs fun parts c h => ?_)
  refine (atPunctuator_looks _).step fun _ => ?_
  split
  · exact groupArrow_tight hg h
  · split
    · exact (nodeFrom_tight h).step fun _ _ h => assignmentWith_tight hg h
    · exact .failure

theorem asyncGroupFirst_ends (hg : g.Ending text) : Ends text (asyncGroupFirst g) := by
  intro place s hs
  refine here_step (newlineBehindNext_looks.step fun _ => ?_)
  refine identifier_ends.step hs fun callee c h => here_step ?_
  refine (groupParts_ends hg.reading).step h.toIn fun parts c h => (atPunctuator_looks _).step fun _ => ?_
  split
  · exact groupArrow_tight hg h
  · exact (groupCall_tight h).step fun _ _ h => assignmentWith_tight hg h

theorem wordFirst_ends (hg : g.Ending text) (w : String) : Ends text (wordFirst g w) := by
  intro place s hs
  refine here_step (peekSecond_looks.step fun _ => ?_)
  split
  · exact (nameArrow_tight hg hs).step fun _ _ h => arrowWith_tight hg h
  · split
    · exact asyncGroupFirst_ends hg place s hs
    · refine newlineBehindNext_looks.step fun _ => ?_
      split
      · refine advance_moves.step (.refl hs) fun _ c h => ?_
        exact (nameArrow_tight hg h.mem).step fun _ _ h => arrowWith_tight hg h
      · split
        · exact (yieldExpression_ends hg true).step hs fun _ _ h => assignmentFrom_tight hg h
        · exact (unaryRule_ends hg).step hs fun _ _ h => assignmentFrom_tight hg h

theorem assignmentRule_ends (hg : g.Ending text) (lenient : Bool) :
    Ends text (assignmentRule g lenient) := by
  intro place s hs
  refine peek_looks.step fun _ => ?_
  split
  · exact wordFirst_ends hg _ place s hs
  · exact groupFirst_ends hg place s hs
  · exact literalFirst_ends hg lenient place s hs
  · exact literalFirst_ends hg lenient place s hs
  · exact (firstOperand_ends hg 1).step hs fun _ _ h => assignmentFrom_tight hg h

/-- One more level of nesting. -/
theorem Grammar.Ending.step (hg : g.Ending text) : g.step.Ending text where
  reading := hg.reading.step
  assignment := assignmentRule_ends hg false
  cover := assignmentRule_ends hg true
  binary := binaryRule_ends hg
  unary := unaryRule_ends hg
  callee := calleeRule_ends hg

theorem Grammar.Ending.ofDepth (n : Nat) : (Grammar.ofDepth n).Ending text := by
  induction n with
  | zero => exact .empty
  | succ n ih => exact ih.step

/-- The parts of a list in parentheses end behind a token, if no comma follows the last one. -/
theorem groupRounds_tight (hg : g.Ending text) (hc : c.In text) :
    Ensures (repeatUntil (atPunctuator ")") (groupRound g)) place c
      fun parts c' => parts.getLast?.map Prod.snd = some false → c'.Tight text := by
  have hround : ∀ c, c.In text → Ensures (groupRound g) place c
      fun part c' => c'.In text ∧ (part.2 = false → c'.Tight text) := by
    intro c hc
    refine (spreadOr_ends hg.cover).step hc fun part c h => (atPunctuator_looks _).step fun _ => ?_
    split
    · exact .pure ⟨h.toIn, fun _ => h⟩
    · exact (punctuator_takes _).step (.refl h.toIn) fun _ c h => .pure ⟨h.mem, nofun⟩
  -- no more parts means that the cursor stayed where the last one ended
  have hall : ∀ n c, c.In text → Ensures (repeatAtMost (atPunctuator ")") (groupRound g) n) place c
      fun parts c' => (parts = [] → c' = c) ∧
        (parts.getLast?.map Prod.snd = some false → c'.Tight text) := by
    intro n
    induction n with
    | zero => exact fun _ _ => .failure
    | succ n ih =>
        intro c hc
        refine (atPunctuator_looks _).step fun b => ?_
        split
        · exact .pure ⟨fun _ => rfl, nofun⟩
        · refine (hround c hc).step fun part c₁ h₁ => (ih c₁ h₁.1).step fun parts c₂ h₂ => .pure ⟨nofun, ?_⟩
          cases parts with
          | nil =>
              intro hlast
              rw [h₂.1 rfl]
              exact h₁.2 (by simpa using hlast)
          | cons next parts =>
              intro hlast
              exact h₂.2 (by simpa using hlast)
  exact get_step ((hall _ c hc).mono fun _ _ h => h.2)

end ReactiveTemplate.Script

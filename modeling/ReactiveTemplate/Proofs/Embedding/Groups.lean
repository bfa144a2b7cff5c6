/-
**An embedded expression is one list in parentheses.**

The text of an expression is put in parentheses and parsed as a program.  The program is accepted when
it is an expression in parentheses and nothing else.  This module follows the rules from the program
down to the list in parentheses: a value in parentheses that goes on, by an access, an operator or an
assignment, becomes a part of a node of another kind, so the one that was found ends with the list.

Main definitions:

* `ReactiveTemplate.Script.Grows` — a value that is left as it stands or becomes a part of a node that
  is no expression in parentheses;
* `ReactiveTemplate.Script.soleTree` — the tree of an expression in parentheses that is all of a text.

Main results:

* `ReactiveTemplate.Script.assignmentWith_grows` — what may follow a value;
* `ReactiveTemplate.Script.groupParts_eq_some_iff` — reading a list in parentheses;
* `ReactiveTemplate.Script.embedded?_eq_some_iff` — **a text is accepted as an expression exactly when
  it is read as a list in parentheses up to its end, and the list makes an expression**.
-/

import ReactiveTemplate.Proofs.Extents.Statements
import ReactiveTemplate.Script.Embedded

set_option relaxedAutoImplicit false
set_option autoImplicit false

namespace ReactiveTemplate.Script

open Node

variable {α β : Type} {g : Grammar} {place : Place} {c d : Cursor}

/-! ### Running parsers -/

theorem bind_apply (p : Parser α) (f : α → Parser β) (place : Place) (c : Cursor) :
    (p >>= f) place c = (p place c).bind fun r => f r.1 place r.2 := rfl

@[simp] theorem peek_bind (f : Token → Parser β) (place : Place) (c : Cursor) :
    (peek >>= f) place c = f (Token.ofChars c.rest).1 place c := rfl

@[simp] theorem here_bind (f : Nat → Parser β) (place : Place) (c : Cursor) :
    (here >>= f) place c = f c.pos place c := rfl

@[simp] theorem atPunctuator_bind (w : String) (f : Bool → Parser β) (place : Place) (c : Cursor) :
    (atPunctuator w >>= f) place c = f ((Token.ofChars c.rest).1 == .punctuator w) place c := rfl

theorem pure_apply (a : α) (place : Place) (c : Cursor) : (pure a : Parser α) place c = some (a, c) := rfl

theorem peekSecond_bind (f : Token → Parser β) (place : Place) (c : Cursor) :
    (peekSecond >>= f) place c = f (Token.ofChars (c.take (Token.ofChars c.rest).2).rest).1 place c := rfl

theorem newlineBehindNext_bind (f : Bool → Parser β) (place : Place) (c : Cursor) :
    (newlineBehindNext >>= f) place c = f (c.take (Token.ofChars c.rest).2).newline place c := rfl

theorem bind_eq_some_iff {p : Parser α} {f : α → Parser β} {r : β × Cursor} :
    (p >>= f) place c = some r ↔ ∃ a d, p place c = some (a, d) ∧ f a place d = some r := by
  rw [bind_apply, Option.bind_eq_some_iff]
  exact ⟨fun ⟨x, hx, hf⟩ => ⟨x.1, x.2, hx, hf⟩, fun ⟨a, d, ha, hf⟩ => ⟨(a, d), ha, hf⟩⟩

/-- A punctuator is taken where it stands. -/
theorem punctuator_eq_some_iff {w : String} {u : Unit} :
    punctuator w place c = some (u, d) ↔
      (Token.ofChars c.rest).1 = .punctuator w ∧ d = c.take (Token.ofChars c.rest).2 := by
  have hrun : punctuator w place c =
      (if ((Token.ofChars c.rest).1 == .punctuator w) = true then
        some ((), c.take (Token.ofChars c.rest).2) else none) := by
    unfold punctuator
    rw [atPunctuator_bind, require]
    split <;> rfl
  rw [hrun]
  split
  · next h => simp [eq_of_beq h, eq_comm]
  · next h =>
      have hne : (Token.ofChars c.rest).1 ≠ .punctuator w := fun heq => h (by simp [heq])
      simp [hne]

/-- The first round of a repetition whose end is not reached. -/
theorem repeatUntil_first {done : Parser Bool} {p : Parser α} {xs : List α}
    (hdone : done place c = some (false, c)) (h : repeatUntil done p place c = some (xs, d)) :
    ∃ x e rest, p place c = some (x, e) ∧ xs = x :: rest := by
  have hrun : repeatUntil done p place c = repeatAtMost done p (c.rest.length + 1) place c := rfl
  rw [hrun, repeatAtMost, bind_apply, hdone, Option.bind_some] at h
  simp only [Bool.false_eq_true, if_false] at h
  obtain ⟨x, e, hx, h⟩ := bind_eq_some_iff.1 h
  obtain ⟨rest, e', -, h⟩ := bind_eq_some_iff.1 h
  cases h
  exact ⟨x, e, rest, hx, rfl⟩

/-- No round is run where the end is reached. -/
theorem repeatUntil_none {done : Parser Bool} {p : Parser α} (hdone : done place c = some (true, c)) :
    repeatUntil done p place c = some ([], c) := by
  have hrun : repeatUntil done p place c = repeatAtMost done p (c.rest.length + 1) place c := rfl
  rw [hrun, repeatAtMost, bind_apply, hdone]
  rfl

/-- One round that reaches the end. -/
theorem repeatUntil_once {done : Parser Bool} {p : Parser α} {x : α} (hdone : done place c = some (false, c))
    (hp : p place c = some (x, d)) (hlast : done place d = some (true, d)) (hrest : c.rest ≠ []) :
    repeatUntil done p place c = some ([x], d) := by
  have hrun : repeatUntil done p place c = repeatAtMost done p (c.rest.length + 1) place c := rfl
  obtain ⟨n, hn⟩ := Nat.exists_eq_succ_of_ne_zero (mt List.length_eq_zero_iff.1 hrest)
  rw [hrun, hn, repeatAtMost, bind_apply, hdone, Option.bind_some]
  simp only [Bool.false_eq_true, if_false]
  rw [bind_apply, hp, Option.bind_some, bind_apply, repeatAtMost, bind_apply, hlast]
  rfl

/-! ### Values that go on -/

/-- A value is left as it stands, or becomes a part of a node that is no expression in parentheses. -/
def Grows (value : Node) (c : Cursor) (n : Node) (c' : Cursor) : Prop :=
  (n = value ∧ c' = c) ∨ n.kind ≠ .parenthesizedExpression

namespace Grows

variable {value n m : Node} {c' c'' : Cursor}

theorem refl (value : Node) (c : Cursor) : Grows value c value c := .inl ⟨rfl, rfl⟩

theorem trans (h : Grows value c n c') (h' : Grows n c' m c'') : Grows value c m c'' := by
  rcases h' with ⟨rfl, rfl⟩ | h'
  · exact h
  · exact .inr h'

end Grows

theorem nodeFrom_ensures {kind : Kind} {start : Nat} {cs : List Node} :
    Ensures (nodeFrom kind start cs) place c
      fun n c' => n = .mk kind .plain start c.stop 0 cs ∧ c' = c := by
  rintro _ _ ⟨⟩
  exact ⟨rfl, rfl⟩

theorem nodeFrom_kind {kind : Kind} {start : Nat} {cs : List Node} :
    Ensures (nodeFrom kind start cs) place c fun n _ => n.kind = kind :=
  nodeFrom_ensures.mono fun n _ h => by rw [h.1]; rfl

/-- A node of another kind is no expression in parentheses. -/
theorem nodeFrom_grows {value : Node} {kind : Kind} {start : Nat} {cs : List Node}
    (hkind : kind ≠ .parenthesizedExpression) :
    Ensures (nodeFrom kind start cs) place c fun n c' => Grows value d n c' :=
  nodeFrom_kind.mono fun _ _ h => .inr (h ▸ hkind)

/-- What a parser gives does not matter for what follows. -/
theorem Ensures.any {p : Parser α} {f : α → Parser β} {Q : β → Cursor → Prop}
    (hf : ∀ a c', Ensures (f a) place c' Q) : Ensures (p >>= f) place c Q :=
  .bind fun a c' _ => hf a c'

/-- A step gives nothing and stays, or gives a node that is no expression in parentheses. -/
def StepGrows (node : α → Node) (y : Option α) (c c' : Cursor) : Prop :=
  (y = none ∧ c' = c) ∨ ∃ z, y = some z ∧ (node z).kind ≠ .parenthesizedExpression

theorem iterateAtMost_grows {step : α → Parser (Option α)} {node : α → Node}
    (hstep : ∀ c x, Ensures (step x) place c fun y c' => StepGrows node y c c') (n : Nat) :
    ∀ c x, Ensures (iterateAtMost step n x) place c fun y c' => Grows (node x) c (node y) c' := by
  induction n with
  | zero => exact fun c x => .pure (.refl _ _)
  | succ n ih =>
      intro c x
      refine (hstep c x).step fun y c' h => ?_
      rcases h with ⟨rfl, rfl⟩ | ⟨z, rfl, hz⟩
      · exact .pure (.refl _ _)
      · exact (ih c' z).mono fun y c'' h => Grows.trans (.inr hz) h

theorem iterate_grows {step : α → Parser (Option α)} (node : α → Node)
    (hstep : ∀ c x, Ensures (step x) place c fun y c' => StepGrows node y c c') (x : α) :
    Ensures (iterate step x) place c fun y c' => Grows (node x) c (node y) c' :=
  get_step (iterateAtMost_grows hstep _ c x)

/-- A step that ends with a node of another kind. -/
theorem someNode_grows {kind : Kind} {start : Nat} {cs : List Node}
    (hkind : kind ≠ .parenthesizedExpression) :
    Ensures (do return some (← nodeFrom kind start cs)) place c
      fun y c' => StepGrows (fun n => n) y d c' :=
  nodeFrom_kind.step fun n _ h => .pure (.inr ⟨n, rfl, h ▸ hkind⟩)

theorem optionalAccess_grows (object : Node) :
    Ensures (optionalAccess g object) place c fun n _ => n.kind ≠ .parenthesizedExpression := by
  have hnode : ∀ {kind : Kind} {start cs c}, kind ≠ .parenthesizedExpression →
      Ensures (nodeFrom kind start cs) place c fun n _ => n.kind ≠ .parenthesizedExpression :=
    fun hkind => nodeFrom_kind.mono fun _ _ h => h ▸ hkind
  refine .any fun chain c => (atPunctuator_looks _).step fun _ => ?_
  split
  · exact .any fun _ c => hnode (by decide)
  · refine (atPunctuator_looks _).step fun _ => ?_
    split
    · exact .any fun _ c => hnode (by decide)
    · exact .any fun _ c => hnode (by decide)

/-- An access or call makes a node of another kind. -/
theorem accessStep_grows (calls : Bool) (object : Node) :
    Ensures (accessStep g calls object) place c fun y c' => StepGrows (fun n => n) y c c' := by
  refine peek_looks.step fun _ => ?_
  split
  · exact .any fun _ _ => .any fun _ _ => someNode_grows (by decide)
  · exact .any fun _ _ => someNode_grows (by decide)
  · exact .any fun _ _ => someNode_grows (by decide)
  · refine .any fun _ c' => (optionalAccess_grows object).step fun n c'' h => ?_
    exact .pure (.inr ⟨n, rfl, h⟩)
  · split
    · split
      · exact .any fun _ _ => someNode_grows (by decide)
      · exact .any fun _ _ => someNode_grows (by decide)
    · exact .pure (.inl ⟨rfl, rfl⟩)
  · exact .pure (.inl ⟨rfl, rfl⟩)

theorem assignmentKind?_ne {left : Node} {token : Token} {kind : Kind}
    (h : assignmentKind? left token = some kind) : kind ≠ .parenthesizedExpression := by
  unfold assignmentKind? at h
  split at h
  · cases h
  · split at h
    · cases h; decide
    · split at h
      · cases h; decide
      · cases h

theorem assignTo_grows {left value : Node} {kind : Kind} (hkind : kind ≠ .parenthesizedExpression) :
    Ensures (assignTo g left kind) place c fun n c' => Grows value d n c' :=
  .any fun _ _ => .any fun _ _ => nodeFrom_grows hkind

/-- An operator that counts makes a node of another kind. -/
theorem updateStep_grows (operand : Node × Bool) :
    Ensures (updateStep g operand) place c fun y c' => StepGrows Prod.fst y c c' := by
  refine peek_looks.step fun _ => newlineAhead_looks.step fun _ => ?_
  split
  · refine .any fun _ c₁ => nodeFrom_kind.step fun update c₂ hupdate => ?_
    have hkind : update.kind ≠ .parenthesizedExpression := by rw [hupdate]; decide
    refine (atContinuation_looks _).step fun _ => ?_
    split
    · refine (iterate_grows _ (fun _ x => accessStep_grows true x) update).step
        fun accessed c₃ haccessed => ?_
      have haccessed : accessed.kind ≠ .parenthesizedExpression := by
        rcases haccessed with ⟨rfl, -⟩ | h
        · exact hkind
        · exact h
      refine peek_looks.step fun _ => ?_
      split
      · next kind hassigned =>
          have hassign : Ensures (assignTo g accessed kind) place c₃ fun n _ => n.kind = kind :=
            .any fun _ _ => .any fun _ _ => nodeFrom_kind
          refine hassign.step fun n c₄ hn => .pure (.inr ⟨_, rfl, ?_⟩)
          exact hn ▸ assignmentKind?_ne hassigned
      · exact .pure (.inr ⟨_, rfl, haccessed⟩)
    · exact .pure (.inr ⟨_, rfl, hkind⟩)
  · exact .pure (.inl ⟨rfl, rfl⟩)

theorem postfixOf_grows (value : Node) :
    Ensures (postfixOf g value) place c fun n c' => Grows value c n c' := by
  refine (iterate_grows _ (fun _ x => accessStep_grows true x) value).step fun operand c₁ h₁ => ?_
  refine (iterate_grows _ (fun _ x => updateStep_grows x) (operand, true)).step fun r c₂ h₂ => ?_
  exact .pure (h₁.trans h₂)

/-- An operator with two operands makes a node of another kind. -/
theorem binaryStep_grows (least : Nat) (left : Joined) :
    Ensures (binaryStep g least left) place c fun y c' => StepGrows Joined.node y c c' := by
  refine peek_looks.step fun _ => ?_
  split
  · refine read_looks.step fun _ => ?_
    split
    · refine .any fun _ _ => .any fun _ _ => .any fun _ _ => nodeFrom_kind.step fun n _ hn => ?_
      have hkind : n.kind ≠ .parenthesizedExpression := by rw [hn]; decide
      exact .pure (.inr ⟨_, rfl, hkind⟩)
    · exact .pure (.inl ⟨rfl, rfl⟩)
  · exact .pure (.inl ⟨rfl, rfl⟩)

theorem joinFrom_grows (least : Nat) (first : Node) :
    Ensures (joinFrom g least first) place c fun n c' => Grows first c n c' :=
  (iterate_grows _ (fun _ x => binaryStep_grows least x) ⟨first, 0⟩).step fun _ _ h => .pure h

theorem assignmentFrom_grows (first : Node) :
    Ensures (assignmentFrom g first) place c fun n c' => Grows first c n c' := by
  refine (joinFrom_grows 1 first).step fun left c₁ h => peek_looks.step fun _ => ?_
  split
  · next hkind => exact assignTo_grows (assignmentKind?_ne hkind)
  · -- without a question mark nothing is taken
    refine .bind ((atPunctuator_looks _).step fun b => ?_)
    cases b with
    | true =>
        refine .any fun _ _ => .pure ?_
        exact .any fun _ _ => .any fun _ _ => .any fun _ _ => nodeFrom_grows (by decide)
    | false => exact .pure (.pure h)

/-- What follows a value: it is left as it stands, or becomes a part of a node of another kind. -/
theorem assignmentWith_grows (value : Node) :
    Ensures (assignmentWith g value) place c fun n c' => Grows value c n c' :=
  (postfixOf_grows value).step fun first _ h =>
    (assignmentFrom_grows first).mono fun _ _ h' => h.trans h'

theorem arrowTail_kind (start : Nat) (parameters : Node) :
    Ensures (arrowTail g start parameters) place c fun n _ => n.kind = .arrowFunction := by
  refine newlineAhead_looks.step fun _ => .any fun _ _ => .any fun _ _ => ?_
  refine (atPunctuator_looks _).step fun _ => ?_
  split
  · exact .any fun _ _ => nodeFrom_kind
  · exact .any fun _ _ => nodeFrom_kind

theorem groupArrow_kind (start opening : Nat) (parts : List (Node × Bool)) :
    Ensures (groupArrow g start opening parts) place c
      fun n _ => n.kind ≠ .parenthesizedExpression := by
  refine .any fun _ _ => ?_
  split
  · refine .any fun list _ => (arrowTail_kind start _).step fun arrow c₁ harrow => ?_
    have hkind : arrow.kind ≠ .parenthesizedExpression := by rw [harrow]; decide
    refine (atContinuation_looks _).step fun _ => ?_
    split
    · refine (assignmentWith_grows arrow).mono fun n _ h => ?_
      rcases h with ⟨rfl, -⟩ | h
      · exact hkind
      · exact h
    · exact .pure hkind
  · exact .failure

/-! ### Lists in parentheses -/

theorem spreadOr_of_ne {p : Parser Node} (h : (Token.ofChars c.rest).1 ≠ .punctuator "...") :
    spreadOr p place c = p place c := by
  unfold spreadOr tryPunctuator
  rw [here_bind, bind_apply, atPunctuator_bind, beq_eq_false_iff_ne.2 h]
  rfl

/-- A list in parentheses is read from its opening parenthesis on, part by part, and the closing one is
taken. -/
theorem groupParts_eq_some_iff {parts : List (Node × Bool)} :
    groupParts g place c = some (parts, d) ↔
      (Token.ofChars c.rest).1 = .punctuator "(" ∧
      ∃ e, repeatUntil (atPunctuator ")") (groupRound g) .enclosed
          (c.take (Token.ofChars c.rest).2) = some (parts, e) ∧
        (Token.ofChars e.rest).1 = .punctuator ")" ∧ d = e.take (Token.ofChars e.rest).2 := by
  have hrun : groupParts g = (do
      punctuator "("
      let parts ← within .enclosed (repeatUntil (atPunctuator ")") (groupRound g))
      punctuator ")"
      return parts) := rfl
  rw [hrun, bind_eq_some_iff]
  constructor
  · rintro ⟨_, c₁, hopen, h⟩
    obtain ⟨hparen, rfl⟩ := punctuator_eq_some_iff.1 hopen
    obtain ⟨parts', e, hparts, h⟩ := bind_eq_some_iff.1 h
    obtain ⟨_, d', hclose, h⟩ := bind_eq_some_iff.1 h
    obtain ⟨hclosed, rfl⟩ := punctuator_eq_some_iff.1 hclose
    cases h
    exact ⟨hparen, e, hparts, hclosed, rfl⟩
  · rintro ⟨hparen, e, hparts, hclosed, rfl⟩
    refine ⟨(), _, punctuator_eq_some_iff.2 ⟨hparen, rfl⟩, ?_⟩
    refine bind_eq_some_iff.2 ⟨parts, e, hparts, ?_⟩
    exact bind_eq_some_iff.2 ⟨(), _, punctuator_eq_some_iff.2 ⟨hclosed, rfl⟩, rfl⟩

/-- An expression in parentheses that starts with a list is that list. -/
theorem groupFirst_cases :
    Ensures (groupFirst g) place c fun n c' => n.kind = .parenthesizedExpression →
      ∃ parts inner, groupParts g place c = some (parts, c') ∧ groupValue? parts = some inner ∧
        n = .mk .parenthesizedExpression .plain c.pos c'.stop 0 [inner] := by
  refine here_step (.bind fun parts c₁ hparts => (atPunctuator_looks _).step fun _ => ?_)
  split
  · exact (groupArrow_kind _ _ _).mono fun n _ h hkind => absurd hkind h
  · split
    · next inner hinner =>
        refine nodeFrom_ensures.step fun group c₂ hgroup => ?_
        obtain ⟨rfl, rfl⟩ := hgroup
        refine (assignmentWith_grows _).mono fun n c₃ h hkind => ?_
        rcases h with ⟨rfl, rfl⟩ | h
        · exact ⟨parts, inner, hparts, hinner, rfl⟩
        · exact absurd hkind h
    · exact .failure

/-- A comma makes a sequence, which is no expression in parentheses. -/
theorem expressionRule_cases :
    Ensures (expressionRule g) place c fun n c' => n.kind = .parenthesizedExpression →
      g.assignment place c = some (n, c') := by
  refine here_step (.bind fun first c₁ hfirst => (atPunctuator_looks _).step fun _ => ?_)
  split
  · refine .any fun _ _ => nodeFrom_kind.mono fun n _ h hkind => ?_
    rw [h] at hkind
    cases hkind
  · exact .pure fun _ => hfirst

/-! ### The rules above a list in parentheses -/

theorem digitsLength_eq_zero {digit : Char → Bool} {x : Char} (h : digit x = false) (cs : List Char) :
    digitsLength digit (x :: cs) = 0 := by
  unfold digitsLength
  split <;> simp_all

/-- A number starts with a digit or a point. -/
theorem numberLength_eq_zero {x : Char} (hx : isDecimal x = false) (hdot : x ≠ '.') (cs : List Char) :
    numberLength (x :: cs) = 0 := by
  have hzero : x ≠ '0' := by
    rintro rfl
    exact absurd hx (by decide)
  have hradix : radixLength (x :: cs) = 0 := by
    unfold radixLength
    split
    · next heq => exact absurd (List.cons.inj heq).1 hzero
    · rfl
  have hdecimal : decimalLength (x :: cs) = 0 := by
    unfold decimalLength
    split
    · next heq => exact absurd (List.cons.inj heq).1 hzero
    · rw [digitsLength_eq_zero hx]
      unfold fractionLength
      split
      · next heq => exact absurd (List.cons.inj heq).1 hdot
      · simp
  simp [numberLength, hradix, hdecimal]

/-- Characters that open neither a word, nor a number, nor a literal. -/
def isMark (x : Char) : Bool :=
  !(isNameStart x || x == '\\' || isDecimal x || x == '.' || x == '"' || x == '\'' || x == '\x60' ||
    x == '#')

/-- Such a character starts a punctuator, or no token at all. -/
theorem Token.ofChars_mark {x : Char} (h : isMark x = true) (cs : List Char) :
    Token.ofChars (x :: cs) =
      (punctuator? (x :: cs)).elim (.stray, 1) fun p => (.punctuator p.1, p.2) := by
  simp only [isMark, Bool.not_eq_true', Bool.or_eq_false_iff, beq_eq_false_iff_ne] at h
  obtain ⟨⟨⟨⟨⟨⟨⟨hname, hslash⟩, hdecimal⟩, hdot⟩, hquote⟩, hsingle⟩, hback⟩, hsign⟩ := h
  have hword : wordLength (x :: cs) = 0 := by simp [wordLength, hname, hslash]
  cases hp : punctuator? (x :: cs) <;>
    simp [Token.ofChars, hword, numberLength_eq_zero hdecimal hdot, hquote, hsingle, hback, hsign, hp]

/-- A mark with which only one punctuator starts, and that is the mark alone. -/
theorem Token.ofChars_sole {x : Char} {w : String} (hx : isMark x = true) (hquestion : x ≠ '?')
    (hmem : (w, [x]) ∈ punctuators) (hsole : ∀ p ∈ punctuators, p.2.head? = some x → p = (w, [x]))
    (cs : List Char) : Token.ofChars (x :: cs) = (.punctuator w, 1) := by
  have hnil : ∀ p ∈ punctuators, p.2 ≠ [] := by decide +kernel
  have hp : punctuator? (x :: cs) = some (w, 1) := by
    unfold punctuator?
    split
    · next heq => exact absurd (List.cons.inj heq).1 hquestion
    · have hsome : (punctuators.find? fun p => p.2.isPrefixOf (x :: cs)).isSome = true :=
        List.find?_isSome.2 ⟨_, hmem, by simp⟩
      obtain ⟨p, hfound⟩ := Option.isSome_iff_exists.1 hsome
      have hin := List.mem_of_find?_eq_some hfound
      have hhead : p.2.head? = some x := by
        have hstart := List.find?_some hfound
        cases hchars : p.2 with
        | nil => exact absurd hchars (hnil p hin)
        | cons y ys =>
            rw [hchars, List.isPrefixOf_cons_cons, Bool.and_eq_true, beq_iff_eq] at hstart
            rw [List.head?_cons, hstart.1]
      rw [hfound, hsole p hin hhead]
      rfl
  rw [Token.ofChars_mark hx, hp]
  rfl

theorem Token.ofChars_opening (cs : List Char) : Token.ofChars ('(' :: cs) = (.punctuator "(", 1) :=
  Token.ofChars_sole (by decide) (by decide) (by decide +kernel) (by decide +kernel) cs

theorem Token.ofChars_closing (cs : List Char) : Token.ofChars (')' :: cs) = (.punctuator ")", 1) :=
  Token.ofChars_sole (by decide) (by decide) (by decide +kernel) (by decide +kernel) cs

theorem Token.ofChars_brace (cs : List Char) : Token.ofChars ('}' :: cs) = (.punctuator "\x7d", 1) :=
  Token.ofChars_sole (by decide) (by decide) (by decide +kernel) (by decide +kernel) cs

section Opening

variable (hopen : (Token.ofChars c.rest).1 = .punctuator "(")

include hopen

theorem assignmentRule_opening (lenient : Bool) :
    assignmentRule g lenient place c = groupFirst g place c := by
  unfold assignmentRule
  rw [peek_bind, hopen]
  rfl

theorem statementRule_opening : statementRule g place c = expressionStatement g .statement c := by
  unfold statementRule within
  rw [peek_bind, hopen]
  rfl

theorem itemRule_opening : itemRule g place c = expressionStatement g .statement c := by
  unfold itemRule within
  rw [peek_bind, hopen]
  exact statementRule_opening hopen

end Opening

/-! ### Where a value ends -/

/-- Whether no operand that stands before a token goes on with it. -/
def Token.stopsValue : Token → Bool
  | .word w => w != "in" && w != "instanceof"
  | .punctuator p => [")", "]", "\x7d", ",", ";", ":"].contains p
  | .backtick => false
  | _ => true

theorem Token.eq_of_stopsValue {p : String} (h : (Token.punctuator p).stopsValue = true) :
    p = ")" ∨ p = "]" ∨ p = "\x7d" ∨ p = "," ∨ p = ";" ∨ p = ":" := by
  simpa [Token.stopsValue] using h

theorem iterate_none {step : α → Parser (Option α)} {x : α}
    (hstep : step x place c = some (none, c)) : iterate step x place c = some (x, c) := by
  have hrun : iterate step x place c = iterateAtMost step (c.rest.length + 1) x place c := rfl
  rw [hrun, iterateAtMost, bind_apply, hstep]
  rfl

section Stop

variable (hstop : (Token.ofChars c.rest).1.stopsValue = true)

include hstop

theorem accessStep_stop (calls : Bool) (object : Node) :
    accessStep g calls object place c = some (none, c) := by
  unfold accessStep
  rw [peek_bind]
  cases ht : (Token.ofChars c.rest).1 with
  | punctuator p =>
      rcases Token.eq_of_stopsValue (ht ▸ hstop) with rfl | rfl | rfl | rfl | rfl | rfl <;> rfl
  | backtick => exact absurd (ht ▸ hstop) (by decide)
  | _ => rfl

theorem updateStep_stop (operand : Node × Bool) : updateStep g operand place c = some (none, c) := by
  have hupdate : isUpdateOperator (Token.ofChars c.rest).1 = false := by
    cases ht : (Token.ofChars c.rest).1 with
    | punctuator p =>
        rcases Token.eq_of_stopsValue (ht ▸ hstop) with rfl | rfl | rfl | rfl | rfl | rfl <;> rfl
    | _ => rfl
  unfold updateStep
  rw [peek_bind, hupdate]
  simp only [Bool.and_false, Bool.false_and]
  rfl

theorem binaryStep_stop (least : Nat) (left : Joined) : binaryStep g least left place c = some (none, c) := by
  have hlevel : binaryLevel? (Token.ofChars c.rest).1 = none := by
    cases ht : (Token.ofChars c.rest).1 with
    | word w =>
        rw [ht] at hstop
        have hw : w ≠ "in" ∧ w ≠ "instanceof" := by simpa [Token.stopsValue] using hstop
        simp [binaryLevel?, hw.1, hw.2]
    | punctuator p =>
        rcases Token.eq_of_stopsValue (ht ▸ hstop) with rfl | rfl | rfl | rfl | rfl | rfl <;> rfl
    | _ => rfl
  unfold binaryStep
  rw [peek_bind, hlevel]
  rfl

theorem postfixOf_stop (value : Node) : postfixOf g value place c = some (value, c) := by
  unfold postfixOf
  rw [bind_apply, iterate_none (accessStep_stop hstop true value), Option.bind_some, bind_apply,
    iterate_none (updateStep_stop hstop _)]
  rfl

theorem assignmentFrom_stop (first : Node) : assignmentFrom g first place c = some (first, c) := by
  have hjoin : joinFrom g 1 first place c = some (first, c) := by
    unfold joinFrom
    rw [bind_apply, iterate_none (binaryStep_stop hstop 1 _)]
    rfl
  have hsigns : assignmentKind? first (Token.ofChars c.rest).1 = none ∧
      ((Token.ofChars c.rest).1 == .punctuator "?") = false := by
    cases ht : (Token.ofChars c.rest).1 with
    | punctuator p =>
        unfold assignmentKind?
        rcases Token.eq_of_stopsValue (ht ▸ hstop) with rfl | rfl | rfl | rfl | rfl | rfl <;>
          exact ⟨by split <;> rfl, rfl⟩
    | _ =>
        unfold assignmentKind?
        exact ⟨by split <;> rfl, rfl⟩
  unfold assignmentFrom
  rw [bind_apply, hjoin, Option.bind_some, peek_bind]
  simp only [hsigns.1]
  unfold tryPunctuator
  rw [bind_apply, atPunctuator_bind, hsigns.2]
  rfl

/-- Nothing goes on with a value before such a token. -/
theorem assignmentWith_stop (value : Node) : assignmentWith g value place c = some (value, c) := by
  unfold assignmentWith
  rw [bind_apply, postfixOf_stop hstop, Option.bind_some, assignmentFrom_stop hstop]

end Stop

section Finish

variable (hend : c.rest = [])

include hend

theorem semicolon_finish (operator : Bool) : semicolon operator place c = some ((), c) := by
  have hline : atLineStart place c = some (true, c) := by
    unfold atLineStart
    rw [peek_bind, hend]
    rfl
  have htry : tryPunctuator ";" place c = some (false, c) := by
    unfold tryPunctuator
    rw [atPunctuator_bind, hend]
    rfl
  unfold semicolon
  rw [bind_apply]
  cases hb : place.lineEnds && c.endsStatement operator with
  | true =>
      have hat : atStatementEnd operator place c = some (true, c) := by rw [← hb]; rfl
      rw [hat]
      rfl
  | false =>
      have hat : atStatementEnd operator place c = some (false, c) := by rw [← hb]; rfl
      rw [hat, Option.bind_some]
      simp only [Bool.not_false, if_true]
      rw [bind_apply, htry, Option.bind_some]
      simp only [Bool.not_false, if_true]
      rw [bind_apply, hline]
      rfl

end Finish

/-! ### Numbered trees -/

namespace Node

theorem kind_numberFrom (n : Node) (next : Nat) : (n.numberFrom next).1.kind = n.kind := by
  cases n
  rfl

theorem start_numberFrom (n : Node) (next : Nat) : (n.numberFrom next).1.start = n.start := by
  cases n
  rfl

theorem stop_numberFrom (n : Node) (next : Nat) : (n.numberFrom next).1.stop = n.stop := by
  cases n
  rfl

theorem children_numberFrom (n : Node) (next : Nat) :
    (n.numberFrom next).1.children = (numberAllFrom (next + 1) n.children).1 := by
  cases n
  rfl

/-- A single tree is numbered as a single tree. -/
theorem numberAllFrom_eq_singleton {next : Nat} {cs : List Node} {n : Node}
    (h : (numberAllFrom next cs).1 = [n]) : ∃ c, cs = [c] ∧ n = (c.numberFrom next).1 := by
  match cs with
  | [] => cases h
  | [c] => exact ⟨c, rfl, (List.singleton_inj.1 h).symm⟩
  | c :: c' :: cs => simp [numberAllFrom] at h

end Node

/-! ### The whole text -/

/-- The tree of a text that is nothing but an expression in parentheses. -/
def soleTree (size : Nat) (inner : Node) : Node :=
  .mk .program .plain 0 size 0
    [.mk .expressionStatement .plain 0 size 0
      [.mk .parenthesizedExpression .plain 0 size 0 [inner]]]

/-- The record that reads the list in parentheses of a text. -/
def innerGrammar (slice : List Char) : Grammar :=
  .ofDepth (depthOf slice + 10)

variable {slice : List Char} {offset : Nat} {e : Embedded}

/-- Two levels above the list in parentheses, the program is read. -/
theorem ofDepth_wrapped (slice : List Char) :
    Grammar.ofDepth (depthOf (wrapped slice)) = (innerGrammar slice).step.step := by
  have hdepth : depthOf (wrapped slice) = depthOf slice + 10 + 1 + 1 := by
    simp only [depthOf, wrapped, List.length_cons, List.length_append, List.length_nil]
    omega
  rw [hdepth]
  rfl

theorem ofText_wrapped (slice : List Char) :
    Cursor.ofText (wrapped slice) = ⟨⟨wrapped slice, 0, false, []⟩, 0, wrapped slice⟩ := rfl

theorem opening_ofText_wrapped (slice : List Char) :
    (Token.ofChars (Cursor.ofText (wrapped slice)).rest).1 = .punctuator "(" := by
  rw [ofText_wrapped, wrapped, Token.ofChars_opening]

/-- Where the last token ends with the text, nothing is left. -/
theorem Cursor.In.rest_eq_nil {text : List Char} (h : c.In text)
    (hstop : c.stop = Text.byteLength text) : c.rest = [] := by
  obtain ⟨before, htext, hpos⟩ := h.restAt
  have hle := h.stop_le_pos
  rw [htext, Text.byteLength_append] at hstop
  by_cases hnil : c.rest = []
  · exact hnil
  · have := Text.byteLength_pos hnil
    omega

/-- A list in parentheses up to the end of the text makes the whole program. -/
theorem parseProgram?_of_group {parts : List (Node × Bool)} {inner : Node}
    (hparts : groupParts (innerGrammar slice) .statement (.ofText (wrapped slice)) = some (parts, c))
    (hstop : c.stop = Text.byteLength (wrapped slice)) (hinner : groupValue? parts = some inner) :
    parseProgram? (wrapped slice) =
      some (soleTree (Text.byteLength (wrapped slice)) inner).number := by
  have hpassage := groupParts_reads (.ofDepth _) _ _ (Cursor.In.ofText (wrapped slice)) _ _ hparts
  have hend : c.rest = [] := hpassage.mem.rest_eq_nil hstop
  have hopen := opening_ofText_wrapped slice
  generalize hg : innerGrammar slice = g at hparts
  generalize hs : Cursor.ofText (wrapped slice) = s at hparts hopen
  have hstart : s.pos = 0 := by rw [← hs]; rfl
  have hgroup : groupFirst g .statement s =
      some (.mk .parenthesizedExpression .plain 0 c.stop 0 [inner], c) := by
    have harrow : ((Token.ofChars c.rest).1 == .punctuator "=>") = false := by rw [hend]; rfl
    unfold groupFirst
    rw [here_bind, bind_apply, hparts, Option.bind_some, atPunctuator_bind, harrow, hstart, hinner]
    exact assignmentWith_stop (by rw [hend]; rfl) _
  have hexpression : g.step.step.expression .statement s =
      some (.mk .parenthesizedExpression .plain 0 c.stop 0 [inner], c) := by
    change expressionRule g.step .statement s = _
    have hfirst : g.step.assignment .statement s = _ := (assignmentRule_opening hopen false).trans hgroup
    unfold expressionRule
    rw [here_bind, bind_apply, hfirst, Option.bind_some, atPunctuator_bind, hend]
    rfl
  have hitem : itemRule g.step.step .statement s = some (.mk .expressionStatement .plain 0 c.stop 0
      [.mk .parenthesizedExpression .plain 0 c.stop 0 [inner]], c) := by
    rw [itemRule_opening hopen]
    unfold expressionStatement
    rw [here_bind, bind_apply, hexpression, Option.bind_some, bind_apply, semicolon_finish hend, hstart]
    rfl
  -- the first round reads the statement, and the second one finds the end
  have hrounds : repeatUntil (do return (← peek) == .finish) (itemRule g.step.step) .statement s =
      some ([.mk .expressionStatement .plain 0 c.stop 0
        [.mk .parenthesizedExpression .plain 0 c.stop 0 [inner]]], c) := by
    refine repeatUntil_once ?_ hitem ?_ (by rw [← hs, ofText_wrapped]; simp [wrapped])
    · rw [peek_bind, hopen]
      rfl
    · rw [peek_bind, hend]
      rfl
  have hprogram : programRule g.step.step (Text.byteLength (wrapped slice)) .statement s =
      some (soleTree (Text.byteLength (wrapped slice)) inner, c) := by
    unfold programRule
    rw [here_bind, bind_apply, hrounds, hstart, hstop]
    rfl
  rw [parseProgram?, ofDepth_wrapped, hg, hs]
  simp only [ReaderT.run, StateT.run, hprogram, Option.map_some]

/-- The program that is one expression in parentheses: the statement, the parentheses and what they
hold. -/
theorem onlyExpression?_eq_some_iff {size : Nat} {program node : Node} :
    onlyExpression? size program = some node ↔
      ∃ statement outer, program.children = [statement] ∧ statement.kind = .expressionStatement ∧
        statement.children = [outer] ∧ outer.kind = .parenthesizedExpression ∧ outer.start = 0 ∧
        outer.stop = size ∧ outer.children = [node] := by
  unfold onlyExpression?
  constructor
  · intro h
    split at h
    · next statement hstatement =>
        split at h
        · next hkind =>
            split at h
            · next outer houter =>
                split at h
                · next hextent =>
                    split at h
                    · next inner hinner =>
                        cases h
                        simp only [Bool.and_eq_true, beq_iff_eq] at hkind hextent
                        exact ⟨statement, outer, hstatement, hkind, houter, hextent.1.1, hextent.1.2,
                          hextent.2, hinner⟩
                    · cases h
                · cases h
            · cases h
        · cases h
    · cases h
  · rintro ⟨statement, outer, hstatement, hkind, houter, houterKind, hstart, hstop, hinner⟩
    simp [hstatement, hkind, houter, houterKind, hstart, hstop, hinner]

/-- The expression that is found in the tree of a text is what the list in parentheses makes. -/
theorem exists_group_of_onlyExpression? {root node : Node}
    (hroot : parseProgram? (wrapped slice) = some root)
    (hnode : onlyExpression? (Text.byteLength (wrapped slice)) root = some node) :
    ∃ parts c inner,
      groupParts (innerGrammar slice) .statement (.ofText (wrapped slice)) = some (parts, c) ∧
      c.stop = Text.byteLength (wrapped slice) ∧ groupValue? parts = some inner ∧
      node = (inner.numberFrom 3).1 := by
  have hopen := opening_ofText_wrapped slice
  obtain ⟨statement', outer', hstatement, -, houter, hkind, -, hstop, hinner⟩ :=
    onlyExpression?_eq_some_iff.1 hnode
  rw [parseProgram?, ofDepth_wrapped] at hroot
  obtain ⟨⟨tree, c₃⟩, hrun, rfl⟩ := Option.map_eq_some_iff.1 hroot
  generalize hs : Cursor.ofText (wrapped slice) = s at hrun hopen
  generalize innerGrammar slice = g at hrun
  change programRule g.step.step _ .statement s = _ at hrun
  unfold programRule at hrun
  rw [here_bind] at hrun
  obtain ⟨statements, c₂, hrounds, htree⟩ := bind_eq_some_iff.1 hrun
  cases htree
  have hfirst : ((do return (← peek) == .finish : Parser Bool)) .statement s = some (false, s) := by
    rw [peek_bind, hopen]
    rfl
  obtain ⟨statement, c₁, rest, hitem, rfl⟩ := repeatUntil_first hfirst hrounds
  -- the tree is numbered from the program on, so the statement is number one
  rw [children_number] at hstatement
  obtain ⟨only, honly, rfl⟩ := numberAllFrom_eq_singleton hstatement
  obtain ⟨rfl, rfl⟩ := List.cons.inj honly
  rw [itemRule_opening hopen] at hitem
  unfold expressionStatement at hitem
  rw [here_bind] at hitem
  obtain ⟨outer, c, hexpression, hitem⟩ := bind_eq_some_iff.1 hitem
  obtain ⟨_, c₀, -, hitem⟩ := bind_eq_some_iff.1 hitem
  cases hitem
  rw [children_numberFrom] at houter
  obtain ⟨only, honly, rfl⟩ := numberAllFrom_eq_singleton houter
  obtain rfl : outer = only := List.singleton_inj.1 honly
  rw [kind_numberFrom] at hkind
  have hassignment := expressionRule_cases outer c hexpression hkind
  have hgroup : groupFirst g .statement s = some (outer, c) :=
    (assignmentRule_opening hopen false).symm.trans hassignment
  obtain ⟨parts, inner, hparts, hvalue, rfl⟩ := groupFirst_cases outer c hgroup hkind
  rw [stop_numberFrom] at hstop
  rw [children_numberFrom] at hinner
  obtain ⟨only, honly, rfl⟩ := numberAllFrom_eq_singleton hinner
  obtain rfl : inner = only := List.singleton_inj.1 honly
  exact ⟨parts, c, inner, hparts, hstop, hvalue, rfl⟩

/-- The expression that the text of a list in parentheses makes. -/
def groupEmbedded (slice : List Char) (offset : Nat) (inner : Node) : Embedded :=
  ⟨⟨wrapped slice, (soleTree (Text.byteLength (wrapped slice)) inner).number, offset, 1⟩,
    (inner.numberFrom 3).1⟩

/-- **A text is accepted as an expression exactly when it is a list in parentheses that makes one**: the
list is read up to the last byte. -/
theorem embedded?_eq_some_iff :
    embedded? slice offset = some e ↔
      ∃ parts c inner,
        groupParts (innerGrammar slice) .statement (.ofText (wrapped slice)) = some (parts, c) ∧
        c.stop = Text.byteLength (wrapped slice) ∧ groupValue? parts = some inner ∧
        e = groupEmbedded slice offset inner := by
  constructor
  · intro h
    obtain ⟨source, hsource, h⟩ := Option.bind_eq_some_iff.1 h
    obtain ⟨root, hroot, rfl⟩ := Option.map_eq_some_iff.1 hsource
    obtain ⟨node, hnode, h⟩ := Option.bind_eq_some_iff.1 h
    cases h
    obtain ⟨parts, c, inner, hparts, hstop, hinner, rfl⟩ := exists_group_of_onlyExpression? hroot hnode
    refine ⟨parts, c, inner, hparts, hstop, hinner, ?_⟩
    rw [parseProgram?_of_group hparts hstop hinner] at hroot
    cases hroot
    rfl
  · rintro ⟨parts, c, inner, hparts, hstop, hinner, rfl⟩
    have hroot := parseProgram?_of_group hparts hstop hinner
    have hnode : onlyExpression? (Text.byteLength (wrapped slice))
        (soleTree (Text.byteLength (wrapped slice)) inner).number = some (inner.numberFrom 3).1 :=
      onlyExpression?_eq_some_iff.2 ⟨_, _, rfl, rfl, rfl, rfl, rfl, rfl, rfl⟩
    unfold embedded? wrappedSource?
    rw [hroot]
    simp only [Option.map_some, Option.bind_eq_bind, Option.bind_some, hnode]
    rfl

end ReactiveTemplate.Script

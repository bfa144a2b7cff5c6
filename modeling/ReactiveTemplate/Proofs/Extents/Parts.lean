/-
**Literals, patterns, functions and values lie properly in the text.**

Each rule of these parts of the grammar reads a node that lies between the cursors around it, as long
as the rules it calls for nested parts do.

Main definitions:

* `ReactiveTemplate.Script.Grammar.Reading` — a grammar whose rules read nodes that lie properly.

Main results:

* `ReactiveTemplate.Script.stringLiteral_reads`, `ReactiveTemplate.Script.templateLiteral_reads`,
  `ReactiveTemplate.Script.regexLiteral_reads` — literals;
* `ReactiveTemplate.Script.patternRule_reads` — patterns;
* `ReactiveTemplate.Script.functionNode_reads`, `ReactiveTemplate.Script.classNode_reads` — functions
  and classes;
* `ReactiveTemplate.Script.accessRule_reads`, `ReactiveTemplate.Script.calleeRule_reads` — values with
  accesses and calls.
-/

import ReactiveTemplate.Proofs.Extents.Parser
import ReactiveTemplate.Script.Values

set_option relaxedAutoImplicit false
set_option autoImplicit false

namespace ReactiveTemplate.Script

open Node

variable {text : List Char} {g : Grammar} {place : Place} {c s : Cursor} {t : Bool} {ns : List Node}

/-- A grammar whose rules for nested parts read nodes that lie properly in the text. -/
structure Grammar.Reading (text : List Char) (g : Grammar) : Prop where
  expression : Reads text g.expression
  assignment : Reads text g.assignment
  cover : Reads text g.cover
  binary : ∀ least, Reads text (g.binary least)
  unary : Reads text g.unary
  access : Reads text g.access
  callee : Reads text g.callee
  pattern : Reads text g.pattern
  statement : Reads text g.statement

/-- The grammar whose rules all fail reads nothing at all. -/
theorem Grammar.Reading.empty : Grammar.empty.Reading text := by
  constructor
  case binary => exact fun _ _ _ _ => .failure
  all_goals exact fun _ _ _ => .failure

/-! ### Literals -/

namespace Passage

/-- Going on without reading a node. -/
theorem onTo {c' : Cursor} (h : Passage text s t ns c) (hc : c.Onward text c') :
    Passage text s t ns c' := by
  have hmove : Passage text c false [] c' := ⟨h.mem, hc, placedIn_nil _ _, by simp⟩
  simpa using h.append hmove

theorem takeRaw (h : Passage text s t ns c) (n : Nat) : Passage text s t ns (c.takeRaw n) :=
  h.onTo (h.mem.takeRaw n)

theorem take (h : Passage text s t ns c) (n : Nat) : Passage text s t ns (c.take n) :=
  h.onTo (h.mem.take n)

theorem settle (h : Passage text s t ns c) : Passage text s t ns c.settle :=
  h.onTo h.mem.settle

/-- A passage that starts with a character. -/
theorem ofTakeRaw {n : Nat} (hs : s.In text) (hn : n ≠ 0) (hrest : s.rest ≠ []) :
    Passage text s true [] (s.takeRaw n) :=
  ⟨hs, hs.takeRaw n, placedIn_nil _ _, fun _ => Cursor.pos_lt_stop_takeRaw hn hrest⟩

end Passage

theorem atChar_looks (x : Char) : Looks (atChar x) := by
  rintro _ _ _ _ ⟨⟩
  rfl

/-- A leaf made of characters, of which there are none if the text is over. -/
theorem rawLeaf_reads {kind : Kind} {n : Nat} (hc : c.In text) (hn : c.rest = [] → n = 0) :
    Ensures (rawLeaf kind n) place c fun m c' => Passage text c true [m] c' := by
  refine require_step fun hne => here_step (modify_step ?_)
  have hn0 : n ≠ 0 := by simpa using hne
  exact nodeFrom_reads (.ofTakeRaw hc hn0 fun h => hn0 (hn h)) rfl

theorem escapeSequence_reads : Reads text escapeSequence := by
  intro place c hc
  refine get_step ?_
  split
  · next n hn =>
      refine rawLeaf_reads hc fun hnil => ?_
      rw [hnil] at hn
      cases hn
  · exact .failure

/-- The pieces of a string in the given quotes. -/
theorem stringPieces_reads (mark : Char) :
    ReadsAll text false (fun ns => ns) (repeatUntil (atChar mark) do
      if ← atChar '\\' then
        escapeSequence
      else
        rawLeaf .stringFragment (plainLength mark (← get).rest)) := by
  refine repeatUntil_reads_nodes (atChar_looks mark) fun place c hc => ?_
  refine (atChar_looks _).step fun b => ?_
  split
  · exact escapeSequence_reads place c hc
  · exact get_step (rawLeaf_reads hc fun hnil => by rw [hnil]; rfl)

theorem stringLiteral_reads : Reads text stringLiteral := by
  intro place s hs
  refine peek_step fun token htoken => ?_
  split
  · next mark =>
      have hne : s.rest ≠ [] := htoken nofun
      refine here_step (modify_step ?_)
      refine (stringPieces_reads mark).step (.ofTakeRaw hs Nat.one_ne_zero hne) fun pieces c h => ?_
      exact modify_step (nodeFrom_reads (h.take 1) (by simp))
  · exact .failure

theorem templateSubstitution_reads (hg : g.Reading text) : Reads text (templateSubstitution g) := by
  intro place s hs
  refine here_step (modify_step ?_)
  refine (hg.expression.within _).step ((Passage.refl hs).take 2) fun inner c h => ?_
  refine (atPunctuator_looks _).step fun b => require_step fun _ => modify_step ?_
  exact nodeFrom_reads (h.takeRaw 1) (by simp)

/-- The pieces of a template. -/
theorem templatePieces_reads (hg : g.Reading text) :
    ReadsAll text false (fun ns => ns) (repeatUntil (atChar '\x60') do
      let n := templateTextLength (← get).rest
      if n ≠ 0 then
        rawLeaf .stringFragment n
      else if ← atChar '\\' then
        escapeSequence
      else
        require (['$', '{'].isPrefixOf (← get).rest)
        templateSubstitution g) := by
  refine repeatUntil_reads_nodes (atChar_looks _) fun place c hc => get_step ?_
  dsimp only
  split
  · exact rawLeaf_reads hc fun hnil => by rw [hnil]; rfl
  · refine (atChar_looks _).step fun b => ?_
    split
    · exact escapeSequence_reads place c hc
    · exact get_step (require_step fun _ => templateSubstitution_reads hg place c hc)

theorem templateLiteral_reads (hg : g.Reading text) : Reads text (templateLiteral g) := by
  intro place s hs
  refine peek_step fun token htoken => require_step fun hback => here_step (modify_step ?_)
  have hne : s.rest ≠ [] := htoken (by simp [eq_of_beq hback])
  refine (templatePieces_reads hg).step (.ofTakeRaw hs Nat.one_ne_zero hne) fun pieces c h => ?_
  exact modify_step (nodeFrom_reads (h.take 1) (by simp))

theorem regexLiteral_reads : Reads text regexLiteral := by
  intro place s hs
  refine here_step ((atChar_looks _).step fun _ => require_step fun _ => modify_step ?_)
  refine (atChar_looks _).step fun _ => require_step fun _ => get_step ?_
  have h := (Passage.refl hs).takeRaw 1
  split
  · next n hn =>
      refine (rawLeaf_reads h.mem fun hnil => ?_).step fun pattern c₁ h₁ => ?_
      · rw [hnil] at hn
        cases hn
      · refine modify_step (get_step ?_)
        have h := (h.append h₁).takeRaw 1
        dsimp only
        split
        · exact modify_step (nodeFrom_reads h.settle (by simp))
        · refine (rawLeaf_reads h.mem fun hnil => ?_).step fun flags c₂ h₂ => ?_
          · rw [hnil]
            rfl
          · exact modify_step (nodeFrom_reads (h.append h₂).settle (by simp))
  · exact .failure

/-! ### Patterns -/

theorem propertyName_reads (hg : g.Reading text) : Reads text (propertyName g) := by
  intro place s hs
  refine peek_step fun token htoken => ?_
  split
  · exact leaf_reads hs (htoken nofun)
  · exact leaf_reads hs (htoken nofun)
  · exact stringLiteral_reads place s hs
  · refine here_step ((punctuator_takes _).step (.refl hs) fun _ c h => ?_)
    refine (hg.assignment.within _).step h fun inner c h => ?_
    exact (punctuator_takes _).step h fun _ c h => nodeFrom_reads h (by simp)
  · exact .failure

theorem patternWithDefault_reads (hg : g.Reading text) : Reads text (patternWithDefault g) := by
  intro place s hs
  refine here_step (hg.pattern.step (.refl hs) fun left c h => ?_)
  refine tryPunctuator_step h (fun c h => ?_) (.pure h)
  exact hg.assignment.step h fun right c h => nodeFrom_reads h (by simp)

theorem restPattern_reads (hg : g.Reading text) : Reads text (restPattern g) := by
  intro place s hs
  refine here_step ((punctuator_takes _).step (.refl hs) fun _ c h => ?_)
  exact hg.pattern.step h fun inner c h => nodeFrom_reads h (by simp)

theorem patternElement_reads (hg : g.Reading text) : Reads text (patternElement g) := by
  intro place s hs
  refine (atPunctuator_looks _).step fun b => ?_
  split
  · exact restPattern_reads hg place s hs
  · exact patternWithDefault_reads hg place s hs

/-- The default of a property whose name was read. -/
theorem defaultedShorthand_reads {name : Node} (hg : g.Reading text)
    (h : Passage text s true [name] c) :
    Ensures (defaultedShorthand g s.pos name) place c fun n c' => Passage text s true [n] c' := by
  refine (punctuator_takes _).step h fun _ c h => ?_
  exact hg.assignment.step h fun right c h => nodeFrom_reads h (by simp)

theorem shorthandPattern_reads (hg : g.Reading text) : Reads text (shorthandPattern g) := by
  intro place s hs
  refine here_step ((nameLeaf_reads _).step (.refl hs) fun name c h => ?_)
  refine (atPunctuator_looks _).step fun b => ?_
  split
  · exact defaultedShorthand_reads hg h
  · exact .pure h

theorem lastIfRest_reads {p : Parser Node} (hp : Reads text p) (close : String) :
    Reads text (lastIfRest close p) := by
  intro place s hs
  refine hp.step (.refl hs) fun part c h => ?_
  dsimp only
  split
  · exact (atPunctuator_looks _).step fun b => require_step fun _ => .pure h
  · exact .pure h

theorem propertyPattern_reads (hg : g.Reading text) : Reads text (propertyPattern g) := by
  intro place s hs
  refine (atPunctuator_looks _).step fun b => ?_
  split
  · exact restPattern_reads hg place s hs
  · refine .orElse (here_step ?_) (shorthandPattern_reads hg place s hs)
    refine (propertyName_reads hg).step (.refl hs) fun key c h => ?_
    refine (punctuator_takes _).step h fun _ c h => ?_
    exact (patternWithDefault_reads hg).step h fun value c h => nodeFrom_reads h (by simp)

theorem patternRule_reads (hg : g.Reading text) : Reads text (patternRule g) := by
  intro place s hs
  refine here_step (peek_step fun token htoken => ?_)
  split
  · refine advance_step (.refl hs) (htoken nofun) fun c h => ?_
    exact ((separatedWithHoles_reads (lastIfRest_reads (patternElement_reads hg) _)).within _).step h
      fun items c h => nodeFrom_reads h (by simp)
  · refine advance_step (.refl hs) (htoken nofun) fun c h => ?_
    exact ((separated_reads (lastIfRest_reads (propertyPattern_reads hg) _)).within _).step h
      fun items c h => nodeFrom_reads h (by simp)
  · exact leaf_reads hs (htoken nofun)
  · exact identifier_reads place s hs

theorem atLiteral_looks : Looks atLiteral := by
  rintro _ _ _ _ ⟨⟩
  rfl

theorem binding_reads (hg : g.Reading text) : Reads text (binding g) := by
  intro place s hs
  refine atLiteral_looks.step fun b => ?_
  split
  · exact hg.pattern place s hs
  · exact identifier_reads place s hs

theorem initialValue_reads (hg : g.Reading text) :
    ReadsAll text false (fun ns => ns) (initialValue g) := by
  intro place s hs
  refine tryPunctuator_step (.refl hs) (fun c h => ?_) (.pure (.refl hs))
  exact hg.assignment.step h fun value c h => .pure (h.congr (by simp)).forget

theorem formalParameters_reads (hg : g.Reading text) : Reads text (formalParameters g) := by
  intro place s hs
  refine here_step ((punctuator_takes _).step (.refl hs) fun _ c h => ?_)
  exact ((separated_reads (lastIfRest_reads (patternElement_reads hg) _)).within _).step h
    fun items c h => nodeFrom_reads h (by simp)

theorem noParameters_reads : Reads text noParameters := by
  intro place s hs
  refine here_step ((punctuator_takes _).step (.refl hs) fun _ c h => ?_)
  exact (punctuator_takes _).step h fun _ c h => nodeFrom_reads h rfl

theorem oneParameter_reads (hg : g.Reading text) : Reads text (oneParameter g) := by
  intro place s hs
  refine here_step ((punctuator_takes _).step (.refl hs) fun _ c h => ?_)
  refine ((patternWithDefault_reads hg).within _).step h fun only c h => ?_
  exact (punctuator_takes _).step h fun _ c h => nodeFrom_reads h (by simp)

/-! ### Functions -/

theorem statementBlock_reads (hg : g.Reading text) : Reads text (statementBlock g) := by
  intro place s hs
  refine here_step ((punctuator_takes _).step (.refl hs) fun _ c h => ?_)
  refine (repeatUntil_reads_nodes (atPunctuator_looks _) hg.statement).step h fun statements c h => ?_
  exact (punctuator_takes _).step h fun _ c h => nodeFrom_reads h (by simp)

theorem bodyAfter_reads {parameters : Parser Node} (hg : g.Reading text)
    (hparameters : Reads text parameters) :
    ReadsAll text true (fun ns => ns) (bodyAfter g parameters) := by
  intro place s hs
  refine hparameters.step (.refl hs) fun list c h => ?_
  exact (statementBlock_reads hg).step h fun body c h => .pure (h.congr (by simp))

theorem signatureAndBody_reads (hg : g.Reading text) :
    ReadsAll text true (fun ns => ns) (signatureAndBody g) :=
  bodyAfter_reads hg (formalParameters_reads hg)

theorem atAsyncFunction_looks : Looks atAsyncFunction := by
  rintro _ _ _ _ ⟨⟩
  rfl

theorem functionTail_reads (hg : g.Reading text) (declared : Bool) (kind : Kind)
    (h : Passage text s true [] c) :
    Ensures (functionTail g declared kind s.pos) place c fun n c' => Passage text s true [n] c' := by
  refine (atPunctuator_looks _).step fun b => ?_
  split
  · exact (signatureAndBody_reads hg).step h fun parts c h => nodeFrom_reads h (by simp)
  · refine identifier_reads.step h fun name c h => ?_
    exact (signatureAndBody_reads hg).step h fun parts c h => nodeFrom_reads h (by simp)

theorem functionNode_reads (hg : g.Reading text) (declared : Bool) :
    Reads text (functionNode g declared) := by
  intro place s hs
  refine here_step (atAsyncFunction_looks.step fun b => ?_)
  refine optionalMove_step advance_moves (.refl hs) fun c h => ?_
  refine (keyword_takes _).step h fun _ c h => ?_
  -- the mark of a generator changes the kind of the node and nothing else
  exact tryPunctuator_step h (fun c h => functionTail_reads hg declared _ h)
    (functionTail_reads hg declared _ h)

/-- The arrow and body behind the parameters of a function. -/
theorem arrowTail_reads {parameters : Node} (hg : g.Reading text)
    (h : Passage text s t [parameters] c) :
    Ensures (arrowTail g s.pos parameters) place c fun n c' => Passage text s true [n] c' := by
  refine newlineAhead_looks.step fun _ => require_step fun _ => ?_
  refine (punctuator_takes _).step h fun _ c h => (atPunctuator_looks _).step fun b => ?_
  dsimp only
  split
  · exact (statementBlock_reads hg).step h fun body c h => nodeFrom_reads h (by simp)
  · exact hg.assignment.step h fun body c h => nodeFrom_reads h (by simp)

theorem nameArrow_reads (hg : g.Reading text) (h : Passage text s t [] c) :
    Ensures (nameArrow g s.pos) place c fun n c' => Passage text s true [n] c' :=
  identifier_reads.step h fun _ _ h => arrowTail_reads hg (h.congr (by simp))

/-! ### Methods, fields and classes -/

theorem atModifier_looks (w : String) (generators : Bool) : Looks (atModifier w generators) := by
  intro place c
  refine (atWord_looks w).step fun b => ?_
  split
  · exact peekSecond_looks.step fun _ => .pure rfl
  · exact .pure rfl

theorem memberModifier_moves : Moves text memberModifier := by
  intro place c hc
  have h := Passage.refl hc
  refine tryPunctuator_step h (fun c h => .pure h.forget) ?_
  refine (atModifier_looks _ _).step fun _ => newlineBehindNext_looks.step fun _ => ?_
  split
  · refine advance_moves.step h fun _ c h => ?_
    exact tryPunctuator_step h (fun c h => .pure h.forget) (.pure h)
  · refine (atModifier_looks _ _).step fun _ => ?_
    split
    · exact advance_moves.step h fun _ c h => .pure h
    · refine (atModifier_looks _ _).step fun _ => ?_
      split
      · exact advance_moves.step h fun _ c h => .pure h
      · exact .pure h

theorem memberName_reads (hg : g.Reading text) : Reads text (memberName g) := by
  intro place s hs
  refine peek_step fun token htoken => ?_
  split
  · exact leaf_reads hs (htoken nofun)
  · exact propertyName_reads hg place s hs

/-- The method behind a name. -/
theorem methodFrom_reads {name : Node} (hg : g.Reading text) (modifier : Modifier)
    (h : Passage text s t [name] c) :
    Ensures (methodFrom g modifier s.pos name) place c fun n c' => Passage text s true [n] c' := by
  refine (bodyAfter_reads hg ?_).step h fun parts c h => nodeFrom_reads (by simpa using h) (by simp)
  split
  · exact noParameters_reads
  · exact oneParameter_reads hg
  · exact formalParameters_reads hg

/-- The field behind a name. The semicolon is not part of it. -/
theorem fieldFrom_reads {name : Node} (hg : g.Reading text) (h : Passage text s true [name] c) :
    Ensures (fieldFrom g s.pos name) place c fun n c' => Passage text s true [n] c' := by
  refine (initialValue_reads hg).step h fun value c h => ?_
  refine (nodeFrom_reads h (by simp)).step fun field c h => ?_
  exact (semicolon_moves _).step h fun _ c h => .pure h

theorem classMemberTail_reads (hg : g.Reading text) (h : Passage text s t [] c) :
    Ensures (classMemberTail g s.pos) place c fun n c' => Passage text s true [n] c' := by
  refine memberModifier_moves.step h fun modifier c h => ?_
  refine (memberName_reads hg).step h fun name c h => (atPunctuator_looks _).step fun _ => ?_
  split
  · exact methodFrom_reads hg modifier h
  · exact fieldFrom_reads hg h

theorem classMember_reads (hg : g.Reading text) : Reads text (classMember g) := by
  intro place s hs
  refine here_step ((atWord_looks _).step fun _ => peekSecond_looks.step fun _ => ?_)
  split
  · refine advance_moves.step (.refl hs) fun _ c h => ?_
    exact (statementBlock_reads hg).step h fun body c h => nodeFrom_reads h (by simp)
  · refine (atModifier_looks _ _).step fun _ => ?_
    exact optionalMove_step advance_moves (.refl hs) fun c h => classMemberTail_reads hg h

/-- The members of a class, with the semicolons between them. -/
theorem classMembers_reads (hg : g.Reading text) :
    ReadsAll text false (fun rounds => rounds.flatMap fun ns => ns)
      (repeatUntil (atPunctuator "\x7d") do
        if ← tryPunctuator ";" then
          return []
        else
          return [← within .statement (classMember g)]) := by
  have hround : ReadsAll text false (fun ns => ns) (do
      if ← tryPunctuator ";" then
        return []
      else
        return [← within .statement (classMember g)]) := by
    intro place c hc
    refine tryPunctuator_step (.refl hc) (fun c h => .pure h.forget) ?_
    exact ((classMember_reads hg).within _).step (.refl hc) fun n c h => .pure h.forget
  exact repeatUntil_reads (atPunctuator_looks _) hround

theorem classBody_reads (hg : g.Reading text) : Reads text (classBody g) := by
  intro place s hs
  refine here_step ((punctuator_takes _).step (.refl hs) fun _ c h => ?_)
  refine (classMembers_reads hg).step h fun members c h => ?_
  exact (punctuator_takes _).step h fun _ c h => nodeFrom_reads h (by simp [List.flatMap_id'])

theorem classHeritage_reads (hg : g.Reading text) :
    ReadsAll text false (fun ns => ns) (classHeritage g) := by
  intro place s hs
  refine here_step (tryKeyword_step (.refl hs) (fun c h => ?_) (.pure (.refl hs)))
  refine hg.access.step h fun parent c h => ?_
  exact (nodeFrom_reads h (by simp)).step fun _ c h => .pure h.forget

theorem className_reads (declared : Bool) : ReadsAll text false (fun ns => ns) (className declared) := by
  intro place s hs
  refine (atPunctuator_looks _).step fun _ => (atWord_looks _).step fun _ => ?_
  split
  · exact require_step fun _ => .pure (.refl hs)
  · exact identifier_reads.step (.refl hs) fun name c h => .pure (h.congr (by simp)).forget

theorem classNode_reads (hg : g.Reading text) (declared : Bool) : Reads text (classNode g declared) := by
  intro place s hs
  refine here_step ((keyword_takes _).step (.refl hs) fun _ c h => ?_)
  refine (className_reads declared).step h fun name c h => ?_
  refine (classHeritage_reads hg).step h fun heritage c h => ?_
  exact (classBody_reads hg).step h fun body c h => nodeFrom_reads h (by simp)

/-! ### Values -/

theorem spreadOr_reads {p : Parser Node} (hp : Reads text p) : Reads text (spreadOr p) := by
  intro place s hs
  refine here_step (tryPunctuator_step (.refl hs) (fun c h => ?_) (hp place s hs))
  exact hp.step h fun inner c h => nodeFrom_reads h (by simp)

theorem shorthandMember_reads (hg : g.Reading text) : Reads text (shorthandMember g) := by
  intro place s hs
  refine here_step ((nameLeaf_reads _).step (.refl hs) fun name c h => ?_)
  refine (atPunctuator_looks _).step fun b => ?_
  split
  · -- with a default the name is read as a pattern, which changes its kind
    have hkind : Passage text s true [name.withKind .shorthandPropertyIdentifierPattern] c := by
      refine ⟨hs, h.onward, ?_, h.lt_of_took⟩
      simpa [placedIn_singleton] using h.placed
    exact defaultedShorthand_reads hg hkind
  · exact .pure h

theorem atShorthand_looks : Looks atShorthand := by
  intro place c
  refine peek_looks.step fun _ => peekSecond_looks.step fun _ => ?_
  split
  · exact .pure rfl
  · exact .pure rfl

theorem objectMember_reads (hg : g.Reading text) : Reads text (objectMember g) := by
  intro place s hs
  refine here_step ((atPunctuator_looks _).step fun _ => ?_)
  split
  · exact spreadOr_reads hg.cover place s hs
  · refine atShorthand_looks.step fun _ => ?_
    split
    · exact shorthandMember_reads hg place s hs
    · refine memberModifier_moves.step (.refl hs) fun modifier c h => ?_
      refine (propertyName_reads hg).step h fun key c h => ?_
      refine tryPunctuator_step h (fun c h => ?_) ?_
      · split
        · exact hg.cover.step h fun value c h => nodeFrom_reads h (by simp)
        · exact methodFrom_reads hg modifier h
      · split
        · exact hg.cover.step h fun value c h => nodeFrom_reads h (by simp)
        · exact methodFrom_reads hg modifier h

theorem coverLiteral_reads (hg : g.Reading text) : Reads text (coverLiteral g) := by
  intro place s hs
  refine here_step (tryPunctuator_step (.refl hs) (fun c h => ?_) ?_)
  · exact ((separatedWithHoles_reads (spreadOr_reads hg.cover)).within _).step h
      fun items c h => nodeFrom_reads h (by simp)
  · refine (punctuator_takes _).step (.refl hs) fun _ c h => ?_
    exact ((separated_reads (objectMember_reads hg)).within _).step h
      fun items c h => nodeFrom_reads h (by simp)

theorem literalValue_reads (hg : g.Reading text) : Reads text (literalValue g) := by
  intro place s hs
  exact (coverLiteral_reads hg).step (.refl hs) fun n c h => require_step fun _ => .pure h

theorem parenthesized_reads (hg : g.Reading text) : Reads text (parenthesized g) := by
  intro place s hs
  refine here_step ((punctuator_takes _).step (.refl hs) fun _ c h => ?_)
  refine (hg.expression.within _).step h fun inner c h => ?_
  exact (punctuator_takes _).step h fun _ c h => nodeFrom_reads h (by simp)

theorem callArguments_reads (hg : g.Reading text) : Reads text (callArguments g) := by
  intro place s hs
  refine here_step ((punctuator_takes _).step (.refl hs) fun _ c h => ?_)
  refine ((separated_reads (spreadOr_reads hg.assignment)).within _).step h fun items c h => ?_
  exact (nodeFrom_reads h (by simp)).step fun n c h => .pure (h.congr (by simp))

theorem importArguments_reads (hg : g.Reading text) : Reads text (importArguments g) := by
  intro place s hs
  refine here_step ((punctuator_takes _).step (.refl hs) fun _ c h => ?_)
  refine ((separated_reads hg.assignment).within _).step h fun items c h => require_step fun _ => ?_
  exact (nodeFrom_reads h (by simp)).step fun n c h => .pure (h.congr (by simp))

theorem metaProperty_reads (first second : String) : Reads text (metaProperty first second) := by
  intro place s hs
  refine here_step ((keyword_takes _).step (.refl hs) fun _ c h => ?_)
  refine (punctuator_takes _).step h fun _ c h => ?_
  exact (keyword_takes _).step h fun _ c h => nodeFrom_reads h rfl

theorem importCallee_reads : Reads text importCallee := by
  intro place s hs
  refine peekSecond_step fun second hsecond => require_step fun hopen => ?_
  exact leaf_reads hs (hsecond (by simp [eq_of_beq hopen]))

theorem superValue_reads : Reads text superValue := by
  intro place s hs
  refine peekSecond_step fun second hsecond => ?_
  split
  · exact leaf_reads hs (hsecond nofun)
  · exact leaf_reads hs (hsecond nofun)
  · exact leaf_reads hs (hsecond nofun)
  · exact .failure

theorem wordValue_reads (hg : g.Reading text) (w : String) (hs : s.In text) (hne : s.rest ≠ []) :
    Ensures (wordValue g w) place s fun n c => Passage text s true [n] c := by
  unfold wordValue
  split
  · exact leaf_reads hs hne
  · exact superValue_reads place s hs
  · exact leaf_reads hs hne
  · exact leaf_reads hs hne
  · exact leaf_reads hs hne
  · exact leaf_reads hs hne
  · exact functionNode_reads hg false place s hs
  · exact classNode_reads hg false place s hs
  · exact ((metaProperty_reads _ _).orElse importCallee_reads) place s hs
  · refine atAsyncFunction_looks.step fun _ => ?_
    split
    · exact functionNode_reads hg false place s hs
    · exact identifier_reads place s hs
  · exact identifier_reads place s hs

theorem punctuatorValue_reads (hg : g.Reading text) (p : String) :
    Reads text (punctuatorValue g p) := by
  unfold punctuatorValue
  split
  · exact parenthesized_reads hg
  · exact literalValue_reads hg
  · exact literalValue_reads hg
  · exact regexLiteral_reads
  · exact regexLiteral_reads
  · exact fun _ _ _ => .failure

theorem primary_reads (hg : g.Reading text) : Reads text (primary g) := by
  intro place s hs
  refine peek_step fun token htoken => ?_
  cases token with
  | word w => exact wordValue_reads hg w hs (htoken nofun)
  | punctuator p => exact punctuatorValue_reads hg p place s hs
  | number => exact leaf_reads hs (htoken nofun)
  | quote mark => exact stringLiteral_reads place s hs
  | backtick => exact templateLiteral_reads hg place s hs
  | privateName => exact .failure
  | finish => exact .failure
  | stray => exact .failure

/-! ### Accesses and calls -/

theorem accessedProperty_reads : Reads text accessedProperty := by
  intro place s hs
  refine peek_step fun token htoken => ?_
  split
  · exact (leaf_reads hs (htoken nofun)).step fun n c h => .pure (h.congr (by simp))
  · exact (leaf_reads hs (htoken nofun)).step fun n c h => .pure (h.congr (by simp))
  · exact .failure

theorem accessIndex_reads (hg : g.Reading text) : Reads text (accessIndex g) := by
  intro place s hs
  refine (punctuator_takes _).step (.refl hs) fun _ c h => ?_
  refine (hg.expression.within _).step h fun index c h => ?_
  exact (punctuator_takes _).step h fun _ c h => .pure (h.congr (by simp))

/-- An optional access to an object that was read, where its mark is known to stand. -/
theorem optionalAccess_reads {object : Node} (hg : g.Reading text)
    (h : Passage text s true [object] c) (hne : c.rest ≠ []) :
    Ensures (optionalAccess g object) place c fun n c' => Passage text s true [n] c' := by
  refine (leaf_reads h.mem hne).step fun chain c hchain => ?_
  have h := h.append hchain
  refine (atPunctuator_looks _).step fun _ => ?_
  split
  · exact (callArguments_reads hg).step h fun _ c h => nodeFromFirst_reads h (by simp)
  · refine (atPunctuator_looks _).step fun _ => ?_
    split
    · exact (accessIndex_reads hg).step h fun _ c h => nodeFromFirst_reads h (by simp)
    · exact accessedProperty_reads.step h fun _ c h => nodeFromFirst_reads h (by simp)

/-- One more access to an object that was read. -/
theorem accessStep_reads {object : Node} (hg : g.Reading text) (calls : Bool)
    (h : Passage text s true [object] c) :
    Ensures (accessStep g calls object) place c
      fun o c' => Passage text s true [o.getD object] c' := by
  refine peek_step fun token htoken => ?_
  split
  · refine advance_moves.step h fun _ c h => accessedProperty_reads.step h fun property c h => ?_
    exact (nodeFromFirst_reads h (by simp)).step fun _ c h => .pure h
  · refine (accessIndex_reads hg).step h fun index c h => ?_
    exact (nodeFromFirst_reads h (by simp)).step fun _ c h => .pure h
  · refine (templateLiteral_reads hg).step h fun template c h => ?_
    exact (nodeFromFirst_reads h (by simp)).step fun _ c h => .pure h
  · refine require_step fun _ => ?_
    exact (optionalAccess_reads hg h (htoken nofun)).step fun _ c h => .pure h
  · split
    · dsimp only
      split
      · refine (importArguments_reads hg).step h fun _ c h => ?_
        exact (nodeFromFirst_reads h (by simp)).step fun _ c h => .pure h
      · refine (callArguments_reads hg).step h fun _ c h => ?_
        exact (nodeFromFirst_reads h (by simp)).step fun _ c h => .pure h
    · exact .pure h
  · exact .pure h

/-- All accesses to a value that was read. -/
theorem iterate_accessStep_reads {value : Node} (hg : g.Reading text) (calls : Bool)
    (h : Passage text s true [value] c) :
    Ensures (iterate (accessStep g calls) value) place c fun n c' => Passage text s true [n] c' :=
  iterate_reads (fun n => n) (accessStep_reads hg calls) h

theorem newExpression_reads (hg : g.Reading text) : Reads text (newExpression g) := by
  intro place s hs
  refine here_step ((keyword_takes _).step (.refl hs) fun _ c h => ?_)
  refine hg.callee.step h fun callee c h => require_step fun _ => (atPunctuator_looks _).step fun _ => ?_
  split
  · exact (callArguments_reads hg).step h fun _ c h => nodeFrom_reads h (by simp)
  · exact nodeFrom_reads h (by simp)

theorem newOrPrimary_reads (hg : g.Reading text) : Reads text (newOrPrimary g) := by
  intro place s hs
  refine (atWord_looks _).step fun _ => ?_
  split
  · exact ((metaProperty_reads _ _).orElse (newExpression_reads hg)) place s hs
  · exact primary_reads hg place s hs

theorem accessRule_reads (hg : g.Reading text) : Reads text (accessRule g) := by
  intro place s hs
  exact (newOrPrimary_reads hg).step (.refl hs) fun _ c h => iterate_accessStep_reads hg true h

theorem calleeRule_reads (hg : g.Reading text) : Reads text (calleeRule g) := by
  intro place s hs
  exact (newOrPrimary_reads hg).step (.refl hs) fun _ c h => iterate_accessStep_reads hg false h

end ReactiveTemplate.Script

/-
**Statements and programs lie properly in the text.**

With the rules for statements the grammar is complete: if the rules for nested parts read nodes that
lie properly, so do the rules of the grammar one level deeper, and so do those of any depth.  A
program is different in one point: it goes up to the end of the text, whatever is there.

Main results:

* `ReactiveTemplate.Script.statementRule_reads`, `ReactiveTemplate.Script.itemRule_reads` — statements;
* `ReactiveTemplate.Script.Grammar.Reading.ofDepth` — the whole grammar;
* `ReactiveTemplate.Script.parseProgram?_placed` — the tree of a text.
-/

import ReactiveTemplate.Proofs.Extents.Expressions
import ReactiveTemplate.Script.Program

set_option relaxedAutoImplicit false
set_option autoImplicit false

namespace ReactiveTemplate.Script

open Node

variable {text : List Char} {g : Grammar} {place : Place} {c s : Cursor} {t : Bool} {ns : List Node}

/-! ### Declarations of variables -/

/-- The declarator made of a name and a value that were read. -/
theorem declaratorNode_reads {name : Node} {value : List Node}
    (h : Passage text s true (name :: value) c) :
    Ensures (declaratorNode s.pos name value) place c fun n c' => Passage text s true [n] c' :=
  require_step fun _ => nodeFrom_reads h (by simp)

theorem declarator_reads (hg : g.Reading text) : Reads text (declarator g) := by
  intro place s hs
  refine here_step ((binding_reads hg).step (.refl hs) fun name c h => ?_)
  exact (initialValue_reads hg).step h fun value c h => declaratorNode_reads h

theorem moreDeclarators_reads (hg : g.Reading text) :
    ReadsAll text false (fun ns => ns) (moreDeclarators g) := by
  refine repeatUntil_reads_nodes (fun place c => ?_) fun place c hc => ?_
  · exact (atPunctuator_looks _).step fun _ => .pure rfl
  · exact (punctuator_takes _).step (.refl hc) fun _ c h => (declarator_reads hg).last h

theorem atLetDeclaration_looks : Looks atLetDeclaration := by
  intro place c
  refine (atWord_looks _).step fun _ => ?_
  split
  · refine peekSecond_looks.step fun _ => ?_
    split
    · exact endsBehindNext_looks.step fun _ => .pure rfl
    · exact .pure rfl
    · exact .pure rfl
    · exact .pure rfl
  · exact .pure rfl

theorem declarationKind?_looks : Looks declarationKind? := by
  intro place c
  refine peek_looks.step fun _ => ?_
  split
  · exact .pure rfl
  · exact .pure rfl
  · refine atLetDeclaration_looks.step fun _ => ?_
    split
    · exact .pure rfl
    · exact .pure rfl
  · exact .pure rfl

theorem variableDeclaration_reads (hg : g.Reading text) (kind : Kind) :
    Reads text (variableDeclaration g kind) := by
  intro place s hs
  refine here_step (advance_moves.step (.refl hs) fun _ c h => ?_)
  refine (declarator_reads hg).step h fun first c h => ?_
  refine (moreDeclarators_reads hg).step h fun more c h => ?_
  exact (semicolon_moves _).step h fun _ c h => nodeFrom_reads h (by simp)

/-! ### Conditionals and loops -/

theorem bodyOf_reads (hg : g.Reading text) (functions : Bool) : Reads text (bodyOf g functions) := by
  intro place s hs
  have hbody := hg.statement place s hs
  refine peek_looks.step fun _ => ?_
  dsimp only
  split
  · exact .bind .failure
  · exact .bind .failure
  · exact atLetDeclaration_looks.step fun _ => require_step fun _ => hbody
  · exact peekSecond_looks.step fun _ => require_step fun _ => hbody
  · exact atAsyncFunction_looks.step fun _ => require_step fun _ => hbody
  · exact hbody

theorem ifStatement_reads (hg : g.Reading text) : Reads text (ifStatement g) := by
  intro place s hs
  refine here_step ((keyword_takes _).step (.refl hs) fun _ c h => ?_)
  refine (parenthesized_reads hg).step h fun condition c h => ?_
  -- the other branch is a node inside of this one, so a passage starts at its word
  refine (bodyOf_reads hg true).step h fun yes o h => here_step ?_
  refine tryKeyword_step (.refl h.mem) (fun c hclause => ?_) (nodeFrom_reads h (by simp))
  refine (bodyOf_reads hg true).step hclause fun no c hclause => ?_
  refine (nodeFrom_reads hclause rfl).step fun clause c hclause => ?_
  exact nodeFrom_reads (h.append hclause) (by simp)

theorem overWord?_looks (waits : Bool) : Looks (overWord? waits) := by
  intro place c
  refine peek_looks.step fun _ => ?_
  split
  · exact .pure rfl
  · exact .pure rfl
  · exact .pure rfl

theorem overTarget_reads (hg : g.Reading text) (waits : Bool) : Reads text (overTarget g waits) := by
  intro place s hs
  refine atLiteral_looks.step fun _ => ?_
  split
  · refine (coverLiteral_reads hg).step (.refl hs) fun literal c h => ?_
    refine (overWord?_looks _).step fun _ => ?_
    split
    · split
      · next pattern hpattern => exact .pure (h.asPattern hpattern)
      · exact .failure
    · exact require_step fun _ => iterate_accessStep_reads hg true h
  · exact hg.access place s hs

theorem atAmbiguousTarget_looks (waits : Bool) : Looks (atAmbiguousTarget waits) := by
  intro place c
  refine peek_looks.step fun _ => ?_
  split
  · exact .pure rfl
  · exact peekSecond_looks.step fun _ => .pure rfl
  · exact .pure rfl

/-- The left side of a head that declares nothing, if it was one. -/
theorem overHead?_reads (hg : g.Reading text) (waits : Bool) :
    ReadsAll text false (fun head => head.toList.map Prod.fst) (overHead? g waits) := by
  intro place s hs
  refine .orElse ?_ (.pure (.refl hs))
  refine (atAmbiguousTarget_looks _).step fun _ => ?_
  refine (overTarget_reads hg waits).step (.refl hs) fun target c h => ?_
  refine (overWord?_looks _).step fun _ => ?_
  split
  · refine require_step fun _ => advance_moves.step h fun _ c h => .pure ?_
    exact (h.congr (by simp)).forget
  · exact .failure

/-- A loop over a collection behind the left side of its head. -/
theorem forInTail_reads {left : List Node} (hg : g.Reading text) (word : OverWord)
    (h : Passage text s true left c) :
    Ensures (forInTail g s.pos left word) place c fun n c' => Passage text s true [n] c' := by
  have hright : Reads text (if word == .ofWord then g.assignment else g.expression) := by
    split
    · exact hg.assignment
    · exact hg.expression
  refine (hright.within _).step h fun right c h => (punctuator_takes _).step h fun _ c h => ?_
  exact (bodyOf_reads hg false).step h fun body c h => nodeFrom_reads h (by simp)

theorem headPart_reads (hg : g.Reading text) : Reads text (headPart g) := by
  intro place s hs
  refine .bind ?_
  rintro _ _ ⟨⟩
  split
  · next hsemi => exact leaf_reads hs (Token.ne_nil_of_beq hsemi nofun)
  · refine hg.expression.step (.refl hs) fun inner c h => ?_
    exact (punctuator_takes _).step h fun _ c h => .pure h

/-- A loop behind the first of the three parts of its head. -/
theorem forTail_reads {first : Node} (hg : g.Reading text) (h : Passage text s true [first] c) :
    Ensures (forTail g s.pos first) place c fun n c' => Passage text s true [n] c' := by
  refine ((headPart_reads hg).within _).step h fun condition c h => ?_
  refine tryPunctuator_step h (fun c h => ?_) ?_
  · exact (bodyOf_reads hg false).step h fun body c h => nodeFrom_reads h (by simp)
  · refine (hg.expression.within _).step h fun increment c h => ?_
    refine (punctuator_takes _).step h fun _ c h => ?_
    exact (bodyOf_reads hg false).step h fun body c h => nodeFrom_reads h (by simp)

/-- A loop from a declaration in its head on.  Three nodes are under way at once: the loop, the
declaration and its first declarator, each with a passage of its own. -/
theorem declaringLoop_reads {o : Cursor} (hg : g.Reading text) (waits : Bool) (kind : Kind)
    (hloop : Passage text s t [] o) :
    Ensures (declaringLoop g s.pos waits kind) place o fun n c' => Passage text s true [n] c' := by
  refine here_step (advance_moves.step (.refl hloop.mem) fun _ d hdeclared => here_step ?_)
  refine (binding_reads hg).step (.refl hdeclared.mem) fun name c hname => ?_
  refine ((initialValue_reads hg).within _).step hname fun value c hname => ?_
  refine (overWord?_looks _).step fun _ => ?_
  split
  · -- neither the declaration nor the declarator becomes a node here: their parts are the loop's
    refine require_step fun _ => advance_moves.step hname fun _ c hname => ?_
    refine forInTail_reads hg _ ?_
    exact ((hloop.append hdeclared).append hname).took.congr (by simp)
  · refine require_step fun _ => ?_
    refine (declaratorNode_reads hname).step fun first c hfirst => ?_
    refine ((moreDeclarators_reads hg).within _).step (hdeclared.append hfirst) fun more c h => ?_
    refine (punctuator_takes _).step h fun _ c h => ?_
    refine (nodeFrom_reads h (by simp)).step fun declared c h => ?_
    exact forTail_reads hg (hloop.append h).took

theorem forFrom_reads (hg : g.Reading text) (waits : Bool) (h : Passage text s t [] c) :
    Ensures (forFrom g s.pos waits) place c fun n c' => Passage text s true [n] c' := by
  refine (punctuator_takes _).step h fun _ c h => (declarationKind?_looks.within _).step fun _ => ?_
  split
  · exact declaringLoop_reads hg waits _ h
  · refine ((overHead?_reads hg waits).within _).step h fun head c h => ?_
    split
    · exact forInTail_reads hg _ h
    · refine require_step fun _ => ?_
      exact ((headPart_reads hg).within _).step h fun first c h => forTail_reads hg h

theorem forLoop_reads (hg : g.Reading text) : Reads text (forLoop g) := by
  intro place s hs
  refine here_step ((keyword_takes _).step (.refl hs) fun _ c h => ?_)
  exact tryKeyword_step h (fun c h => forFrom_reads hg true h) (forFrom_reads hg false h)

theorem whileStatement_reads (hg : g.Reading text) : Reads text (whileStatement g) := by
  intro place s hs
  refine here_step ((keyword_takes _).step (.refl hs) fun _ c h => ?_)
  refine (parenthesized_reads hg).step h fun condition c h => ?_
  exact (bodyOf_reads hg false).step h fun body c h => nodeFrom_reads h (by simp)

theorem doStatement_reads (hg : g.Reading text) : Reads text (doStatement g) := by
  intro place s hs
  refine here_step ((keyword_takes _).step (.refl hs) fun _ c h => ?_)
  refine (bodyOf_reads hg false).step h fun body c h => (keyword_takes _).step h fun _ c h => ?_
  refine (parenthesized_reads hg).step h fun condition c h => (atStatementEnd_looks _).step fun _ => ?_
  dsimp only
  split
  · exact tryPunctuator_step h (fun c h => nodeFrom_reads h (by simp)) (nodeFrom_reads h (by simp))
  · exact nodeFrom_reads h (by simp)

theorem withStatement_reads (hg : g.Reading text) : Reads text (withStatement g) := by
  intro place s hs
  refine here_step ((keyword_takes _).step (.refl hs) fun _ c h => ?_)
  refine (parenthesized_reads hg).step h fun object c h => ?_
  exact (bodyOf_reads hg false).step h fun body c h => nodeFrom_reads h (by simp)

/-! ### Exceptions and cases -/

theorem catchClause_reads (hg : g.Reading text) : Reads text (catchClause g) := by
  intro place s hs
  refine here_step ((keyword_takes _).step (.refl hs) fun _ c h => ?_)
  refine tryPunctuator_step h (fun c h => ?_) ?_
  · refine (binding_reads hg).step h fun parameter c h => (punctuator_takes _).step h fun _ c h => ?_
    exact (statementBlock_reads hg).step h fun body c h => nodeFrom_reads h (by simp)
  · exact (statementBlock_reads hg).step h fun body c h => nodeFrom_reads h (by simp)

theorem finallyClause_reads (hg : g.Reading text) : Reads text (finallyClause g) := by
  intro place s hs
  refine here_step ((keyword_takes _).step (.refl hs) fun _ c h => ?_)
  exact (statementBlock_reads hg).step h fun body c h => nodeFrom_reads h (by simp)

theorem tryStatement_reads (hg : g.Reading text) : Reads text (tryStatement g) := by
  intro place s hs
  refine here_step ((keyword_takes _).step (.refl hs) fun _ c h => ?_)
  refine (statementBlock_reads hg).step h fun body c h => (atWord_looks _).step fun _ => ?_
  refine optionalNode_step (catchClause_reads hg) (fun _ => rfl) h fun handler c h => ?_
  refine (atWord_looks _).step fun _ => ?_
  refine optionalNode_step (finallyClause_reads hg) (fun _ => rfl) h fun final c h => ?_
  exact require_step fun _ => nodeFrom_reads h (by simp)

theorem atCaseEnd_looks : Looks atCaseEnd := by
  rintro _ _ _ _ ⟨⟩
  rfl

theorem switchCase_reads (hg : g.Reading text) : Reads text (switchCase g) := by
  intro place s hs
  have hbody := repeatUntil_reads_nodes atCaseEnd_looks hg.statement
  refine here_step (tryKeyword_step (.refl hs) (fun c h => ?_) ?_)
  · refine (punctuator_takes _).step h fun _ c h => ?_
    exact hbody.step h fun body c h => nodeFrom_reads h (by simp)
  · refine (keyword_takes _).step (.refl hs) fun _ c h => ?_
    refine (hg.expression.within _).step h fun value c h => (punctuator_takes _).step h fun _ c h => ?_
    exact hbody.step h fun body c h => nodeFrom_reads h (by simp)

theorem switchStatement_reads (hg : g.Reading text) : Reads text (switchStatement g) := by
  intro place s hs
  refine here_step ((keyword_takes _).step (.refl hs) fun _ c h => ?_)
  refine (parenthesized_reads hg).step h fun value o h => here_step ?_
  refine (punctuator_takes _).step (.refl h.mem) fun _ c hbody => ?_
  refine (repeatUntil_reads_nodes (atPunctuator_looks _) (switchCase_reads hg)).step hbody
    fun cases c hbody => require_step fun _ => (punctuator_takes _).step hbody fun _ c hbody => ?_
  refine (nodeFrom_reads hbody (by simp)).step fun body c hbody => ?_
  exact nodeFrom_reads (h.append hbody) (by simp)

/-! ### Simple statements -/

theorem atEarlyEnd_looks : Looks atEarlyEnd := by
  rintro _ _ _ _ ⟨⟩
  rfl

theorem jumpStatement_reads (word : String) (kind : Kind) : Reads text (jumpStatement word kind) := by
  intro place s hs
  refine here_step ((keyword_takes _).step (.refl hs) fun _ c h => ?_)
  refine atEarlyEnd_looks.step fun _ => newlineAhead_looks.step fun _ => ?_
  dsimp only
  split
  · exact .bind (.pure ((semicolon_moves _).step h fun _ c h => nodeFrom_reads h rfl))
  · refine (nameLeaf_reads _).step h fun label c h => .bind (.pure ?_)
    exact (semicolon_moves _).step h fun _ c h => nodeFrom_reads h (by simp)

theorem returnStatement_reads (hg : g.Reading text) : Reads text (returnStatement g) := by
  intro place s hs
  refine here_step ((keyword_takes _).step (.refl hs) fun _ c h => ?_)
  refine atEarlyEnd_looks.step fun _ => ?_
  dsimp only
  split
  · exact .bind (.pure ((semicolon_moves _).step h fun _ c h => nodeFrom_reads h rfl))
  · refine hg.expression.step h fun value c h => .bind (.pure ?_)
    exact (semicolon_moves _).step h fun _ c h => nodeFrom_reads h (by simp)

theorem throwStatement_reads (hg : g.Reading text) : Reads text (throwStatement g) := by
  intro place s hs
  refine here_step ((keyword_takes _).step (.refl hs) fun _ c h => ?_)
  refine newlineAhead_looks.step fun _ => require_step fun _ => ?_
  refine hg.expression.step h fun value c h => ?_
  exact (semicolon_moves _).step h fun _ c h => nodeFrom_reads h (by simp)

theorem debuggerStatement_reads : Reads text debuggerStatement := by
  intro place s hs
  refine here_step ((keyword_takes _).step (.refl hs) fun _ c h => ?_)
  exact (semicolon_moves _).step h fun _ c h => nodeFrom_reads h rfl

theorem labeledStatement_reads (hg : g.Reading text) : Reads text (labeledStatement g) := by
  intro place s hs
  refine here_step ((nameLeaf_reads _).step (.refl hs) fun label c h => ?_)
  refine (punctuator_takes _).step h fun _ c h => ?_
  exact (bodyOf_reads hg true).step h fun body c h => nodeFrom_reads h (by simp)

theorem expressionStatement_reads (hg : g.Reading text) : Reads text (expressionStatement g) := by
  intro place s hs
  refine here_step (hg.expression.step (.refl hs) fun inner c h => ?_)
  exact (semicolon_moves _).step h fun _ c h => nodeFrom_reads h (by simp)

/-! ### Imports and exports -/

theorem moduleName_reads : ReadsAll text true (fun ns => ns) moduleName := by
  intro place s hs
  refine peek_step fun token htoken => ?_
  split
  · exact advance_step (.refl hs) (htoken nofun) fun c h => .pure h
  · exact (leaf_reads hs (htoken nofun)).step fun _ c h => .pure h
  · exact stringLiteral_reads.step (.refl hs) fun _ c h => .pure h
  · exact .failure

theorem importSpecifier_reads : Reads text importSpecifier := by
  intro place s hs
  refine here_step (.orElse ?_ ?_)
  · refine moduleName_reads.step (.refl hs) fun name c h => (keyword_takes _).step h fun _ c h => ?_
    exact identifier_reads.step h fun newName c h => nodeFrom_reads h (by simp)
  · exact identifier_reads.step (.refl hs) fun name c h => nodeFrom_reads h (by simp)

theorem namespaceImport_reads : Reads text namespaceImport := by
  intro place s hs
  refine here_step ((punctuator_takes _).step (.refl hs) fun _ c h => ?_)
  refine (keyword_takes _).step h fun _ c h => ?_
  exact identifier_reads.step h fun name c h => nodeFrom_reads h (by simp)

theorem namedImports_reads : Reads text namedImports := by
  intro place s hs
  refine here_step ((punctuator_takes _).step (.refl hs) fun _ c h => ?_)
  exact (separated_reads importSpecifier_reads).step h fun items c h => nodeFrom_reads h (by simp)

theorem importClause_reads : Reads text importClause := by
  have hlisted : Reads text (namespaceImport <|> namedImports) :=
    namespaceImport_reads.orElse namedImports_reads
  intro place s hs
  refine here_step (.orElse ?_ ?_)
  · exact hlisted.step (.refl hs) fun only c h => nodeFrom_reads h (by simp)
  · refine identifier_reads.step (.refl hs) fun name c h => ?_
    refine tryPunctuator_step h (fun c h => ?_) (nodeFrom_reads h (by simp))
    exact hlisted.step h fun more c h => nodeFrom_reads h (by simp)

theorem moduleSource_reads : Reads text moduleSource := stringLiteral_reads.withRole .source

theorem fromModule_reads : Reads text fromModule := by
  intro place s hs
  exact (keyword_takes _).step (.refl hs) fun _ c h => moduleSource_reads.last h

theorem attributeKey_reads : Reads text attributeKey := by
  intro place s hs
  refine peek_step fun token htoken => ?_
  split
  · exact leaf_reads hs (htoken nofun)
  · exact stringLiteral_reads place s hs

theorem importAttribute_reads : Reads text importAttribute := by
  intro place s hs
  refine here_step (attributeKey_reads.step (.refl hs) fun key c h => ?_)
  refine (punctuator_takes _).step h fun _ c h => ?_
  exact stringLiteral_reads.step h fun value c h => nodeFrom_reads h (by simp)

theorem importAttributes_reads : ReadsAll text false (fun ns => ns) importAttributes := by
  intro place s hs
  refine here_step (tryKeyword_step (.refl hs) (fun o h => here_step ?_) (.pure (.refl hs)))
  refine (punctuator_takes _).step (.refl h.mem) fun _ c hitems => ?_
  refine (separated_reads importAttribute_reads).step hitems fun items c hitems => ?_
  refine (nodeFrom_reads hitems (by simp)).step fun attributes c hitems => ?_
  exact (nodeFrom_reads (h.append hitems) (by simp)).step fun _ c h => .pure h.forget

theorem importStatement_reads : Reads text importStatement := by
  intro place s hs
  refine here_step ((keyword_takes _).step (.refl hs) fun _ c h => ?_)
  have hparts : ReadsAll text true (fun ns => ns)
      ((do return [← moduleSource]) <|> (do
        let clause ← importClause
        let source ← fromModule
        return [clause, source])) := by
    intro place c hc
    refine .orElse ?_ ?_
    · exact moduleSource_reads.step (.refl hc) fun _ c h => .pure h
    · refine importClause_reads.step (.refl hc) fun clause c h => ?_
      exact fromModule_reads.step h fun source c h => .pure h
  refine hparts.step h fun parts c h => importAttributes_reads.step h fun attributes c h => ?_
  exact (semicolon_moves _).step h fun _ c h => nodeFrom_reads h (by simp)

theorem exportSpecifier_reads : Reads text exportSpecifier := by
  intro place s hs
  refine here_step (moduleName_reads.step (.refl hs) fun name c h => ?_)
  refine tryKeyword_step h (fun c h => ?_) (nodeFrom_reads h (by simp))
  exact moduleName_reads.step h fun newName c h => nodeFrom_reads h (by simp)

theorem exportClause_reads : Reads text exportClause := by
  intro place s hs
  refine here_step ((punctuator_takes _).step (.refl hs) fun _ c h => ?_)
  exact (separated_reads exportSpecifier_reads).step h fun items c h => nodeFrom_reads h (by simp)

theorem exportAll_reads : ReadsAll text true (fun ns => ns) exportAll := by
  intro place s hs
  refine here_step ((punctuator_takes _).step (.refl hs) fun _ c h => ?_)
  refine tryKeyword_step h (fun c h => ?_) ?_
  · refine moduleName_reads.step h fun name c h => ?_
    refine (nodeFrom_reads h (by simp)).step fun ns c h => ?_
    exact fromModule_reads.step h fun source c h => .pure h
  · exact fromModule_reads.step h fun source c h => .pure h

theorem declared_reads (hg : g.Reading text) : Reads text (functionNode g true <|> classNode g true) :=
  (functionNode_reads hg true).orElse (classNode_reads hg true)

theorem declaration_reads (hg : g.Reading text) : Reads text (declaration g) := by
  intro place s hs
  refine declarationKind?_looks.step fun _ => ?_
  split
  · exact variableDeclaration_reads hg _ place s hs
  · exact declared_reads hg place s hs

theorem exported_reads (hg : g.Reading text) : ReadsAll text true (fun ns => ns) (exported g) := by
  intro place s hs
  have hs' := Passage.refl hs
  refine peek_step fun token htoken => ?_
  split
  · refine exportAll_reads.step hs' fun parts c h => ?_
    exact (semicolon_moves _).step h fun _ c h => .pure h
  · refine exportClause_reads.step hs' fun clause c h => (atWord_looks _).step fun _ => ?_
    refine optionalNode_step fromModule_reads (fun _ => rfl) h fun source c h => ?_
    exact (semicolon_moves _).step h fun _ c h => .pure h
  · refine advance_step hs' (htoken nofun) fun c h => .orElse ?_ ?_
    · exact (declared_reads hg).step h fun _ c h => .pure (h.congr (by simp))
    · refine hg.assignment.step h fun value c h => ?_
      exact (semicolon_moves _).step h fun _ c h => .pure (h.congr (by simp))
  · exact (declaration_reads hg).step hs' fun _ c h => .pure (h.congr (by simp))

theorem exportStatement_reads (hg : g.Reading text) : Reads text (exportStatement g) := by
  intro place s hs
  refine here_step ((keyword_takes _).step (.refl hs) fun _ c h => ?_)
  exact (exported_reads hg).step h fun parts c h => nodeFrom_reads h (by simp)

/-! ### Statements -/

theorem plainStatement_reads (hg : g.Reading text) : Reads text (plainStatement g) :=
  (labeledStatement_reads hg).orElse (expressionStatement_reads hg)

theorem declarationStatement_reads (hg : g.Reading text) : Reads text (declarationStatement g) := by
  intro place s hs
  refine declarationKind?_looks.step fun _ => ?_
  split
  · exact variableDeclaration_reads hg _ place s hs
  · exact plainStatement_reads hg place s hs

theorem wordStatement_reads (hg : g.Reading text) (w : String) : Reads text (wordStatement g w) := by
  unfold wordStatement
  split
  · exact declarationStatement_reads hg
  · exact declarationStatement_reads hg
  · exact declarationStatement_reads hg
  · exact functionNode_reads hg true
  · intro place s hs
    refine atAsyncFunction_looks.step fun _ => ?_
    split
    · exact functionNode_reads hg true place s hs
    · exact plainStatement_reads hg place s hs
  · exact classNode_reads hg true
  · exact ifStatement_reads hg
  · exact forLoop_reads hg
  · exact whileStatement_reads hg
  · exact doStatement_reads hg
  · exact withStatement_reads hg
  · exact tryStatement_reads hg
  · exact switchStatement_reads hg
  · exact jumpStatement_reads _ _
  · exact jumpStatement_reads _ _
  · exact returnStatement_reads hg
  · exact throwStatement_reads hg
  · exact debuggerStatement_reads
  · exact plainStatement_reads hg

theorem statementRule_reads (hg : g.Reading text) : Reads text (statementRule g) := by
  refine Reads.within (fun place s hs => peek_step fun token htoken => ?_) _
  split
  · exact statementBlock_reads hg place s hs
  · exact leaf_reads hs (htoken nofun)
  · exact wordStatement_reads hg _ place s hs
  · exact expressionStatement_reads hg place s hs

theorem itemRule_reads (hg : g.Reading text) : Reads text (itemRule g) := by
  refine Reads.within (fun place s hs => peek_looks.step fun _ => ?_) _
  split
  · exact (importStatement_reads.orElse (plainStatement_reads hg)) place s hs
  · exact exportStatement_reads hg place s hs
  · exact statementRule_reads hg place s hs

/-! ### The whole grammar -/

/-- One more level of nesting. -/
theorem Grammar.Reading.step (hg : g.Reading text) : g.step.Reading text where
  expression := expressionRule_reads hg
  assignment := assignmentRule_reads hg false
  cover := assignmentRule_reads hg true
  binary := binaryRule_reads hg
  unary := unaryRule_reads hg
  access := accessRule_reads hg
  callee := calleeRule_reads hg
  pattern := patternRule_reads hg
  statement := statementRule_reads hg

/-- The grammar of every depth reads nodes that lie properly in the text. -/
theorem Grammar.Reading.ofDepth (n : Nat) : (Grammar.ofDepth n).Reading text := by
  induction n with
  | zero => exact .empty
  | succ n ih => exact ih.step

/-- The tree of a text is a program that starts between two characters and stops where the text does,
and its statements lie in it one after the other. -/
theorem parseProgram?_placed {cs : List Char} {root : Node} (h : parseProgram? cs = some root) :
    root.kind = .program ∧ Text.Boundary cs root.start ∧ root.start ≤ root.stop ∧
      root.stop = Text.byteLength cs ∧ PlacedIn cs root.start root.stop root.children := by
  obtain ⟨⟨tree, c⟩, hrun, rfl⟩ := Option.map_eq_some_iff.1 h
  have hs := Cursor.In.ofText cs
  have hdone : Looks (do return (← peek) == .finish) := fun place c =>
    peek_looks.step fun _ => .pure rfl
  have hspec : Ensures (programRule (.ofDepth (depthOf cs)) (Text.byteLength cs)) .statement
      (.ofText cs) fun tree c => tree.kind = .program ∧
        Passage cs (.ofText cs) false tree.children c ∧
        tree.start = (Cursor.ofText cs).pos ∧ tree.stop = Text.byteLength cs := by
    exact here_step ((repeatUntil_reads_nodes hdone (itemRule_reads (.ofDepth _))).step (.refl hs)
      fun statements c h => .pure ⟨rfl, h, rfl, rfl⟩)
  obtain ⟨hkind, hpassage, hstart, hstop⟩ := hspec tree c hrun
  -- the tree is numbered in the end, which moves nothing
  obtain ⟨hstart', hstop', -⟩ := @Placed.numberFrom cs tree 0
  have hle := hs.boundary_pos.le_byteLength
  have hend := hpassage.mem.boundary_stop.le_byteLength
  have hplaced : PlacedIn cs tree.start tree.stop tree.children := by
    rw [hstart, hstop]
    exact hpassage.placed.mono (Nat.le_refl _) hend
  rw [← hstart', ← hstop'] at hplaced
  rw [← hstart'] at hstart
  rw [← hstop'] at hstop
  refine ⟨tree.kind_number.trans hkind, hstart ▸ hs.boundary_pos, ?_, hstop, ?_⟩
  · exact hstart ▸ hstop ▸ hle
  · rw [children_number]
    exact PlacedIn.numberAllFrom _ _ hplaced

end ReactiveTemplate.Script

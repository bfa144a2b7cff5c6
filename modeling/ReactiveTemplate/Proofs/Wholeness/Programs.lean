/-
**Programs are whole.**

The rules for statements complete the grammar: if the rules for nested parts give whole nodes, so do
the rules of the grammar that reads one level more, and a grammar of any depth gives whole nodes by
induction on the depth.  Numbering the nodes of a tree changes neither kinds nor roles, so every tree
of a text is whole, and so is every expression that is embedded in markup.

Main results:

* `ReactiveTemplate.Script.Grammar.Whole.ofDepth` — the grammar of every depth gives whole nodes;
* `ReactiveTemplate.Script.parseProgram?_whole` — the tree of a text is whole;
* `ReactiveTemplate.Script.embedded?_whole` — an expression embedded in markup is whole;
* `ReactiveTemplate.Script.exists_mutationTarget?` — a mutation has a target.
-/

import ReactiveTemplate.Proofs.Scopes.Agreement
import ReactiveTemplate.Proofs.Wholeness.Expressions
import ReactiveTemplate.Script.Embedded

set_option relaxedAutoImplicit false
set_option autoImplicit false

namespace ReactiveTemplate.Script

open Node

variable {g : Grammar}

/-! ### Declarations of variables -/

theorem declaratorNode_whole {start : Nat} {name : Node} {value : List Node} (hname : name.Whole)
    (hvalue : AllWhole value) : Yields Whole (declaratorNode start name value) :=
  .skip fun _ => plainNode_whole rfl (by simp [hname, hvalue])

theorem declarator_whole (hg : g.Whole) : Yields Whole (declarator g) :=
  .skip fun _ => (binding_whole hg).bind fun _ hname => (initialValue_whole hg).bind fun _ hvalue =>
    declaratorNode_whole hname hvalue

theorem moreDeclarators_whole (hg : g.Whole) : Yields AllWhole (moreDeclarators g) :=
  repeatUntil_whole (.skip fun _ => declarator_whole hg)

/-- Declarations ask for no particular children. -/
theorem declarationKind?_plain : Yields (fun o => ∀ kind ∈ o, kind.isPlain = true) declarationKind? := by
  have hlexical : ∀ kind ∈ some Kind.lexicalDeclaration, kind.isPlain = true := by
    rintro _ ⟨⟩
    rfl
  refine .skip fun _ => ?_
  split
  · refine .pure ?_
    rintro _ ⟨⟩
    rfl
  · exact .pure hlexical
  · exact .skip fun _ => .ite (.pure hlexical) (.pure nofun)
  · exact .pure nofun

theorem variableDeclaration_whole {kind : Kind} (hg : g.Whole) (hkind : kind.isPlain = true) :
    Yields Whole (variableDeclaration g kind) :=
  .skip fun _ => .skip fun _ => (declarator_whole hg).bind fun _ hfirst =>
    (moreDeclarators_whole hg).bind fun _ hmore => .skip fun _ => plainNode_whole hkind ⟨hfirst, hmore⟩

/-! ### Conditionals and loops -/

theorem bodyOf_whole (hg : g.Whole) (functions : Bool) : Yields Whole (bodyOf g functions) := by
  refine .skip fun _ => ?_
  dsimp only
  split
  · exact .skip fun _ => hg.statement
  · exact .skip fun _ => hg.statement
  · exact .skip fun _ => .skip fun _ => hg.statement
  · exact .skip fun _ => .skip fun _ => hg.statement
  · exact .skip fun _ => .skip fun _ => hg.statement
  · exact hg.statement

theorem ifStatement_whole (hg : g.Whole) : Yields Whole (ifStatement g) := by
  refine .skip fun _ => .skip fun _ => (parenthesized_whole hg).bind fun condition hcondition => ?_
  refine (bodyOf_whole hg true).bind fun yes hyes => .skip fun _ => .skip fun _ => .ite ?_ ?_
  · refine (bodyOf_whole hg true).bind fun no hno => ?_
    refine .bind (plainNode_whole rfl ⟨hno, trivial⟩) fun clause hclause => ?_
    exact plainNode_whole rfl (by simp [hcondition, hyes, hclause])
  · exact plainNode_whole rfl (by simp [hcondition, hyes])

theorem overTarget_whole (hg : g.Whole) (waits : Bool) : Yields Whole (overTarget g waits) := by
  refine .skip fun _ => .ite ?_ hg.access
  refine (coverLiteral_whole hg).bind fun literal hliteral => .skip fun _ => .ite ?_ ?_
  · split
    · next pattern hpattern => exact .pure (hliteral.asPattern? hpattern)
    · exact .failure
  · exact .skip fun _ => iterate_accessStep_whole hg true hliteral

theorem overHead?_whole (hg : g.Whole) (waits : Bool) :
    Yields (fun o => ∀ head ∈ o, head.1.Whole) (overHead? g waits) := by
  refine .orElse ?_ (.pure nofun)
  refine .skip fun _ => (overTarget_whole hg waits).bind fun target htarget => .skip fun _ => ?_
  split
  · refine .skip fun _ => .skip fun _ => .pure ?_
    rintro _ ⟨⟩
    simpa using htarget
  · exact .failure

theorem forInTail_whole {start : Nat} {left : List Node} (hg : g.Whole) (word : OverWord)
    (hleft : AllWhole left) : Yields Whole (forInTail g start left word) := by
  have hright : Yields Whole (if word == .ofWord then g.assignment else g.expression) :=
    .ite hg.assignment hg.expression
  refine (hright.within _).bind fun right hright => .skip fun _ => ?_
  exact (bodyOf_whole hg false).bind fun body hbody => plainNode_whole rfl (by simp [hleft, hright, hbody])

theorem headPart_whole (hg : g.Whole) : Yields Whole (headPart g) := by
  refine .skip fun _ => .ite (leaf_whole rfl) ?_
  exact hg.expression.bind fun _ hinner => .skip fun _ => .pure hinner

theorem forTail_whole {start : Nat} {first : Node} (hg : g.Whole) (hfirst : first.Whole) :
    Yields Whole (forTail g start first) := by
  refine ((headPart_whole hg).within _).bind fun condition hcondition => .skip fun _ => .ite ?_ ?_
  · exact (bodyOf_whole hg false).bind fun body hbody =>
      plainNode_whole rfl (by simp [hfirst, hcondition, hbody])
  · refine (hg.expression.within _).bind fun increment hincrement => .skip fun _ => ?_
    exact (bodyOf_whole hg false).bind fun body hbody =>
      plainNode_whole rfl (by simp [hfirst, hcondition, hincrement, hbody])

theorem declaringLoop_whole {start : Nat} {kind : Kind} (hg : g.Whole) (waits : Bool)
    (hkind : kind.isPlain = true) : Yields Whole (declaringLoop g start waits kind) := by
  refine .skip fun _ => .skip fun _ => .skip fun _ => (binding_whole hg).bind fun name hname => ?_
  refine ((initialValue_whole hg).within _).bind fun value hvalue => .skip fun _ => ?_
  split
  · exact .skip fun _ => .skip fun _ => forInTail_whole hg _ (by simp [hname, hvalue])
  · refine .skip fun _ => (declaratorNode_whole hname hvalue).bind fun first hfirst => ?_
    refine ((moreDeclarators_whole hg).within _).bind fun more hmore => .skip fun _ => ?_
    exact .bind (plainNode_whole hkind ⟨hfirst, hmore⟩) fun _ hhead => forTail_whole hg hhead

theorem forFrom_whole {start : Nat} (hg : g.Whole) (waits : Bool) :
    Yields Whole (forFrom g start waits) := by
  refine .skip fun _ => (declarationKind?_plain.within _).bind fun o ho => ?_
  cases o with
  | some kind => exact declaringLoop_whole hg waits (ho kind rfl)
  | none =>
      refine ((overHead?_whole hg waits).within _).bind fun o ho => ?_
      cases o with
      | some head => exact forInTail_whole hg head.2 ⟨ho head rfl, trivial⟩
      | none =>
          exact .skip fun _ => ((headPart_whole hg).within _).bind fun _ hfirst => forTail_whole hg hfirst

theorem forLoop_whole (hg : g.Whole) : Yields Whole (forLoop g) :=
  .skip fun _ => .skip fun _ => .skip fun waits => forFrom_whole hg waits

theorem whileStatement_whole (hg : g.Whole) : Yields Whole (whileStatement g) :=
  .skip fun _ => .skip fun _ => (parenthesized_whole hg).bind fun _ hcondition =>
    (bodyOf_whole hg false).bind fun _ hbody => plainNode_whole rfl (by simp [hcondition, hbody])

theorem doStatement_whole (hg : g.Whole) : Yields Whole (doStatement g) := by
  refine .skip fun _ => .skip fun _ => (bodyOf_whole hg false).bind fun body hbody => .skip fun _ => ?_
  refine (parenthesized_whole hg).bind fun condition hcondition => .skip fun _ => ?_
  have hnode {start : Nat} : Yields Whole (nodeFrom .doStatement start
      [body.withRole .body, condition.withRole .condition]) :=
    plainNode_whole rfl (by simp [hbody, hcondition])
  exact .ite (.skip fun _ => hnode) hnode

theorem withStatement_whole (hg : g.Whole) : Yields Whole (withStatement g) :=
  .skip fun _ => .skip fun _ => (parenthesized_whole hg).bind fun _ hobject =>
    (bodyOf_whole hg false).bind fun _ hbody => plainNode_whole rfl (by simp [hobject, hbody])

/-! ### Exceptions and cases -/

theorem catchClause_whole (hg : g.Whole) : Yields Whole (catchClause g) := by
  refine .skip fun _ => .skip fun _ => .skip fun _ => .ite ?_ ?_
  · refine (binding_whole hg).bind fun parameter hparameter => .skip fun _ => ?_
    exact (statementBlock_whole hg).bind fun _ hbody => plainNode_whole rfl (by simp [hparameter, hbody])
  · exact (statementBlock_whole hg).bind fun _ hbody => plainNode_whole rfl (by simpa using hbody)

theorem finallyClause_whole (hg : g.Whole) : Yields Whole (finallyClause g) :=
  .skip fun _ => .skip fun _ => (statementBlock_whole hg).bind fun _ hbody =>
    plainNode_whole rfl (by simpa using hbody)

theorem tryStatement_whole (hg : g.Whole) : Yields Whole (tryStatement g) := by
  refine .skip fun _ => .skip fun _ => (statementBlock_whole hg).bind fun body hbody => .skip fun _ => ?_
  refine .optionalNode (catchClause_whole hg) (fun _ hn => hn) fun handler hhandler => .skip fun _ => ?_
  refine .optionalNode (finallyClause_whole hg) (fun _ hn => hn) fun final hfinal => .skip fun _ => ?_
  exact plainNode_whole rfl (by simp [hbody, hhandler, hfinal])

theorem switchCase_whole (hg : g.Whole) : Yields Whole (switchCase g) := by
  have hbody : Yields AllWhole (repeatUntil atCaseEnd g.statement) := repeatUntil_whole hg.statement
  refine .skip fun _ => .skip fun _ => .ite ?_ ?_
  · exact .skip fun _ => hbody.bind fun _ hns => plainNode_whole rfl (by simpa using hns)
  · refine .skip fun _ => (hg.expression.within _).bind fun value hvalue => .skip fun _ => ?_
    exact hbody.bind fun _ hns => plainNode_whole rfl (by simp [hvalue, hns])

theorem switchStatement_whole (hg : g.Whole) : Yields Whole (switchStatement g) := by
  refine .skip fun _ => .skip fun _ => (parenthesized_whole hg).bind fun value hvalue => ?_
  refine .skip fun _ => .skip fun _ => (repeatUntil_whole (switchCase_whole hg)).bind fun cases hcases => ?_
  refine .skip fun _ => .skip fun _ => .bind (plainNode_whole rfl hcases) fun body hbody => ?_
  exact plainNode_whole rfl (by simp [hvalue, hbody])

/-! ### Simple statements -/

theorem jumpStatement_whole {kind : Kind} (word : String) (hkind : kind.isPlain = true) :
    Yields Whole (jumpStatement word kind) := by
  refine .skip fun _ => .skip fun _ => .skip fun _ => .skip fun _ => ?_
  dsimp only
  refine .ite ?_ ?_
  · exact .bind (.pure allWhole_nil) fun _ hlabel => .skip fun _ => plainNode_whole hkind hlabel
  · refine .bind (nameLeaf_whole rfl) fun label hlabel => ?_
    refine .bind (P := AllWhole) (.pure (by simpa using hlabel)) fun _ hlabel => ?_
    exact .skip fun _ => plainNode_whole hkind hlabel

theorem returnStatement_whole (hg : g.Whole) : Yields Whole (returnStatement g) := by
  refine .skip fun _ => .skip fun _ => .skip fun _ => ?_
  dsimp only
  refine .ite ?_ ?_
  · exact .bind (.pure allWhole_nil) fun _ hvalue => .skip fun _ => plainNode_whole rfl hvalue
  · refine hg.expression.bind fun value hvalue => ?_
    refine .bind (P := AllWhole) (.pure ⟨hvalue, trivial⟩) fun _ hvalue => ?_
    exact .skip fun _ => plainNode_whole rfl hvalue

theorem throwStatement_whole (hg : g.Whole) : Yields Whole (throwStatement g) :=
  .skip fun _ => .skip fun _ => .skip fun _ => .skip fun _ => hg.expression.bind fun _ hvalue =>
    .skip fun _ => plainNode_whole rfl ⟨hvalue, trivial⟩

theorem debuggerStatement_whole : Yields Whole debuggerStatement :=
  .skip fun _ => .skip fun _ => .skip fun _ => plainNode_whole rfl trivial

theorem labeledStatement_whole (hg : g.Whole) : Yields Whole (labeledStatement g) :=
  .skip fun _ => .bind (nameLeaf_whole rfl) fun _ hlabel => .skip fun _ =>
    (bodyOf_whole hg true).bind fun _ hbody => plainNode_whole rfl (by simp [hlabel, hbody])

theorem expressionStatement_whole (hg : g.Whole) : Yields Whole (expressionStatement g) :=
  .skip fun _ => hg.expression.bind fun _ hinner => .skip fun _ => plainNode_whole rfl ⟨hinner, trivial⟩

/-! ### Imports and exports -/

/-- A name in an import or export list. -/
theorem moduleName_quiet : Yields (fun ns => ∀ n ∈ ns, n.Quiet) moduleName := by
  refine .skip fun _ => ?_
  split
  · exact .skip fun _ => .pure (by simp)
  · exact (leaf_quiet rfl rfl).bind fun _ hn => .pure (by simpa using hn)
  · exact stringLiteral_quiet.bind fun _ hn => .pure (by simpa using hn)
  · exact .failure

theorem moduleName_whole : Yields AllWhole moduleName :=
  moduleName_quiet.mono fun _ hns => allWhole_iff.2 fun n hn => (hns n hn).1

theorem importSpecifier_quiet : Yields Quiet importSpecifier := by
  refine .skip fun _ => .orElse ?_ ?_
  · refine moduleName_quiet.bind fun name hname => .skip fun _ => ?_
    refine identifier_quiet.bind fun _ hnew => quietNode_quiet rfl rfl (List.forall_mem_append.2 ⟨?_, ?_⟩)
    · simpa using hname
    · simpa using hnew
  · exact identifier_quiet.bind fun _ hname => quietNode_quiet rfl rfl (by simpa using hname)

theorem namespaceImport_quiet : Yields Quiet namespaceImport :=
  .skip fun _ => .skip fun _ => .skip fun _ => identifier_quiet.bind fun _ hname =>
    quietNode_quiet rfl rfl (by simpa using hname)

theorem namedImports_quiet : Yields Quiet namedImports :=
  .skip fun _ => .skip fun _ => (separated_yields importSpecifier_quiet).bind fun _ hitems =>
    quietNode_quiet rfl rfl hitems

theorem importClause_quiet : Yields Quiet importClause := by
  have hlisted : Yields Quiet (namespaceImport <|> namedImports) :=
    namespaceImport_quiet.orElse namedImports_quiet
  refine .skip fun _ => .orElse ?_ ?_
  · exact hlisted.bind fun _ honly => quietNode_quiet rfl rfl (by simpa using honly)
  · refine identifier_quiet.bind fun name hname => .skip fun _ => .ite ?_ ?_
    · exact hlisted.bind fun _ hmore => quietNode_quiet rfl rfl (by simpa using ⟨hname, hmore⟩)
    · exact quietNode_quiet rfl rfl (by simpa using hname)

theorem moduleSource_quiet : Yields Quiet moduleSource :=
  stringLiteral_quiet.bind fun _ hn => .pure (by simpa using hn)

theorem fromModule_quiet : Yields Quiet fromModule :=
  .skip fun _ => moduleSource_quiet

theorem fromModule_whole : Yields Whole fromModule :=
  fromModule_quiet.mono fun _ hn => hn.1

theorem importAttribute_quiet : Yields Quiet importAttribute := by
  have hkey : Yields Quiet attributeKey := by
    refine .skip fun _ => ?_
    split
    · exact leaf_quiet rfl rfl
    · exact stringLiteral_quiet
  refine .skip fun _ => hkey.bind fun key hkey => .skip fun _ => ?_
  exact stringLiteral_quiet.bind fun _ hvalue => quietNode_quiet rfl rfl (by simpa using ⟨hkey, hvalue⟩)

theorem importAttributes_quiet : Yields (fun ns => ∀ n ∈ ns, n.Quiet) importAttributes := by
  refine .skip fun _ => .skip fun _ => .ite ?_ (.pure (by simp))
  refine .skip fun _ => .skip fun _ => (separated_yields importAttribute_quiet).bind fun items hitems => ?_
  refine .bind (quietNode_quiet rfl rfl hitems) fun attributes hattributes => ?_
  exact .bind (quietNode_quiet rfl rfl (by simpa using hattributes)) fun _ hn => .pure (by simpa using hn)

/-- Nothing in an import statement opens a scope or is a declaration of its own. -/
theorem importStatement_whole : Yields Whole importStatement := by
  have hparts : Yields (fun ns => ∀ n ∈ ns, n.Quiet) ((do return [← moduleSource]) <|> (do
      let clause ← importClause
      let source ← fromModule
      return [clause, source])) := by
    refine .orElse ?_ ?_
    · exact moduleSource_quiet.bind fun _ hn => .pure (by simpa using hn)
    · refine importClause_quiet.bind fun clause hclause => ?_
      exact fromModule_quiet.bind fun _ hsource => .pure (by simpa using ⟨hclause, hsource⟩)
  refine .skip fun _ => .skip fun _ => hparts.bind fun parts hparts => ?_
  refine importAttributes_quiet.bind fun attributes hattributes => .skip fun _ => ?_
  have hall : ∀ n ∈ parts ++ attributes, n.Quiet := List.forall_mem_append.2 ⟨hparts, hattributes⟩
  refine nodeFrom_whole (List.nil_subset _) ⟨fun h => ?_, fun _ n hn => (hall n hn).2⟩ ?_
  · cases h
  · exact allWhole_iff.2 fun n hn => (hall n hn).1

theorem exportSpecifier_whole : Yields Whole exportSpecifier := by
  refine .skip fun _ => moduleName_whole.bind fun name hname => .skip fun _ => .ite ?_ ?_
  · exact moduleName_whole.bind fun _ hnew => plainNode_whole rfl (by simp [hname, hnew])
  · exact plainNode_whole rfl (by simpa using hname)

theorem exportClause_whole : Yields Whole exportClause :=
  .skip fun _ => .skip fun _ => (separated_whole exportSpecifier_whole).bind fun _ hitems =>
    plainNode_whole rfl hitems

theorem exportAll_whole : Yields AllWhole exportAll := by
  refine .skip fun _ => .skip fun _ => .skip fun _ => .ite ?_ ?_
  · refine moduleName_whole.bind fun name hname => ?_
    refine .bind (plainNode_whole rfl hname) fun names hnames => ?_
    exact fromModule_whole.bind fun _ hsource => .pure ⟨hnames, hsource, trivial⟩
  · exact fromModule_whole.bind fun _ hsource => .pure ⟨hsource, trivial⟩

theorem declared_whole (hg : g.Whole) : Yields Whole (functionNode g true <|> classNode g true) :=
  (functionNode_whole hg true).orElse (classNode_whole hg true)

theorem declaration_whole (hg : g.Whole) : Yields Whole (declaration g) := by
  refine declarationKind?_plain.bind fun o ho => ?_
  cases o with
  | some kind => exact variableDeclaration_whole hg (ho kind rfl)
  | none => exact declared_whole hg

theorem exported_whole (hg : g.Whole) : Yields AllWhole (exported g) := by
  refine .skip fun _ => ?_
  split
  · exact exportAll_whole.bind fun _ hparts => .skip fun _ => .pure hparts
  · refine exportClause_whole.bind fun clause hclause => .skip fun _ => ?_
    refine .optionalNode fromModule_whole (fun _ hn => hn) fun source hsource => .skip fun _ => ?_
    exact .pure ⟨hclause, hsource⟩
  · refine .skip fun _ => .orElse ?_ ?_
    · exact (declared_whole hg).bind fun _ hn => .pure (by simpa using hn)
    · exact hg.assignment.bind fun _ hvalue => .skip fun _ => .pure (by simpa using hvalue)
  · exact (declaration_whole hg).bind fun _ hn => .pure (by simpa using hn)

theorem exportStatement_whole (hg : g.Whole) : Yields Whole (exportStatement g) :=
  .skip fun _ => .skip fun _ => (exported_whole hg).bind fun _ hparts => plainNode_whole rfl hparts

/-! ### Statements -/

theorem plainStatement_whole (hg : g.Whole) : Yields Whole (plainStatement g) :=
  (labeledStatement_whole hg).orElse (expressionStatement_whole hg)

theorem declarationStatement_whole (hg : g.Whole) : Yields Whole (declarationStatement g) := by
  refine declarationKind?_plain.bind fun o ho => ?_
  cases o with
  | some kind => exact variableDeclaration_whole hg (ho kind rfl)
  | none => exact plainStatement_whole hg

theorem wordStatement_whole (hg : g.Whole) (w : String) : Yields Whole (wordStatement g w) := by
  unfold wordStatement
  split
  · exact declarationStatement_whole hg
  · exact declarationStatement_whole hg
  · exact declarationStatement_whole hg
  · exact functionNode_whole hg true
  · exact .skip fun _ => .ite (functionNode_whole hg true) (plainStatement_whole hg)
  · exact classNode_whole hg true
  · exact ifStatement_whole hg
  · exact forLoop_whole hg
  · exact whileStatement_whole hg
  · exact doStatement_whole hg
  · exact withStatement_whole hg
  · exact tryStatement_whole hg
  · exact switchStatement_whole hg
  · exact jumpStatement_whole _ rfl
  · exact jumpStatement_whole _ rfl
  · exact returnStatement_whole hg
  · exact throwStatement_whole hg
  · exact debuggerStatement_whole
  · exact plainStatement_whole hg

theorem statementRule_whole (hg : g.Whole) : Yields Whole (statementRule g) := by
  refine Yields.within (.skip fun _ => ?_) _
  split
  · exact statementBlock_whole hg
  · exact leaf_whole rfl
  · exact wordStatement_whole hg _
  · exact expressionStatement_whole hg

theorem itemRule_whole (hg : g.Whole) : Yields Whole (itemRule g) := by
  refine Yields.within (.skip fun _ => ?_) _
  split
  · exact importStatement_whole.orElse (plainStatement_whole hg)
  · exact exportStatement_whole hg
  · exact statementRule_whole hg

/-! ### Programs and embedded expressions -/

theorem Grammar.Whole.step (hg : g.Whole) : g.step.Whole where
  expression := expressionRule_whole hg
  assignment := assignmentRule_whole hg false
  cover := assignmentRule_whole hg true
  binary := binaryRule_whole hg
  unary := unaryRule_whole hg
  access := accessRule_whole hg
  callee := calleeRule_whole hg
  pattern := patternRule_whole hg
  statement := statementRule_whole hg

/-- The grammar of every depth gives whole nodes. -/
theorem Grammar.Whole.ofDepth (n : Nat) : (Grammar.ofDepth n).Whole := by
  induction n with
  | zero => exact .empty
  | succ n ih => exact ih.step

namespace Node

mutual

/-- Numbering changes neither the kinds nor the roles of nodes. -/
theorem only_numberFrom {p : Kind → Bool} : ∀ {n : Node} (next : Nat), n.Only p →
    (n.numberFrom next).1.Only p
  | .mk _ _ _ _ _ _, next, h =>
      only_iff.2 ⟨(only_iff.1 h).1, only_numberAllFrom (next + 1) (only_iff.1 h).2⟩

theorem only_numberAllFrom {p : Kind → Bool} : ∀ {ns : List Node} (next : Nat), (∀ n ∈ ns, n.Only p) →
    ∀ n ∈ (numberAllFrom next ns).1, n.Only p
  | [], _, h => h
  | c :: cs, next, h => by
      rw [numberAllFrom_cons]
      exact List.forall_mem_cons.2 ⟨only_numberFrom next (h c (List.mem_cons_self ..)),
        only_numberAllFrom _ fun n hn => h n (List.mem_cons_of_mem c hn)⟩

end

theorem functionPart_numberFrom {k : Kind} {c : Node} (next : Nat) (h : k.FunctionPart c) :
    k.FunctionPart (c.numberFrom next).1 := by
  have hname (h : c.IsName) : (c.numberFrom next).1.IsName := by
    obtain ⟨k, r, a, b, i, cs⟩ := c
    obtain ⟨rfl, rfl⟩ : k = .identifier ∧ cs = [] := h
    exact ⟨rfl, rfl⟩
  have hproperty (h : c.NamesProperty) : (c.numberFrom next).1.NamesProperty := by
    refine h.imp (fun h => ?_) (only_numberFrom next)
    cases c
    exact h
  have hrole : (c.numberFrom next).1.role = c.role := by
    cases c
    rfl
  unfold Kind.FunctionPart at h ⊢
  rw [hrole]
  refine h.imp_right (Or.imp_right (Or.imp (And.imp_right hname) (And.imp_right fun h => ?_)))
  split
  · next hk =>
      rw [if_pos hk] at h
      exact hproperty h
  · next hk =>
      rw [if_neg hk] at h
      exact ⟨hname h.1, h.2⟩

theorem functionPart_numberAllFrom {k : Kind} {ns : List Node} (next : Nat)
    (h : ∀ c ∈ ns, k.FunctionPart c) : ∀ c ∈ (numberAllFrom next ns).1, k.FunctionPart c := by
  induction ns generalizing next with
  | nil => exact h
  | cons c cs ih =>
      rw [numberAllFrom_cons]
      exact List.forall_mem_cons.2 ⟨functionPart_numberFrom next (h c (List.mem_cons_self ..)),
        ih _ fun n hn => h n (List.mem_cons_of_mem c hn)⟩

mutual

theorem Whole.numberFrom : ∀ {n : Node} (next : Nat), n.Whole →
    (n.numberFrom next).1.Whole ∧ (n.numberFrom next).1.role = n.role
  | .mk k _ _ _ _ cs, next, h => by
      obtain ⟨hcs, hroles⟩ := AllWhole.numberAllFrom (next + 1) h.2
      refine ⟨⟨⟨?_, fun hk => ⟨?_, ?_⟩, fun hk => ?_⟩, hcs⟩, rfl⟩
      · rw [hroles]
        exact h.1.1
      · rw [hroles]
        exact (h.1.2.1 hk).1
      · exact functionPart_numberAllFrom (next + 1) (h.1.2.1 hk).2
      · exact only_numberAllFrom (next + 1) (h.1.2.2 hk)

theorem AllWhole.numberAllFrom : ∀ {ns : List Node} (next : Nat), AllWhole ns →
    AllWhole (numberAllFrom next ns).1 ∧ (numberAllFrom next ns).1.map role = ns.map role
  | [], _, _ => ⟨trivial, rfl⟩
  | c :: cs, next, h => by
      obtain ⟨hc, hrole⟩ := Whole.numberFrom next h.1
      obtain ⟨hcs, hroles⟩ := AllWhole.numberAllFrom (c.numberFrom next).2 h.2
      exact ⟨⟨hc, hcs⟩, congrArg₂ List.cons hrole hroles⟩

end

end Node

/-- The tree of a text is whole. -/
theorem parseProgram?_whole {cs : List Char} {root : Node} (h : parseProgram? cs = some root) :
    root.Whole := by
  obtain ⟨⟨tree, c⟩, hrun, rfl⟩ := Option.map_eq_some_iff.1 h
  have hprogram : Yields Whole (programRule (.ofDepth (depthOf cs)) (Text.byteLength cs)) :=
    .skip fun _ => (repeatUntil_whole (itemRule_whole (.ofDepth _))).bind fun _ hstatements =>
      .pure ⟨⟨List.nil_subset _, Kind.fits_of_isFree rfl _⟩, hstatements⟩
  exact (Whole.numberFrom 0 (hprogram .statement (.ofText cs) tree c hrun)).1

/-- An expression embedded in markup is whole. -/
theorem embedded?_whole {slice : List Char} {offset : Nat} {e : Embedded}
    (h : embedded? slice offset = some e) : e.node.Whole := by
  obtain ⟨source, hsource, h⟩ := Option.bind_eq_some_iff.1 h
  obtain ⟨node, hnode, h⟩ := Option.bind_eq_some_iff.1 h
  cases h
  obtain ⟨root, hroot, rfl⟩ := Option.map_eq_some_iff.1 hsource
  refine (parseProgram?_whole hroot).of_mem_walk ?_
  exact (walk_sublist_of_onlyExpression? hnode).subset (by cases node; exact List.mem_cons_self)

/-! ### Targets -/

theorem Kind.requires_of_isAssignment {k : Kind} (h : k.isAssignment = true) :
    k.requires = [.left, .right] := by
  unfold Kind.isAssignment at h
  split at h
  · rfl
  · rfl
  · cases h

/-- A mutation in a whole tree has a target. -/
theorem exists_mutationTarget? {n : Node} (hwhole : n.Whole) (h : n.kind.isMutation = true) :
    ∃ target, mutationTarget? n = some target := by
  unfold mutationTarget?
  by_cases hassignment : n.kind.isAssignment = true
  · rw [if_pos hassignment]
    exact hwhole.child (by simp [Kind.requires_of_isAssignment hassignment])
  · have hupdate : n.kind = .updateExpression := by
      unfold Kind.isMutation at h
      split at h
      · next hkind => exact hkind
      · exact absurd h hassignment
    rw [if_neg hassignment, hupdate, if_pos (beq_self_eq_true _)]
    exact hwhole.child (by simp [hupdate, Kind.requires])

end ReactiveTemplate.Script

/-
**What is lifted out of the script, and what stays in it.**

Generation takes the script apart: reactive statements become blocks of their own, imports move to the
front, and the other statements stay.  Nothing is lost and nothing is written twice.  Each reactive
statement is lifted once, as the bytes of its assignment, and each other statement is kept once, with
the bytes it had and in the order it had.

The texts are not always read back as what they were.  An assignment to an object needs the parentheses
that lifting strips, and a statement that ends at a line end may go on with the next one when what
stood between them is gone.

Main results:

* `ReactiveTemplate.lifts_each_reactive_statement` — what is lifted;
* `ReactiveTemplate.keeps_each_other_statement` — what is kept;
* `ReactiveTemplate.lifted_object_assignment_unreadable`, `ReactiveTemplate.kept_statements_fuse` — texts
  that are not read back.
-/

import ReactiveTemplate.Proofs.Sessions.Runs

set_option relaxedAutoImplicit false
set_option autoImplicit false

namespace ReactiveTemplate

open Script

/-! ### Statements and declarations -/

/-- Whether a statement is reactive. -/
def isReactive (program : Source) (label : String) (statement : Node) : Bool :=
  (reactiveAssignment? program label statement).isSome

/-- The reactive statements give the declarations, in the same order. -/
theorem reactiveDeclarations_of_filter {program : Source} {label : String} :
    ∀ (index : Nat) (ss : List Node),
      List.Forall₂ (fun s r => reactiveAssignment? program label s = some r.node)
        (ss.filter (isReactive program label)) (reactiveDeclarations program label index ss)
  | _, [] => .nil
  | index, s :: ss => by
      have ih := @reactiveDeclarations_of_filter program label (index + 1) ss
      rw [reactiveDeclarations]
      cases hs : reactiveAssignment? program label s with
      | none =>
          rw [List.filter_cons_of_neg (by simp [isReactive, hs])]
          exact ih
      | some a =>
          rw [List.filter_cons_of_pos (by simp [isReactive, hs])]
          exact .cons hs ih

/-- A list that pairs with another one has, for every order of the other, an order that pairs with it. -/
theorem exists_perm_forall₂ {α β : Type} {R : α → β → Prop} {xs : List α} {ys zs : List β}
    (h : List.Forall₂ R xs ys) (hperm : zs.Perm ys) : ∃ ws, ws.Perm xs ∧ List.Forall₂ R ws zs := by
  obtain ⟨ws, hws, hR⟩ := List.perm_comp_forall₂ hperm h.flip
  exact ⟨ws, hR, hws.flip⟩

/-- Two pairings of lists, one after the other. -/
theorem forall₂_comp {α β γ : Type} {R : α → β → Prop} {S : β → γ → Prop} {xs : List α} {ys : List β}
    {zs : List γ} (h : List.Forall₂ R xs ys) (h' : List.Forall₂ S ys zs) :
    List.Forall₂ (Relation.Comp R S) xs zs := by
  induction h generalizing zs with
  | nil =>
      cases h'
      exact .nil
  | cons hxy _ ih =>
      cases h' with
      | cons hyz hrest => exact .cons ⟨_, hxy, hyz⟩ (ih hrest)

/-! ### What is lifted -/

theorem reactiveBlocks_source {program : Source} {bindings : Bindings} :
    ∀ {ds : List ReactiveDeclaration} {bs : List ReactiveBlock},
      reactiveBlocks (some program) bindings ds = .ok bs →
      List.Forall₂ (fun d b => b.source = program.slice d.node) ds bs
  | [], bs, h => by
      cases h
      exact .nil
  | d :: ds, bs, h => by
      obtain ⟨b, hb, h⟩ := exists_of_bind_eq_ok h
      obtain ⟨rest, hrest, h⟩ := exists_of_bind_eq_ok h
      cases h
      refine .cons ?_ (reactiveBlocks_source hrest)
      unfold reactiveBlock at hb
      dsimp only at hb
      split at hb
      · cases hb
        rfl
      · obtain ⟨indices, -, hb⟩ := exists_of_bind_eq_ok hb
        cases hb
        rfl

theorem isAssignment_of_reactiveAssignment? {program : Source} {label : String} {statement n : Node}
    (h : reactiveAssignment? program label statement = some n) : n.kind.isAssignment = true := by
  unfold reactiveAssignment? at h
  obtain ⟨_, _, h⟩ := Option.bind_eq_some_iff.1 h
  obtain ⟨_, _, h⟩ := Option.bind_eq_some_iff.1 h
  obtain ⟨_, _, h⟩ := Option.bind_eq_some_iff.1 h
  obtain ⟨_, _, h⟩ := Option.bind_eq_some_iff.1 h
  obtain ⟨_, _, h⟩ := Option.bind_eq_some_iff.1 h
  split at h
  · obtain ⟨_, hguard, h⟩ := Option.bind_eq_some_iff.1 h
    cases h
    by_contra hnot
    rw [guard, if_neg hnot] at hguard
    cases hguard
  · cases h

/-- What lifting makes of a reactive statement: a block that starts with the bytes of its assignment. -/
structure LiftedAs (program : Source) (label : String) (statement : Node) (b : ReactiveBlock) : Prop where
  assignment : ∃ n, reactiveAssignment? program label statement = some n ∧ n ∈ statement.walk ∧
    n.kind.isAssignment = true ∧ n.Intact program.text ∧ b.statements.head? = some (program.slice n ++ ";")

/-- The script block of a document that was read holds all statements of its script. -/
theorem body_of_parse {template filename : String} {d : Document} {b : ScriptBlock}
    (hd : Document.parse template filename = .ok d) (hb : d.script = some b) :
    b.body = b.program.statements := by
  rcases exists_ofScript?_of_content (Document.derives_of_parse hd).content hb with
    hnone | ⟨-, -, program, -, rfl, hbody⟩
  · cases hnone
  · exact hbody

/-- For every template that compiles, each reactive statement of its script is lifted exactly once: the
blocks are those of the reactive statements in some order, and each starts with the bytes of the
assignment in its statement. -/
theorem lifts_each_reactive_statement {options : Options} {template : String} {d : Document}
    {b : ScriptBlock} {c : Compiled} (hd : Document.parse template options.filename = .ok d)
    (hb : d.script = some b) (hc : compile options template = .ok c) :
    ∃ statements,
      statements.Perm (b.program.statements.filter (isReactive b.program options.reactiveLabel)) ∧
      List.Forall₂ (LiftedAs b.program options.reactiveLabel) statements c.generated.reactive := by
  obtain ⟨markup, ordered, -, horder, -, hassemble⟩ := exists_assemble_of_generate (compile_eq_ok hd hc)
  have hblocks := (assemble_eq_ok hassemble).2.1
  have hprogram : ((d.analyze options).2.announced (d.analyze options).1).program? = some b.program := by
    simp [Document.program?, Document.announced, Document.analyze, hb, ScriptBlock.announced,
      ScriptBlock.withoutReactive]
  rw [hprogram] at hblocks
  -- the declarations are those of the statements, and only their order has changed
  have hreactive : (d.analyze options).1.reactive =
      reactiveDeclarations b.program options.reactiveLabel 0 b.program.statements := by
    rw [(collects_analyze options d).reactive, Document.scriptAnalysis, hb, ← body_of_parse hd hb]
    rfl
  have hperm := (orderDeclarations_eq_ok horder).1
  rw [hreactive] at hperm
  obtain ⟨statements, hstatements, hpairs⟩ := exists_perm_forall₂
    (reactiveDeclarations_of_filter 0 b.program.statements) hperm
  refine ⟨statements, hstatements, ?_⟩
  have hintact := ((Session.Sound.start hd).intact.script b hb).1
  have hmem : ∀ s ∈ statements, s ∈ b.program.root.children := fun s hs =>
    List.mem_of_mem_filter (hstatements.mem_iff.1 hs)
  have hlifted := (List.forall₂_and_left _ _).2 ⟨hmem, forall₂_comp hpairs (reactiveBlocks_source hblocks)⟩
  refine hlifted.imp ?_
  rintro s block ⟨hs, r, hr, hsource⟩
  refine ⟨r.node, hr, ?_, ?_, ?_, ?_⟩
  · exact mem_walk_of_reactiveAssignment? hr
  · exact isAssignment_of_reactiveAssignment? hr
  · exact hintact r.node (Node.walk_subset_of_mem hs (mem_walk_of_reactiveAssignment? hr))
  · rw [← hsource]
    rfl

/-- Two statements are lifted, one of them out of parentheses, and the one that is read comes first. -/
theorem lifts_each_reactive_statement_twice :
    ∃ d b c, Document.parse "<script>$: x = y + 1\n$: (y = z)</script>" Options.default.filename = .ok d ∧
      d.script = some b ∧
      compile .default "<script>$: x = y + 1\n$: (y = z)</script>" = .ok c ∧
      c.generated.reactive.map (fun block => block.statements.head?) = [some "y = z;", some "x = y + 1;"] ∧
      ∃ statements,
        statements.Perm (b.program.statements.filter (isReactive b.program Options.default.reactiveLabel)) ∧
        List.Forall₂ (LiftedAs b.program Options.default.reactiveLabel) statements c.generated.reactive := by
  have hread : ((Document.parse "<script>$: x = y + 1\n$: (y = z)</script>" Options.default.filename).toOption.any
      fun d => d.script.isSome) = true := by decide +kernel
  have hrun : ((compile .default "<script>$: x = y + 1\n$: (y = z)</script>").toOption.any fun c =>
      c.generated.reactive.map (fun block => block.statements.head?) ==
        [some "y = z;", some "x = y + 1;"]) = true := by
    decide +kernel
  obtain ⟨d, hd, hscript⟩ := (Option.any_eq_true _ _).1 hread
  obtain ⟨b, hb⟩ := Option.isSome_iff_exists.1 hscript
  obtain ⟨c, hc, hblocks⟩ := (Option.any_eq_true _ _).1 hrun
  have hd := toOption_eq_some_iff.1 hd
  have hc := toOption_eq_some_iff.1 hc
  exact ⟨d, b, c, hd, hb, hc, beq_iff_eq.1 hblocks, lifts_each_reactive_statement hd hb hc⟩

/-! ### What is kept -/

theorem forall₂_of_patchedTexts {s : ScriptBlock} :
    ∀ {ns : List Node} {texts : List String}, patchedTexts s ns = .ok texts →
      List.Forall₂ (fun n text => patchedText? s.program s.patch n = some text) ns texts
  | [], _, h => by
      cases h
      exact .nil
  | n :: ns, texts, h => by
      rw [patchedTexts] at h
      split at h
      · next text hsome =>
          obtain ⟨_, htext, h⟩ := exists_of_bind_eq_ok h
          cases htext
          obtain ⟨rest, hrest, h⟩ := exists_of_bind_eq_ok h
          cases h
          exact .cons hsome (forall₂_of_patchedTexts hrest)
      · cases h

/-- For every template that compiles, each statement of its script that is not reactive is kept exactly
once, imports and the others in the order they had, and what is written for it are its own bytes with
the announcements put in. -/
theorem keeps_each_other_statement {options : Options} {template : String} {d : Document}
    {b : ScriptBlock} {c : Compiled} (hd : Document.parse template options.filename = .ok d)
    (hb : d.script = some b) (hc : compile options template = .ok c) :
    ∃ patch,
      List.Forall₂ (fun n text => patchedText? b.program patch n = some text)
        ((b.program.statements.filter fun n => !isReactive b.program options.reactiveLabel n).filter isImport)
        c.generated.imports ∧
      List.Forall₂ (fun n text => patchedText? b.program patch n = some text)
        ((b.program.statements.filter fun n => !isReactive b.program options.reactiveLabel n).filter
          fun n => !isImport n)
        c.generated.body := by
  obtain ⟨-, -, -, -, htexts⟩ := generate_eq_ok_parts (compile_eq_ok hd hc)
  have hscript : ((d.analyze options).2.announced (d.analyze options).1).script =
      some ((b.withoutReactive options.reactiveLabel).announced (d.analyze options).1) := by
    simp [Document.announced, Document.analyze, hb]
  have hbody : (b.withoutReactive options.reactiveLabel).body =
      b.program.statements.filter fun n => !isReactive b.program options.reactiveLabel n := by
    rw [ScriptBlock.withoutReactive, keptStatements, body_of_parse hd hb]
    simp [isReactive]
  rw [hscript] at htexts
  obtain ⟨imports, himports, htexts⟩ := exists_of_bind_eq_ok htexts
  obtain ⟨body, hbodyTexts, htexts⟩ := exists_of_bind_eq_ok htexts
  cases htexts
  refine ⟨((b.withoutReactive options.reactiveLabel).announced (d.analyze options).1).patch, ?_, ?_⟩
  · rw [← hbody]
    exact forall₂_of_patchedTexts himports
  · rw [← hbody]
    exact forall₂_of_patchedTexts hbodyTexts

/-- The import moves to the front, the reactive statement is gone, and the change is announced. -/
theorem keeps_each_other_statement_in_order :
    ∃ d b c, Document.parse "<script>let n = 0;\n$: x = n;\nimport \"m\";\nn = 1;</script><p>\x7bn\x7d</p>"
        Options.default.filename = .ok d ∧
      d.script = some b ∧
      compile .default "<script>let n = 0;\n$: x = n;\nimport \"m\";\nn = 1;</script><p>\x7bn\x7d</p>" = .ok c ∧
      c.generated.imports = ["import \"m\";"] ∧
      c.generated.body = ["let n = 0;", "$$invalidate([0], n = 1);"] ∧
      ∃ patch,
        List.Forall₂ (fun n text => patchedText? b.program patch n = some text)
          ((b.program.statements.filter fun n =>
            !isReactive b.program Options.default.reactiveLabel n).filter isImport)
          c.generated.imports ∧
        List.Forall₂ (fun n text => patchedText? b.program patch n = some text)
          ((b.program.statements.filter fun n =>
            !isReactive b.program Options.default.reactiveLabel n).filter fun n => !isImport n)
          c.generated.body := by
  have hread : ((Document.parse
      "<script>let n = 0;\n$: x = n;\nimport \"m\";\nn = 1;</script><p>\x7bn\x7d</p>"
      Options.default.filename).toOption.any fun d => d.script.isSome) = true := by decide +kernel
  have hrun : ((compile .default
      "<script>let n = 0;\n$: x = n;\nimport \"m\";\nn = 1;</script><p>\x7bn\x7d</p>").toOption.any
      fun c => c.generated.imports == ["import \"m\";"] &&
        c.generated.body == ["let n = 0;", "$$invalidate([0], n = 1);"]) = true := by
    decide +kernel
  obtain ⟨d, hd, hscript⟩ := (Option.any_eq_true _ _).1 hread
  obtain ⟨b, hb⟩ := Option.isSome_iff_exists.1 hscript
  obtain ⟨c, hc, htexts⟩ := (Option.any_eq_true _ _).1 hrun
  obtain ⟨himports, hbody⟩ := Bool.and_eq_true_iff.1 htexts
  have hd := toOption_eq_some_iff.1 hd
  have hc := toOption_eq_some_iff.1 hc
  exact ⟨d, b, c, hd, hb, hc, beq_iff_eq.1 himports, beq_iff_eq.1 hbody,
    keeps_each_other_statement hd hb hc⟩

/-! ### Texts that are not read back -/

/-- Without its parentheses, an assignment to an object starts with a brace, which opens a block. -/
theorem lifted_object_assignment_unreadable :
    ∃ c, compile .default "<script>$: (\x7ba\x7d = b)</script>" = .ok c ∧
      c.generated.reactive.map (fun b => b.statements.head?) = [some "\x7ba\x7d = b;"] ∧
      parseProgram? "\x7ba\x7d = b;".toList = none := by
  have hrun : ((compile .default "<script>$: (\x7ba\x7d = b)</script>").toOption.any fun c =>
      c.generated.reactive.map (fun b => b.statements.head?) == [some "\x7ba\x7d = b;"]) = true := by
    decide +kernel
  have hnone : (parseProgram? "\x7ba\x7d = b;".toList).isNone = true := by decide +kernel
  obtain ⟨c, hc, hrun⟩ := (Option.any_eq_true _ _).1 hrun
  exact ⟨c, toOption_eq_some_iff.1 hc, beq_iff_eq.1 hrun, Option.isNone_iff_eq_none.1 hnone⟩

/-- The reactive statement between them kept two statements apart. -/
theorem kept_statements_fuse :
    ∃ c, compile .default "<script>a = b\n$: x = 1;\n(c)</script>" = .ok c ∧
      c.generated.body = ["a = b", "(c)"] ∧
      ∃ root, parseProgram? "a = b\n(c)".toList = some root ∧ root.children.length = 1 := by
  have hrun : ((compile .default "<script>a = b\n$: x = 1;\n(c)</script>").toOption.any fun c =>
      c.generated.body == ["a = b", "(c)"]) = true := by
    decide +kernel
  have hone : ((parseProgram? "a = b\n(c)".toList).any fun root => root.children.length == 1) = true := by
    decide +kernel
  obtain ⟨c, hc, hrun⟩ := (Option.any_eq_true _ _).1 hrun
  obtain ⟨root, hroot, hone⟩ := (Option.any_eq_true _ _).1 hone
  exact ⟨c, toOption_eq_some_iff.1 hc, beq_iff_eq.1 hrun, root, hroot, beq_iff_eq.1 hone⟩

end ReactiveTemplate

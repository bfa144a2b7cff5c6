/-
**Where the statements of a script go in its module.**

A module has four places for statements: lines before the exported function for imports, lines in it for
the statements that are not reactive, lines behind those for the reactive statements that read nothing,
and guarded blocks in the function that updates for the other reactive statements.  Each statement of the
script goes to exactly one of them.  Imports and other statements keep the order of the script, reactive
statements are in the order in which they run.

A line that holds only white space is written as an empty line.  The next line character `U+0085` is
white space for lines but a letter in a script, so a statement that is a name made of it is lost.

Main definitions:

* `ReactiveTemplate.readsName` — whether a reactive statement reads a name;
* `ReactiveTemplate.InRunningOrder` — the reactive statements as they run;
* `ReactiveTemplate.Component.around` — the module around its four places;
* `ReactiveTemplate.StatementPlaces` — what stands in the places of a compiled module.

Main results:

* `ReactiveTemplate.layout_eq_around` — a module is what stands in the four places and what is around;
* `ReactiveTemplate.perm_places` — the statements are shared out;
* `ReactiveTemplate.places_each_statement_once` — **each statement has one place**;
* `ReactiveTemplate.blank_name_lost` — a statement that is lost.
-/

import ReactiveTemplate.Proofs.ChangeSets
import ReactiveTemplate.Proofs.Extraction
import ReactiveTemplate.Proofs.Reordering

set_option relaxedAutoImplicit false
set_option autoImplicit false

namespace ReactiveTemplate

open Script

/-! ### The statements of a script -/

/-- Whether a reactive statement reads a name, which it does on the right side of its assignment. -/
def readsName (program : Source) (label : String) (statement : Node) : Bool :=
  (reactiveAssignment? program label statement).any fun n =>
    (n.child? .right).any fun right => !(references right).isEmpty

/-- The reactive statements of a script in the order in which they run: the next one is always the first
in the script of those that wait for none of the rest. -/
def InRunningOrder (program : Source) (label : String) (statements order : List Node) : Prop :=
  ∃ places,
    LeastOrder ((reactiveDeclarations program label 0 statements).map ReactiveDeclaration.toDependent) []
      places ∧
    places.Perm (List.range (statements.filter (isReactive program label)).length) ∧
    order = places.filterMap fun i => (statements.filter (isReactive program label))[i]?

theorem InRunningOrder.perm {program : Source} {label : String} {statements order : List Node}
    (h : InRunningOrder program label statements order) :
    order.Perm (statements.filter (isReactive program label)) := by
  obtain ⟨places, -, hperm, rfl⟩ := h
  have hmap := hperm.filterMap fun i => (statements.filter (isReactive program label))[i]?
  rwa [filterMap_getElem?_range] at hmap

/-- Imports are not reactive. -/
theorem isReactive_of_isImport {program : Source} {label : String} {statement : Node}
    (h : isImport statement = true) : isReactive program label statement = false := by
  rw [Bool.eq_false_iff]
  intro hreactive
  obtain ⟨n, hn⟩ := isReactive_iff.1 hreactive
  have hkind := hn.kind
  rw [beq_iff_eq.1 h] at hkind
  cases hkind

theorem filter_isImport_keptStatements (program : Source) (label : String) (statements : List Node) :
    (keptStatements program label statements).filter isImport = statements.filter isImport := by
  rw [keptStatements, List.filter_filter]
  refine List.filter_congr fun s _ => ?_
  cases hs : isImport s with
  | false => rfl
  | true =>
      have hkept := @isReactive_of_isImport program label s hs
      rw [isReactive, Option.isSome_eq_false_iff] at hkept
      rw [hkept, Bool.and_self]

theorem filter_not_isImport_keptStatements (program : Source) (label : String) (statements : List Node) :
    ((keptStatements program label statements).filter fun s => !isImport s) =
      statements.filter fun s => !isReactive program label s && !isImport s := by
  rw [keptStatements, List.filter_filter]
  refine List.filter_congr fun s _ => ?_
  rw [isReactive, Option.not_isSome, Bool.and_comm]

/-- Each statement goes to one of the four places. -/
theorem perm_places {program : Source} {label : String} {statements order : List Node}
    (h : order.Perm (statements.filter (isReactive program label))) :
    (statements.filter isImport ++
      (statements.filter fun s => !isReactive program label s && !isImport s) ++
      (order.filter fun s => !readsName program label s) ++
      order.filter (readsName program label)).Perm statements := by
  have hkept : (statements.filter isImport ++
      statements.filter fun s => !isReactive program label s && !isImport s).Perm
      (statements.filter fun s => !isReactive program label s) := by
    rw [← filter_isImport_keptStatements program label, ← filter_not_isImport_keptStatements]
    refine (List.filter_append_perm ..).trans (.of_eq ?_)
    simp only [keptStatements, isReactive, Option.not_isSome]
  have hreactive : ((order.filter fun s => !readsName program label s) ++
      order.filter (readsName program label)).Perm (statements.filter (isReactive program label)) :=
    List.perm_append_comm.trans ((List.filter_append_perm ..).trans h)
  rw [List.append_assoc]
  exact (hkept.append hreactive).trans (List.perm_append_comm.trans (List.filter_append_perm ..))

/-! ### The four places of a module -/

/-- The module around its places for statements. -/
def Component.around (c : Component) (format : String) (imports body once : List String)
    (guarded updates : List Layout) : List Layout :=
  let inside :=
    Layout.lines (c.locals.map fun v => "let " ++ v ++ ";") ++ stateLayout c.bindings ++
      [.blank, markLayout (wordCount c.bindings), .blank, dispatchLayout] ++
      (if body.isEmpty then [] else .blank :: Layout.lines body) ++
      [.blank] ++ Layout.lines once ++
      [.line "$$flushing = false;", .line (announcementHead (c.bindings.map Prod.snd) ++ ");"), .blank,
        .braces "function update_reactive_declarations(dirty)" guarded,
        .blank, c.lifecycleLayout updates, .line "return $$lifecycle;"]
  (if imports.isEmpty then [] else Layout.lines imports ++ [.blank]) ++
    [if format = "esm" then .block "export default function() \x7b" inside "\x7d"
      else .block "module.exports = function() \x7b" inside "\x7d;"]

/-- The layout of a component, taken apart at the places for statements. -/
theorem layout_eq_around {c : Component} {format : String} {ls : List Layout}
    (h : c.layout format = .ok ls) :
    ∃ guarded updates, reactiveLayout c.bindings c.reactive = .ok guarded ∧
      updateLayout c.bindings c.update = .ok updates ∧
      ls = c.around format c.imports c.body c.constantStatements guarded updates := by
  obtain ⟨guarded, hguarded, h⟩ := exists_of_bind_eq_ok h
  obtain ⟨updates, hupdates, h⟩ := exists_of_bind_eq_ok h
  cases h
  exact ⟨guarded, updates, hguarded, hupdates, rfl⟩

/-- A guarded block for a reactive declaration. -/
structure GuardedAs (bindings : Bindings) (b : ReactiveBlock) (l : Layout) : Prop where
  block : ∃ guard, guardText bindings b.names "dirty" = .ok guard ∧
    l = .braces ("if (" ++ guard ++ ")") (Layout.lines b.statements)

/-- The blocks that wait for names are written in turn. -/
theorem guardedAs_of_reactiveLayout {bindings : Bindings} :
    ∀ {bs : List ReactiveBlock} {ls : List Layout}, reactiveLayout bindings bs = .ok ls →
      List.Forall₂ (GuardedAs bindings) (bs.filter fun b => !b.names.isEmpty) ls
  | [], ls, h => by
      cases h
      exact .nil
  | b :: bs, ls, h => by
      obtain ⟨rest, hrest, h⟩ := exists_of_bind_eq_ok h
      have ih := guardedAs_of_reactiveLayout hrest
      split at h
      · next hempty =>
          cases h
          rwa [List.filter_cons_of_neg (by simp [hempty])]
      · next hnames =>
          obtain ⟨l, hl, h⟩ := exists_of_bind_eq_ok h
          cases h
          obtain ⟨guard, hguard, hl⟩ := exists_of_bind_eq_ok hl
          cases hl
          rw [List.filter_cons_of_pos (by simpa using hnames)]
          exact .cons ⟨guard, hguard, rfl⟩ ih

/-- A block that waits for nothing is a single line. -/
theorem constantStatements_eq_map (c : Component) :
    c.constantStatements = (c.reactive.filter fun b => b.names.isEmpty).map fun b => b.source ++ ";" := by
  rw [Component.constantStatements, ← List.flatMap_pure_eq_map]
  refine List.flatMap_congr fun b hb => ?_
  have hempty : b.names.isEmpty = true := (List.mem_filter.1 hb).2
  rw [ReactiveBlock.statements, if_pos hempty]
  rfl

/-! ### Statements and blocks -/

/-- Lists that are paired stay paired when both are listed in one order. -/
theorem forall₂_arranged {α β : Type} {R : α → β → Prop} {xs : List α} {ys : List β}
    (h : List.Forall₂ R xs ys) (places : List Nat) :
    List.Forall₂ R (places.filterMap fun i => xs[i]?) (places.filterMap fun i => ys[i]?) := by
  induction places with
  | nil => exact .nil
  | cons i places ih =>
      by_cases hi : i < xs.length
      · have hi' : i < ys.length := h.length_eq ▸ hi
        rw [List.filterMap_cons_some (List.getElem?_eq_getElem hi),
          List.filterMap_cons_some (List.getElem?_eq_getElem hi')]
        exact .cons (h.get hi hi') ih
      · have hi' : ¬ i < ys.length := h.length_eq ▸ hi
        rw [List.filterMap_cons_none (List.getElem?_eq_none (Nat.le_of_not_lt hi)),
          List.filterMap_cons_none (List.getElem?_eq_none (Nat.le_of_not_lt hi'))]
        exact ih

theorem eq_ofAssignment_of_mem {program : Source} {label : String} {r : ReactiveDeclaration} :
    ∀ {index : Nat} {statements : List Node}, r ∈ reactiveDeclarations program label index statements →
      ∃ place, r = .ofAssignment program r.node place
  | _, [], h => by cases h
  | index, s :: statements, h => by
      rw [reactiveDeclarations] at h
      split at h
      · rcases List.mem_cons.1 h with rfl | h
        · exact ⟨index, rfl⟩
        · exact eq_ofAssignment_of_mem h
      · exact eq_ofAssignment_of_mem h

theorem isEmpty_referencedNames (program : Source) (n : Node) :
    (referencedNames program n).isEmpty = (references n).isEmpty := by
  rw [Bool.eq_iff_iff, List.isEmpty_iff, List.isEmpty_iff, List.eq_nil_iff_forall_not_mem, referencedNames]
  simp only [Names.mem_ofList, List.mem_map, not_exists, not_and]
  constructor
  · intro h
    exact List.eq_nil_iff_forall_not_mem.2 fun m hm => h _ m hm rfl
  · intro h name m hm
    rw [h] at hm
    cases hm

/-- A declaration waits for nothing exactly when its statement reads no name. -/
theorem isEmpty_dependencies {program : Source} {label : String} {s : Node} {r : ReactiveDeclaration}
    {place : Nat} (hs : reactiveAssignment? program label s = some r.node)
    (hr : r = .ofAssignment program r.node place) :
    r.dependencies.isEmpty = !readsName program label s := by
  rw [readsName, hs, hr, Option.any_some]
  unfold ReactiveDeclaration.ofAssignment
  dsimp only
  cases r.node.child? .right with
  | none => rfl
  | some right =>
      dsimp only [Option.any_some]
      rw [isEmpty_referencedNames, Bool.not_not]

/-- The blocks of declarations wait for all they read and run the assignment. -/
theorem forall₂_of_reactiveBlocks {program : Source} {a : Analysis} {bs : List ReactiveBlock}
    (h : reactiveBlocks (some program) a.bindings a.reactive = .ok bs) :
    List.Forall₂ (fun r b => b.names = r.dependencies ∧ b.source = program.slice r.node) a.reactive bs := by
  have hsource := reactiveBlocks_source h
  have hrender := List.forall₂_map_left_iff.1 (reactiveBlocks_render h)
  have hbound := List.forall_mem_map.1 a.binds_dependencies
  refine List.forall₂_iff_get.2 ⟨hsource.length_eq, fun i hi hi' => ⟨?_, hsource.get hi hi'⟩⟩
  exact (hrender.get hi hi').names_eq_dependencies (hbound _ (List.get_mem ..))

/-- A block made of a reactive statement: it runs the assignment, and it waits for something exactly when
the statement reads a name. -/
structure BlockOf (program : Source) (label : String) (s : Node) (b : ReactiveBlock) : Prop where
  source : ∃ n, DeclaresReactive program label s n ∧ b.source = program.slice n
  names : b.names.isEmpty = !readsName program label s

/-- The blocks of a component are made of the reactive statements in running order. -/
theorem exists_order_of_generate {options : Options} {d : Document} {b : ScriptBlock} {g : Generated}
    (hb : d.script = some b)
    (h : ((d.analyze options).2.generate options (d.analyze options).1).result = .ok g) :
    ∃ order, InRunningOrder b.program options.reactiveLabel b.body order ∧
      List.Forall₂ (BlockOf b.program options.reactiveLabel) order g.reactive := by
  obtain ⟨markup, ordered, -, horder, -, hassemble⟩ := exists_assemble_of_generate h
  have hblocks := (assemble_eq_ok hassemble).2.1
  have hprogram : ((d.analyze options).2.announced (d.analyze options).1).program? = some b.program := by
    simp [Document.program?, Document.announced, Document.analyze, hb, ScriptBlock.announced,
      ScriptBlock.withoutReactive]
  rw [hprogram] at hblocks
  have hreactive : (d.analyze options).1.reactive =
      reactiveDeclarations b.program options.reactiveLabel 0 b.body := by
    rw [(collects_analyze options d).reactive, Document.scriptAnalysis, hb]
    rfl
  obtain ⟨places, hplaces, rfl⟩ := exists_runningOrder_of_orderDeclarations horder
  rw [hreactive] at hplaces hblocks
  obtain ⟨hleast, hperm⟩ := leastOrder_of_runningOrder hplaces
  have hpairs := @reactiveDeclarations_of_filter b.program options.reactiveLabel 0 b.body
  rw [allPlaces, List.length_map, ← hpairs.length_eq] at hperm
  refine ⟨_, ⟨places, hleast, hperm, rfl⟩, ?_⟩
  have hmade : List.Forall₂ (fun s r => (∃ place, r = .ofAssignment b.program r.node place) ∧
      reactiveAssignment? b.program options.reactiveLabel s = some r.node)
      (b.body.filter (isReactive b.program options.reactiveLabel))
      (reactiveDeclarations b.program options.reactiveLabel 0 b.body) :=
    ((List.forall₂_and_left _ _).2 ⟨fun r hr => eq_ofAssignment_of_mem hr, hpairs.flip⟩).flip
  refine (forall₂_comp (forall₂_arranged hmade places) (forall₂_of_reactiveBlocks hblocks)).imp ?_
  rintro s block ⟨r, ⟨⟨place, hr⟩, hs⟩, hnames, hsource⟩
  refine ⟨⟨r.node, reactiveAssignment?_eq_some_iff.1 hs, hsource⟩, ?_⟩
  rw [hnames]
  exact isEmpty_dependencies hs hr

/-- What is written for the statements that are not reactive. -/
theorem forall₂_of_scriptTexts {s : ScriptBlock} {imports body : List String}
    (h : scriptTexts (some s) = .ok (imports, body)) :
    List.Forall₂ (fun n text => patchedText? s.program s.patch n = some text) (s.body.filter isImport)
      imports ∧
    List.Forall₂ (fun n text => patchedText? s.program s.patch n = some text)
      (s.body.filter fun n => !isImport n) body := by
  obtain ⟨imports', himports, h⟩ := exists_of_bind_eq_ok h
  obtain ⟨body', hbody, h⟩ := exists_of_bind_eq_ok h
  cases h
  exact ⟨forall₂_of_patchedTexts himports, forall₂_of_patchedTexts hbody⟩

section Written

variable {program : Source} {label : String} {order : List Node}

/-- The reactive statements that read nothing are written in turn. -/
theorem forall₂_constantStatements {c : Component}
    (h : List.Forall₂ (BlockOf program label) order c.reactive) :
    List.Forall₂ (fun s text => ∃ n, DeclaresReactive program label s n ∧ text = program.slice n ++ ";")
      (order.filter fun s => !readsName program label s) c.constantStatements := by
  rw [constantStatements_eq_map, List.forall₂_map_right_iff]
  have hfilter : List.Forall₂ (BlockOf program label) (order.filter fun s => !readsName program label s)
      (c.reactive.filter fun b => b.names.isEmpty) :=
    List.rel_filter (fun s b hb => Iff.of_eq (congrArg (· = true) hb.names.symm)) h
  refine hfilter.imp ?_
  rintro s b ⟨⟨n, hn, hsource⟩, -⟩
  exact ⟨n, hn, by rw [hsource]⟩

/-- The reactive statements that read a name are written in turn, each behind a guard. -/
theorem forall₂_guarded {bindings : Bindings} {bs : List ReactiveBlock} {guarded : List Layout}
    (h : List.Forall₂ (BlockOf program label) order bs) (hls : reactiveLayout bindings bs = .ok guarded) :
    List.Forall₂ (fun s l => ∃ n names guard indices, DeclaresReactive program label s n ∧
        guardText bindings names "dirty" = .ok guard ∧
        l = .braces ("if (" ++ guard ++ ")")
          (Layout.lines [program.slice n ++ ";", announcementHead indices ++ ");"]))
      (order.filter (readsName program label)) guarded := by
  have hfilter : List.Forall₂ (BlockOf program label) (order.filter (readsName program label))
      (bs.filter fun b => !b.names.isEmpty) :=
    List.rel_filter (fun s b hb => by simp [hb.names]) h
  have hnonempty : ∀ b ∈ bs.filter fun b => !b.names.isEmpty, b.names.isEmpty = false := fun b hb => by
    simpa using (List.mem_filter.1 hb).2
  refine (forall₂_comp hfilter
    ((List.forall₂_and_left _ _).2 ⟨hnonempty, guardedAs_of_reactiveLayout hls⟩)).imp ?_
  rintro s l ⟨b, ⟨⟨n, hn, hsource⟩, -⟩, hnames, guard, hguard, rfl⟩
  refine ⟨n, b.names, guard, b.indices, hn, hguard, ?_⟩
  rw [ReactiveBlock.statements, hnames, hsource]
  rfl

end Written

/-! ### Compiled modules -/

/-- Generation that succeeds leaves the patched document behind. -/
theorem document_of_generate {options : Options} {d : Document} {a : Analysis} {g : Generated}
    (h : (d.generate options a).result = .ok g) : (d.generate options a).document = d.announced a := by
  obtain ⟨markup, ordered, hmarkup, hordered, -, -⟩ := exists_assemble_of_generate h
  unfold Document.generate
  rw [hmarkup]
  dsimp only
  rw [hordered]

/-- Where the statements of a script stand in a compiled module. -/
structure StatementPlaces (options : Options) (b : ScriptBlock) (c : Compiled) (order : List Node)
    (script : ScriptBlock) (blocks updates : List Layout) : Prop where
  running : InRunningOrder b.program options.reactiveLabel b.program.statements order
  /-- The groups that go to the four places make up the statements. -/
  shared : (b.program.statements.filter isImport ++
    (b.program.statements.filter fun s => !isReactive b.program options.reactiveLabel s && !isImport s) ++
    (order.filter fun s => !readsName b.program options.reactiveLabel s) ++
    order.filter (readsName b.program options.reactiveLabel)).Perm b.program.statements
  patched : c.document.script = some script
  /-- Imports, with what the patch puts in. -/
  imports : List.Forall₂ (fun s text => patchedText? b.program script.patch s = some text)
    (b.program.statements.filter isImport) c.generated.imports
  /-- Statements that are neither imports nor reactive, with what the patch puts in. -/
  others : List.Forall₂ (fun s text => patchedText? b.program script.patch s = some text)
    (b.program.statements.filter fun s => !isReactive b.program options.reactiveLabel s && !isImport s)
    c.generated.body
  /-- Reactive statements that read no name, as assignments. -/
  once : List.Forall₂ (fun s text => ∃ n, DeclaresReactive b.program options.reactiveLabel s n ∧
      text = b.program.slice n ++ ";")
    (order.filter fun s => !readsName b.program options.reactiveLabel s) c.generated.constantStatements
  /-- Reactive statements that read a name, as assignments behind a guard. -/
  guarded : List.Forall₂ (fun s l => ∃ n names guard indices,
      DeclaresReactive b.program options.reactiveLabel s n ∧
      guardText c.generated.bindings names "dirty" = .ok guard ∧
      l = .braces ("if (" ++ guard ++ ")")
        (Layout.lines [b.program.slice n ++ ";", announcementHead indices ++ ");"]))
    (order.filter (readsName b.program options.reactiveLabel)) blocks
  updated : updateLayout c.generated.bindings c.generated.update = .ok updates
  /-- The module is what stands in the four places and what is around them. -/
  text : c.generated.text = Layout.renderAll options.indent 0
    (c.generated.around options.format c.generated.imports c.generated.body
      c.generated.constantStatements blocks updates)

/-- **Each statement has one place.**  The statements of a script that compiles are shared out to the four
places of its module: imports stand before the exported function and the other statements that are not
reactive in it, both in the order of the script.  Reactive statements are in the order in which they run.
Those that read no name follow as lines of the exported function, and the rest are guarded blocks of the
function that updates. -/
theorem places_each_statement_once {options : Options} {template : String} {d : Document}
    {b : ScriptBlock} {c : Compiled} (hd : Document.parse template options.filename = .ok d)
    (hb : d.script = some b) (hc : compile options template = .ok c) :
    ∃ order script blocks updates, StatementPlaces options b c order script blocks updates := by
  have hbody := body_of_parse hd hb
  have hgenerate := compile_eq_ok hd hc
  obtain ⟨order, horder, hblocks⟩ := exists_order_of_generate hb hgenerate
  rw [hbody] at horder
  obtain ⟨-, ls, hls, htext⟩ := exists_layout_of_generate hgenerate
  obtain ⟨guarded, updates, hguarded, hupdates, rfl⟩ := layout_eq_around hls
  -- the script block that generation leaves behind has the patch
  obtain ⟨-, -, -, -, htexts⟩ := generate_eq_ok_parts hgenerate
  have hscript : ((d.analyze options).2.announced (d.analyze options).1).script =
      some ((b.withoutReactive options.reactiveLabel).announced (d.analyze options).1) := by
    simp only [Document.announced, Document.analyze, hb, Option.map_some]
  have hdocument : c.document = (d.analyze options).2.announced (d.analyze options).1 := by
    rw [← document_of_generate hgenerate, outcome_of_compile hd hc]
  rw [← hdocument] at hscript
  rw [← hdocument, hscript] at htexts
  obtain ⟨himports, hothers⟩ := forall₂_of_scriptTexts htexts
  have hkept : ((b.withoutReactive options.reactiveLabel).announced (d.analyze options).1).body =
      keptStatements b.program options.reactiveLabel b.program.statements := by
    rw [← hbody]
    rfl
  rw [hkept, filter_isImport_keptStatements] at himports
  rw [hkept, filter_not_isImport_keptStatements] at hothers
  exact ⟨order, _, guarded, updates, horder, perm_places horder.perm, hscript, himports, hothers,
    forall₂_constantStatements hblocks, forall₂_guarded hblocks hguarded, hupdates, htext⟩

/-- A module with statements in all four places, where the last reactive statement runs before the first. -/
theorem places_each_statement_once_everywhere :
    ∃ d b c, Document.parse "<script>$: y = z;\nimport \"m\";\n$: w = 2;\nk = 1;\n$: z = k;</script>"
        Options.default.filename = .ok d ∧
      d.script = some b ∧
      compile .default "<script>$: y = z;\nimport \"m\";\n$: w = 2;\nk = 1;\n$: z = k;</script>" = .ok c ∧
      c.generated.imports = ["import \"m\";"] ∧ c.generated.body = ["k = 1;"] ∧
      c.generated.reactive.map ReactiveBlock.source = ["w = 2", "z = k", "y = z"] ∧
      ∃ order script blocks updates, StatementPlaces .default b c order script blocks updates := by
  have hread : ((Document.parse
      "<script>$: y = z;\nimport \"m\";\n$: w = 2;\nk = 1;\n$: z = k;</script>"
      Options.default.filename).toOption.any fun d => d.script.isSome) = true := by decide +kernel
  have hrun : ((compile .default
      "<script>$: y = z;\nimport \"m\";\n$: w = 2;\nk = 1;\n$: z = k;</script>").toOption.any fun c =>
        c.generated.imports == ["import \"m\";"] && (c.generated.body == ["k = 1;"] &&
          c.generated.reactive.map ReactiveBlock.source == ["w = 2", "z = k", "y = z"])) = true := by
    decide +kernel
  obtain ⟨d, hd, hscript⟩ := (Option.any_eq_true _ _).1 hread
  obtain ⟨b, hb⟩ := Option.isSome_iff_exists.1 hscript
  obtain ⟨c, hc, hparts⟩ := (Option.any_eq_true _ _).1 hrun
  obtain ⟨himports, hparts⟩ := Bool.and_eq_true_iff.1 hparts
  obtain ⟨hbody, hreactive⟩ := Bool.and_eq_true_iff.1 hparts
  have hd := toOption_eq_some_iff.1 hd
  have hc := toOption_eq_some_iff.1 hc
  exact ⟨d, b, c, hd, hb, hc, beq_iff_eq.1 himports, beq_iff_eq.1 hbody, beq_iff_eq.1 hreactive,
    places_each_statement_once hd hb hc⟩

/-! ### A statement that is lost -/

theorem renderAll_append (unit : String) (level : Nat) (ls ms : List Layout) :
    Layout.renderAll unit level (ls ++ ms) =
      Layout.renderAll unit level ls ++ Layout.renderAll unit level ms := by
  induction ls with
  | nil => simp [Layout.renderAll]
  | cons l ls ih => rw [List.cons_append, Layout.renderAll, Layout.renderAll, ih, String.append_assoc]

/-- Of the statements in its body, a module shows what their lines show. -/
theorem renderAll_around_of_body {unit : String} {body body' : List String} (c : Component)
    (format : String) (imports once : List String) (guarded updates : List Layout)
    (hempty : body.isEmpty = body'.isEmpty)
    (h : Layout.renderAll unit 1 (Layout.lines body) = Layout.renderAll unit 1 (Layout.lines body')) :
    Layout.renderAll unit 0 (c.around format imports body once guarded updates) =
      Layout.renderAll unit 0 (c.around format imports body' once guarded updates) := by
  have hbody : Layout.renderAll unit 1 (if body.isEmpty then [] else .blank :: Layout.lines body) =
      Layout.renderAll unit 1 (if body'.isEmpty then [] else .blank :: Layout.lines body') := by
    rw [hempty]
    split
    · rfl
    · rw [Layout.renderAll, Layout.renderAll, h]
  unfold Component.around
  dsimp only
  by_cases hformat : format = "esm"
  · rw [if_pos hformat, if_pos hformat]
    simp only [renderAll_append, Layout.renderAll, Layout.render, hbody]
  · rw [if_neg hformat, if_neg hformat]
    simp only [renderAll_append, Layout.renderAll, Layout.render, hbody]

/-- The only statement of this script is a name that counts as white space, and its module is written as
if the statement were empty. -/
theorem blank_name_lost :
    ∃ d b c, Document.parse "<script>\u0085</script>" Options.default.filename = .ok d ∧
      d.script = some b ∧ b.program.statements.map b.program.slice = ["\u0085"] ∧
      compile .default "<script>\u0085</script>" = .ok c ∧ c.generated.body = ["\u0085"] ∧
      ∃ guarded updates, c.generated.text = Layout.renderAll Options.default.indent 0
        (c.generated.around Options.default.format c.generated.imports [""] c.generated.constantStatements
          guarded updates) := by
  have hread : ((Document.parse "<script>\u0085</script>" Options.default.filename).toOption.any fun d =>
      d.script.any fun b => b.program.statements.map b.program.slice == ["\u0085"]) = true := by
    decide +kernel
  have hrun : ((compile .default "<script>\u0085</script>").toOption.any fun c =>
      c.generated.body == ["\u0085"]) = true := by
    decide +kernel
  obtain ⟨d, hd, hscript⟩ := (Option.any_eq_true _ _).1 hread
  obtain ⟨b, hb, hstatements⟩ := (Option.any_eq_true _ _).1 hscript
  obtain ⟨c, hc, hbody⟩ := (Option.any_eq_true _ _).1 hrun
  have hd := toOption_eq_some_iff.1 hd
  have hc := toOption_eq_some_iff.1 hc
  have hbody := beq_iff_eq.1 hbody
  refine ⟨d, b, c, hd, hb, beq_iff_eq.1 hstatements, hc, hbody, ?_⟩
  obtain ⟨-, ls, hls, htext⟩ := exists_layout_of_generate (compile_eq_ok hd hc)
  obtain ⟨guarded, updates, -, -, rfl⟩ := layout_eq_around hls
  refine ⟨guarded, updates, htext.trans ?_⟩
  rw [hbody]
  exact renderAll_around_of_body _ _ _ _ _ _ rfl (by decide +kernel)

end ReactiveTemplate

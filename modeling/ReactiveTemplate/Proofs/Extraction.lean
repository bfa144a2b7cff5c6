/-
**Reactive statements are taken out once.**

Analysis takes the reactive statements out of the script and notes what they declare.  Analysing the
document that is left finds no reactive statement, so it leaves the document alone, but it still sees the
whole script as it was read: the variables, the scopes and the names that the markup reads are the same.
Only what may change is told from the statements that are left, so the names that the reactive statements
assign to are missing from it.

The markup is looked through in the same way both times.  What it adds to an analysis depends on the
scopes that are known and not on what was noted about changes, so what holds of the two analyses of the
script holds of the two analyses of the document.

Main definitions:

* `ReactiveTemplate.InParentheses`, `ReactiveTemplate.DeclaresReactive` — reactive statements, told from
  their parts;
* `ReactiveTemplate.Analysis.Similar` — analyses with the same variables and the same names in markup;
* `ReactiveTemplate.Analysis.Reread` — an analysis and the one that follows it.

Main results:

* `ReactiveTemplate.reactiveAssignment?_eq_some_iff` — reactive statements are recognised;
* `ReactiveTemplate.Analysis.Similar.addFragments` — looking through markup keeps analyses similar;
* `ReactiveTemplate.analyze_extracts_once` — **analysis is a projection**.
-/

import ReactiveTemplate.Proofs.Lifting

set_option relaxedAutoImplicit false
set_option autoImplicit false

namespace ReactiveTemplate

open Script

/-! ### Reactive statements -/

/-- An expression in any number of parentheses, or in none. -/
inductive InParentheses (e : Node) : Node → Prop
  | bare : InParentheses e e
  | wrapped {n inner : Node} (kind : n.kind = .parenthesizedExpression) (children : n.children = [inner])
      (rest : InParentheses e inner) : InParentheses e n

/-- A statement that declares what an assignment writes reactive: it carries the label, and besides that
it holds just the assignment, in parentheses or not. -/
structure DeclaresReactive (program : Source) (label : String) (statement assignment : Node) : Prop where
  kind : statement.kind = .labeledStatement
  label : ∃ mark, statement.child? .label = some mark ∧ program.slice mark = label
  body : ∃ body inner, statement.child? .body = some body ∧ body.kind = .expressionStatement ∧
    body.children = [inner] ∧ InParentheses assignment inner
  assignment : assignment.kind.isAssignment = true

mutual

theorem inParentheses_withoutParentheses : ∀ n : Node, InParentheses (withoutParentheses n) n
  | .mk k r a b i cs => by
      rw [withoutParentheses]
      split
      · next hkind =>
          cases hinner : onlyWithoutParentheses? cs with
          | none => exact .bare
          | some e =>
              obtain ⟨inner, rfl, hin⟩ := inParentheses_onlyWithoutParentheses? cs hinner
              exact .wrapped (beq_iff_eq.1 hkind) rfl hin
      · exact .bare

theorem inParentheses_onlyWithoutParentheses? : ∀ (cs : List Node) {e : Node},
    onlyWithoutParentheses? cs = some e → ∃ inner, cs = [inner] ∧ InParentheses e inner
  | [], _, h => by cases h
  | [c], _, h => by
      cases h
      exact ⟨c, rfl, inParentheses_withoutParentheses c⟩
  | _ :: _ :: _, _, h => by cases h

end

/-- What stands in parentheses and has none itself is what is left without them. -/
theorem InParentheses.withoutParentheses_eq {e n : Node} (h : InParentheses e n)
    (he : e.kind ≠ .parenthesizedExpression) : withoutParentheses n = e := by
  induction h with
  | bare =>
      cases e with
      | mk k r a b i cs =>
          have hkind : ¬ (k == .parenthesizedExpression) = true := fun hk => he (beq_iff_eq.1 hk)
          rw [withoutParentheses, if_neg hkind]
  | @wrapped n inner hkind hchildren _ ih =>
      cases n with
      | mk k r a b i cs =>
          obtain rfl : cs = [inner] := hchildren
          have hparentheses : (k == .parenthesizedExpression) = true := beq_iff_eq.2 hkind
          rw [withoutParentheses, if_pos hparentheses, onlyWithoutParentheses?, ih]
          rfl

theorem guard_bind_eq_some_iff {α : Type} {b : Bool} {x : Option α} {a : α} :
    ((guard (b = true) : Option Unit) >>= fun _ => x) = some a ↔ b = true ∧ x = some a := by
  cases b <;> simp [guard]

/-- Reactive statements are recognised by their parts. -/
theorem reactiveAssignment?_eq_some_iff {program : Source} {label : String} {statement n : Node} :
    reactiveAssignment? program label statement = some n ↔ DeclaresReactive program label statement n := by
  unfold reactiveAssignment?
  constructor
  · intro h
    obtain ⟨hkind, h⟩ := guard_bind_eq_some_iff.1 h
    obtain ⟨mark, hmark, h⟩ := Option.bind_eq_some_iff.1 h
    obtain ⟨hlabel, h⟩ := guard_bind_eq_some_iff.1 h
    obtain ⟨body, hbody, h⟩ := Option.bind_eq_some_iff.1 h
    obtain ⟨hexpression, h⟩ := guard_bind_eq_some_iff.1 h
    split at h
    · next inner hinner =>
        obtain ⟨hassignment, h⟩ := guard_bind_eq_some_iff.1 h
        cases h
        exact ⟨beq_iff_eq.1 hkind, ⟨mark, hmark, beq_iff_eq.1 hlabel⟩,
          ⟨body, inner, hbody, beq_iff_eq.1 hexpression, hinner, inParentheses_withoutParentheses inner⟩,
          hassignment⟩
    · cases h
  · rintro ⟨hkind, ⟨mark, hmark, hlabel⟩, ⟨body, inner, hbody, hexpression, hinner, hin⟩, hassignment⟩
    have hbare : withoutParentheses inner = n := hin.withoutParentheses_eq fun hkind => by
      rw [hkind] at hassignment
      cases hassignment
    refine guard_bind_eq_some_iff.2 ⟨beq_iff_eq.2 hkind, ?_⟩
    refine Option.bind_eq_some_iff.2 ⟨mark, hmark, ?_⟩
    refine guard_bind_eq_some_iff.2 ⟨beq_iff_eq.2 hlabel, ?_⟩
    refine Option.bind_eq_some_iff.2 ⟨body, hbody, ?_⟩
    refine guard_bind_eq_some_iff.2 ⟨beq_iff_eq.2 hexpression, ?_⟩
    rw [hinner]
    dsimp only
    rw [hbare]
    exact guard_bind_eq_some_iff.2 ⟨hassignment, rfl⟩

theorem isReactive_iff {program : Source} {label : String} {statement : Node} :
    isReactive program label statement = true ↔ ∃ n, DeclaresReactive program label statement n := by
  simp only [isReactive, Option.isSome_iff_exists, reactiveAssignment?_eq_some_iff]

instance (program : Source) (label : String) (statement : Node) :
    Decidable (∃ n, DeclaresReactive program label statement n) :=
  decidable_of_iff _ isReactive_iff

theorem keptStatements_eq_filter (program : Source) (label : String) (statements : List Node) :
    keptStatements program label statements =
      statements.filter fun s => ¬ ∃ n, DeclaresReactive program label s n := by
  refine List.filter_congr fun s _ => ?_
  rw [Bool.eq_iff_iff, decide_eq_true_eq, ← isReactive_iff, isReactive]
  simp

/-! ### Nothing is left to take out -/

theorem keptStatements_keptStatements (program : Source) (label : String) (statements : List Node) :
    keptStatements program label (keptStatements program label statements) =
      keptStatements program label statements := by
  unfold keptStatements
  rw [List.filter_filter]
  simp only [Bool.and_self]

theorem reactiveDeclarations_keptStatements (program : Source) (label : String) (index : Nat)
    (statements : List Node) :
    reactiveDeclarations program label index (keptStatements program label statements) = [] := by
  have hpairs := @reactiveDeclarations_of_filter program label index
    (keptStatements program label statements)
  have hnone : (keptStatements program label statements).filter (isReactive program label) = [] := by
    rw [List.filter_eq_nil_iff]
    intro s hs hreactive
    have hkept := (List.mem_filter.1 hs).2
    rw [Option.isNone_iff_eq_none] at hkept
    rw [isReactive, hkept] at hreactive
    cases hreactive
  rw [hnone] at hpairs
  exact List.forall₂_nil_left_iff.1 hpairs

/-- What the second analysis finds in the script alone. -/
theorem analyze_withoutReactive (s : ScriptBlock) (label : String) :
    (s.withoutReactive label).analyze label =
      { s.analyze label with
        reactive := []
        willChange := Names.ofList ((keptStatements s.program label s.body).flatMap
          (changedNames s.program (resolveScript s.program).1 (resolveScript s.program).2
            (resolveScript s.program).2.root)) } := by
  unfold ScriptBlock.analyze ScriptBlock.withoutReactive
  dsimp only
  rw [keptStatements_keptStatements, reactiveDeclarations_keptStatements]
  rfl

/-! ### Markup -/

/-- Analyses that know the same variables and the same names read in markup. -/
structure Analysis.Similar (a b : Analysis) : Prop where
  declared : b.declared = a.declared
  usedInTemplate : b.usedInTemplate = a.usedInTemplate

namespace Analysis.Similar

variable {a b : Analysis}

theorem addHandler (h : a.Similar b) (e : Embedded) : (a.addHandler e).Similar (b.addHandler e) := by
  refine ⟨h.declared, ?_⟩
  unfold Analysis.addHandler
  dsimp only
  rw [h.usedInTemplate]

theorem addReads (h : a.Similar b) (program : Option Source) (e : Embedded) :
    (a.addReads program e).Similar (b.addReads program e) :=
  ⟨h.declared, congrArg (Names.union · _) h.usedInTemplate⟩

theorem addAttribute (h : a.Similar b) (options : Options) (program : Option Source) (attr : Attribute) :
    (a.addAttribute options program attr).Similar (b.addAttribute options program attr) := by
  unfold Analysis.addAttribute
  split
  · exact h
  · split
    · exact h.addHandler _
    · exact h.addReads program _

theorem addAttributes (h : a.Similar b) (options : Options) (program : Option Source)
    (attributes : List Attribute) :
    (attributes.foldl (Analysis.addAttribute options program) a).Similar
      (attributes.foldl (Analysis.addAttribute options program) b) := by
  induction attributes generalizing a b with
  | nil => exact h
  | cons attr attributes ih => exact ih (h.addAttribute options program attr)

mutual

theorem addFragment (options : Options) (program : Option Source) : ∀ (f : Fragment) {a b : Analysis},
    a.Similar b → (Analysis.addFragment options program f a).Similar (Analysis.addFragment options program f b)
  | .element tag attributes children start, a, b, h => by
      rw [Analysis.addFragment, Analysis.addFragment]
      exact addFragments options program children (h.addAttributes options program attributes)
  | .text value start, a, b, h => by
      rw [Analysis.addFragment, Analysis.addFragment]
      exact h
  | .expression e start, a, b, h => by
      rw [Analysis.addFragment, Analysis.addFragment]
      exact h.addReads program e

/-- Looking through markup keeps analyses similar. -/
theorem addFragments (options : Options) (program : Option Source) :
    ∀ (fs : List Fragment) {a b : Analysis}, a.Similar b →
      (Analysis.addFragments options program fs a).Similar (Analysis.addFragments options program fs b)
  | [], a, b, h => by
      rw [Analysis.addFragments, Analysis.addFragments]
      exact h
  | f :: fs, a, b, h => by
      rw [Analysis.addFragments, Analysis.addFragments]
      exact addFragments options program fs (addFragment options program f h)

end

end Analysis.Similar

/-! ### Two analyses of a document -/

/-- What an analysis and the one after it have in common, and what sets them apart: the second has no
reactive declarations, and what these assign to is what it lacks among the changes. -/
structure Analysis.Reread (a b : Analysis) : Prop extends Analysis.Similar a b where
  forest : b.forest = a.forest
  scopes : b.scopes = a.scopes
  handlers : b.handlers = a.handlers
  reactive : b.reactive = []
  willChange : ∀ name, name ∈ a.willChange ↔
    name ∈ b.willChange ∨ ∃ r ∈ a.reactive, name ∈ r.assignees

theorem reread_scriptAnalysis (options : Options) (d : Document) :
    (d.scriptAnalysis options).Reread ((d.analyze options).2.scriptAnalysis options) := by
  unfold Document.scriptAnalysis Document.analyze
  dsimp only
  cases d.script with
  | none =>
      exact ⟨⟨rfl, rfl⟩, rfl, rfl, rfl, rfl, by simp [Analysis.withoutScript]⟩
  | some s =>
      dsimp only [Option.map_some]
      rw [analyze_withoutReactive]
      refine ⟨⟨rfl, rfl⟩, rfl, rfl, rfl, rfl, fun name => ?_⟩
      simp only [ScriptBlock.analyze, Names.mem_ofList, List.mem_append, List.mem_flatMap]
      exact or_comm

/-- The markup adds the same to both analyses. -/
theorem reread_analyze (options : Options) (d : Document) :
    (d.analyze options).1.Reread ((d.analyze options).2.analyze options).1 := by
  have hstart := reread_scriptAnalysis options d
  have hfirst := collects_analyze options d
  have hsecond := collects_analyze options (d.analyze options).2
  have hhtml : (d.analyze options).2.html = d.html := rfl
  have hsimilar : (d.analyze options).1.Similar ((d.analyze options).2.analyze options).1 := by
    change (d.analyze options).1.Similar (Analysis.addFragments options (d.analyze options).2.program? d.html
      ((d.analyze options).2.scriptAnalysis options))
    rw [program?_analyze]
    exact .addFragments options d.program? d.html hstart.toSimilar
  refine ⟨hsimilar, ?_, ?_, ?_, ?_, fun name => ?_⟩
  · rw [hsecond.forest, hfirst.forest, hstart.scopes, hstart.forest, hhtml]
  · rw [hsecond.scopes, hfirst.scopes, hstart.scopes]
  · rw [hsecond.handlers, hfirst.handlers, hstart.scopes, hstart.forest, hstart.handlers, hhtml]
  · rw [hsecond.reactive, hstart.reactive]
  · rw [hsecond.willChange, hfirst.willChange, hfirst.reactive, hstart.willChange, hstart.scopes,
      hstart.forest, hhtml]
    exact or_right_comm

/-- **Analysis takes the reactive statements out once.**  It leaves the document as it was but for the
reactive statements of its script.  A second analysis finds no reactive statement, leaves the document
alone and knows the same of it, except that what the reactive statements assign to is not told again
among what may change. -/
theorem analyze_extracts_once (options : Options) (d : Document) :
    let (first, reduced) := d.analyze options
    let (second, again) := reduced.analyze options
    reduced = { d with
      script := d.script.map fun s => { s with
        body := s.body.filter fun statement =>
          ¬ ∃ n, DeclaresReactive s.program options.reactiveLabel statement n } } ∧
    again = reduced ∧
    second.reactive = [] ∧
    second.declared = first.declared ∧
    second.scopes = first.scopes ∧
    second.forest = first.forest ∧
    second.handlers = first.handlers ∧
    second.usedInTemplate = first.usedInTemplate ∧
    ∀ name, name ∈ first.willChange ↔
      name ∈ second.willChange ∨ ∃ r ∈ first.reactive, name ∈ r.assignees := by
  have h := reread_analyze options d
  refine ⟨?_, ?_, h.reactive, h.declared, h.scopes, h.forest, h.handlers, h.usedInTemplate, h.willChange⟩
  · simp only [ScriptBlock.withoutReactive, keptStatements_eq_filter]
  · cases d.script with
    | none => rfl
    | some s => simp only [Option.map_some, ScriptBlock.withoutReactive, keptStatements_keptStatements]

end ReactiveTemplate

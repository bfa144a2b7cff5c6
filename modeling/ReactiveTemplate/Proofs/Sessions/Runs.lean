/-
**Sessions fail only on a circle.**

A document is parsed once and then analysed and generated any number of times, each time with other
options.  Analysis takes statements out of the document and generation patches it and reorders the
declarations, so what a step relies on was left behind by another one.  One invariant is kept by every
step: the trees are those that were read, the statements that are left are statements of the script,
and what declarations write may change.  From it follows that every part of a tree which a pass takes
for granted is there, and that generation gives a component or reports a circle.

Main definitions:

* `ReactiveTemplate.Script.Node.Intact` — a node whose bytes are text and whose parts are there;
* `ReactiveTemplate.SessionStep`, `ReactiveTemplate.Session.run` — the steps of a session;
* `ReactiveTemplate.Session.Sound` — the invariant;
* `ReactiveTemplate.CircleReport` — what the report of a circle says.

Main results:

* `ReactiveTemplate.Session.Sound.after`, `ReactiveTemplate.Session.Sound.run` — every step keeps the
  invariant, and so does every session;
* `ReactiveTemplate.sessions_fail_only_on_circles` — **no step fails but for a circle**.
-/

import ReactiveTemplate.Compile
import ReactiveTemplate.Proofs.Sessions.Stages
import ReactiveTemplate.Proofs.Wholeness.Programs
import ReactiveTemplate.Session

set_option relaxedAutoImplicit false
set_option autoImplicit false

namespace ReactiveTemplate

open Script

/-! ### Trees that can be looked through -/

/-- A node whose bytes are text and whose parts are there. -/
structure Script.Node.Intact (text : List Char) (n : Node) : Prop where
  /-- The bytes of the node spell the text that is cut out for it. -/
  decodes : Text.decode? (bytesBetween (Text.bytes text) n.start n.stop) =
    some (String.ofList (Text.byteSlice text n.start n.stop))
  /-- A mutation writes to something. -/
  target : n.kind.isMutation = true → ∃ target, mutationTarget? n = some target
  /-- The children that are taken for granted are found. -/
  parts : ∀ r ∈ n.kind.requires, ∃ child, n.child? r = some child

namespace Script

namespace Node

theorem Whole.intact {text : List Char} {n : Node} (h : n.Whole) (hstart : Text.Boundary text n.start)
    (hstop : Text.Boundary text n.stop) (hle : n.start ≤ n.stop) : n.Intact text where
  decodes := by rw [bytesBetween_bytes hstart hstop hle, Text.decode?_bytes]
  target := exists_mutationTarget? h
  parts := fun _ hr => h.child hr

mutual

theorem Placed.of_mem_walk {text : List Char} :
    ∀ {n m : Node}, n.Placed text → m ∈ n.walk → m.Placed text
  | .mk _ _ _ _ _ _, _, h, hm => by
      rcases List.mem_cons.1 hm with rfl | hm
      · exact h
      · exact PlacedIn.of_mem_walkAll h.children hm

theorem PlacedIn.of_mem_walkAll {text : List Char} :
    ∀ {ns : List Node} {m : Node} {a b : Nat}, PlacedIn text a b ns → m ∈ walkAll ns → m.Placed text
  | [], _, _, _, _, hm => by cases hm
  | _ :: _, _, _, _, h, hm => by
      obtain ⟨-, hn, -, hns⟩ := placedIn_cons.1 h
      rcases List.mem_append.1 hm with hm | hm
      · exact Placed.of_mem_walk hn hm
      · exact PlacedIn.of_mem_walkAll hns hm

end

theorem Placed.intact {text : List Char} {n : Node} (h : n.Placed text) (hwhole : n.Whole) :
    n.Intact text :=
  hwhole.intact h.boundary_start h.boundary_stop h.start_lt_stop.le

end Node

theorem Source.intact_ofScript? {text : List Char} {offset : Nat} {source : Source}
    (h : Source.ofScript? text offset = some source) :
    ∀ m ∈ source.root.walk, m.Intact source.text := by
  obtain ⟨-, hstart, hle, hstop, hplaced⟩ := Source.placed_ofScript? h
  have hwhole : source.root.Whole := by
    obtain ⟨root, hroot, rfl⟩ := Option.map_eq_some_iff.1 h
    exact parseProgram?_whole hroot
  intro m hm
  have hm' := hwhole.of_mem_walk hm
  rw [Node.walk_eq] at hm
  rcases List.mem_cons.1 hm with rfl | hm
  · exact hm'.intact hstart (hstop ▸ Text.boundary_byteLength _) hle
  · exact (hplaced.of_mem_walkAll hm).intact hm'

theorem Embedded.intact_embedded? {inner : List Char} {offset : Nat} {e : Embedded}
    (h : embedded? inner offset = some e) : ∀ m ∈ e.node.walk, m.Intact e.text := fun _ hm =>
  ((placed_embedded? h).of_mem_walk hm).intact ((embedded?_whole h).of_mem_walk hm)

end Script

/-- A document whose script and expressions can be looked through, and whose body holds statements of
its script. -/
structure Document.Intact (d : Document) : Prop where
  script : ∀ b, d.script = some b →
    (∀ m ∈ b.program.root.walk, m.Intact b.program.text) ∧ b.body ⊆ b.program.statements
  html : ∀ e ∈ Fragment.expressionsAll d.html, ∀ m ∈ e.node.walk, m.Intact e.text

/-! ### What was read -/

/-- An expression that was read at its place. -/
def Script.Embedded.WasRead (e : Embedded) : Prop :=
  ∃ inner, embedded? inner e.offset = some e

variable {offset : Nat} {text next : List Char}

theorem BracedText.wasRead {e : Embedded} (h : BracedText offset text next e) : e.WasRead :=
  h.handlersIn.read e (List.mem_singleton_self e)

theorem TagText.wasRead {attributes : List Attribute} {ends : Bool}
    (h : TagText offset text next attributes ends) :
    ∀ e ∈ attributes.flatMap Attribute.expressions, e.WasRead := by
  induction h with
  | closed => exact nofun
  | opened => exact nofun
  | attr _ hown _ ih =>
      rw [List.flatMap_cons, List.forall_mem_append]
      refine ⟨?_, ih⟩
      obtain ⟨-, -, hvalue⟩ := hown
      cases hvalue with
      | quoted => exact nofun
      | braced hbraced =>
          intro e he
          rw [List.mem_singleton.1 he]
          exact hbraced.wasRead

theorem Fragment.expressionsAll_append (fs gs : List Fragment) :
    expressionsAll (fs ++ gs) = expressionsAll fs ++ expressionsAll gs := by
  induction fs with
  | nil => rfl
  | cons f fs ih => rw [List.cons_append, expressionsAll, expressionsAll, ih, List.append_assoc]

theorem expressionsAll_textFragments (run : List Char) (offset : Nat) :
    Fragment.expressionsAll (textFragments run offset) = [] := by
  unfold textFragments
  split <;> rfl

/-- All expressions of a sequence of items were read. -/
theorem wasRead_content {before after : Option ScriptBlock} {fs : List Fragment}
    (h : Content before offset text next fs after) :
    ∀ e ∈ Fragment.expressionsAll fs, e.WasRead := by
  induction h with
  | nil => exact nofun
  | script _ _ _ _ ih => exact ih
  | emptyElement _ _ htag _ ih =>
      rw [Fragment.expressionsAll, Fragment.expressions, Fragment.expressionsAll, List.append_nil,
        List.forall_mem_append]
      exact ⟨htag.wasRead, ih⟩
  | element _ _ htag _ _ _ ihinner ih =>
      rw [Fragment.expressionsAll, Fragment.expressions, List.forall_mem_append, List.forall_mem_append]
      exact ⟨⟨htag.wasRead, ihinner⟩, ih⟩
  | expression hbraced _ ih =>
      rw [Fragment.expressionsAll, Fragment.expressions, List.forall_mem_append]
      refine ⟨fun e he => ?_, ih⟩
      rw [List.mem_singleton.1 he]
      exact hbraced.wasRead
  | text _ _ _ ih =>
      rw [Fragment.expressionsAll_append, expressionsAll_textFragments, List.nil_append]
      exact ih

/-! ### Where declarations come from -/

mutual

theorem withoutParentheses_mem_walk : ∀ n : Node, withoutParentheses n ∈ n.walk
  | .mk k r a b i cs => by
      rw [withoutParentheses]
      split
      · cases hinner : onlyWithoutParentheses? cs with
        | none => exact Node.mem_walk_self _
        | some inner => exact List.mem_cons_of_mem _ (onlyWithoutParentheses?_mem_walkAll cs hinner)
      · exact Node.mem_walk_self _

theorem onlyWithoutParentheses?_mem_walkAll : ∀ (cs : List Node) {inner : Node},
    onlyWithoutParentheses? cs = some inner → inner ∈ Node.walkAll cs
  | [], _, h => by cases h
  | [c], _, h => by
      cases h
      exact List.mem_append_left _ (withoutParentheses_mem_walk c)
  | _ :: _ :: _, _, h => by cases h

end

/-- The assignment of a reactive statement is a node of the statement. -/
theorem mem_walk_of_reactiveAssignment? {program : Source} {label : String} {statement n : Node}
    (h : reactiveAssignment? program label statement = some n) : n ∈ statement.walk := by
  unfold reactiveAssignment? at h
  obtain ⟨_, _, h⟩ := Option.bind_eq_some_iff.1 h
  obtain ⟨_, _, h⟩ := Option.bind_eq_some_iff.1 h
  obtain ⟨_, _, h⟩ := Option.bind_eq_some_iff.1 h
  obtain ⟨body, hbody, h⟩ := Option.bind_eq_some_iff.1 h
  obtain ⟨_, _, h⟩ := Option.bind_eq_some_iff.1 h
  have hchild : body ∈ statement.children := List.mem_of_find?_eq_some hbody
  split at h
  · next inner hinner =>
      obtain ⟨_, _, h⟩ := Option.bind_eq_some_iff.1 h
      cases h
      refine Node.walk_subset_of_mem hchild (Node.walk_subset_of_mem (m := inner) ?_ ?_)
      · rw [hinner]
        exact List.mem_singleton_self inner
      · exact withoutParentheses_mem_walk inner
  · cases h

theorem exists_of_mem_reactiveDeclarations {program : Source} {label : String} {r : ReactiveDeclaration} :
    ∀ {index : Nat} {ss : List Node}, r ∈ reactiveDeclarations program label index ss →
      ∃ s ∈ ss, reactiveAssignment? program label s = some r.node
  | _, [], h => by cases h
  | index, s :: ss, h => by
      rw [reactiveDeclarations] at h
      split at h
      · next a ha =>
          rcases List.mem_cons.1 h with rfl | h
          · exact ⟨s, List.mem_cons_self, ha⟩
          · obtain ⟨s', hs', hr⟩ := exists_of_mem_reactiveDeclarations h
            exact ⟨s', List.mem_cons_of_mem _ hs', hr⟩
      · obtain ⟨s', hs', hr⟩ := exists_of_mem_reactiveDeclarations h
        exact ⟨s', List.mem_cons_of_mem _ hs', hr⟩

/-! ### Steps -/

/-- A step of a session. -/
inductive SessionStep where
  | analyze (options : Options)
  | generate (options : Options)

namespace Session

/-- The session after a step. -/
def after (s : Session) : SessionStep → Session
  | .analyze options => (s.analyze options).1
  | .generate options => (s.generate options).1

/-- The session after several steps. -/
def run (s : Session) (steps : List SessionStep) : Session :=
  steps.foldl after s

/-- What every step of a session relies on. -/
structure Sound (s : Session) : Prop where
  html : ∀ e ∈ Fragment.expressionsAll s.document.html, e.WasRead
  program : ∀ b, s.document.script = some b → ∃ text offset, Source.ofScript? text offset = some b.program
  /-- The statements that are left lie properly in the script. -/
  placed : ∀ b, s.document.script = some b →
    Node.PlacedIn b.program.text b.program.root.start b.program.root.stop b.body
  body : ∀ b, s.document.script = some b → b.body ⊆ b.program.statements
  /-- What declarations write may change. -/
  assigned : ∀ a, s.analysis = some a → ∀ r ∈ a.reactive, ∀ name ∈ r.assignees, name ∈ a.willChange
  /-- Declarations are parts of the script. -/
  reactive : ∀ a, s.analysis = some a → ∀ r ∈ a.reactive,
    ∃ b, s.document.script = some b ∧ r.node ∈ b.program.root.walk

namespace Sound

variable {s : Session}

theorem start {template filename : String} {d : Document} (h : Document.parse template filename = .ok d) :
    (Session.start d).Sound := by
  have hcontent := (Document.derives_of_parse h).content
  have hscript (b : ScriptBlock) (hb : d.script = some b) :
      ∃ text offset, Source.ofScript? text offset = some b.program ∧ b.body = b.program.statements := by
    rcases exists_ofScript?_of_content hcontent hb with hnone | ⟨text, offset, program, hread, rfl, hbody⟩
    · cases hnone
    · exact ⟨text, offset, hread, hbody⟩
  refine ⟨wasRead_content hcontent, fun b hb => ?_, fun b hb => ?_, fun b hb => ?_, nofun, nofun⟩
  · obtain ⟨text, offset, hread, -⟩ := hscript b hb
    exact ⟨text, offset, hread⟩
  · obtain ⟨text, offset, hread, hbody⟩ := hscript b hb
    rw [hbody]
    exact (Source.placed_ofScript? hread).2.2.2.2
  · obtain ⟨-, -, -, hbody⟩ := hscript b hb
    exact hbody ▸ List.Subset.refl _

theorem intact (h : s.Sound) : s.document.Intact where
  script := fun b hb => by
    obtain ⟨text, offset, hread⟩ := h.program b hb
    exact ⟨Source.intact_ofScript? hread, h.body b hb⟩
  html := fun e he => by
    obtain ⟨inner, hread⟩ := h.html e he
    exact Embedded.intact_embedded? hread

/-- What analysis notes about a script. -/
theorem scriptAnalysis (h : s.Sound) (options : Options) :
    (∀ r ∈ (s.document.scriptAnalysis options).reactive, ∀ name ∈ r.assignees,
        name ∈ (s.document.scriptAnalysis options).willChange) ∧
      ∀ r ∈ (s.document.scriptAnalysis options).reactive,
        ∃ b, s.document.script = some b ∧ r.node ∈ b.program.root.walk := by
  unfold Document.scriptAnalysis
  split
  · next b hb =>
      refine ⟨fun r hr name hname => ?_, fun r hr => ⟨b, hb, ?_⟩⟩
      · refine Names.mem_ofList.2 (List.mem_append_left _ ?_)
        exact List.mem_flatMap.2 ⟨r, hr, hname⟩
      · obtain ⟨statement, hstatement, hassignment⟩ := exists_of_mem_reactiveDeclarations hr
        have hmem : statement ∈ b.program.root.children := h.body b hb hstatement
        exact Node.walk_subset_of_mem hmem (mem_walk_of_reactiveAssignment? hassignment)
  · exact ⟨nofun, nofun⟩

theorem analyze (h : s.Sound) (options : Options) : (s.analyze options).1.Sound := by
  obtain ⟨hassigned, hreactive⟩ := h.scriptAnalysis options
  have hcollects := collects_analyze options s.document
  have hblock (b : ScriptBlock) (hb : (s.document.analyze options).2.script = some b) :
      ∃ b', s.document.script = some b' ∧ b = b'.withoutReactive options.reactiveLabel := by
    obtain ⟨b', hb', rfl⟩ := Option.map_eq_some_iff.1 hb
    exact ⟨b', hb', rfl⟩
  refine ⟨h.html, fun b hb => ?_, fun b hb => ?_, fun b hb => ?_, ?_, ?_⟩
  · obtain ⟨b', hb', rfl⟩ := hblock b hb
    exact h.program b' hb'
  · obtain ⟨b', hb', rfl⟩ := hblock b hb
    exact (h.placed b' hb').filter _
  · obtain ⟨b', hb', rfl⟩ := hblock b hb
    exact fun n hn => h.body b' hb' (List.mem_of_mem_filter hn)
  · intro a ha r hr name hname
    obtain rfl : (s.document.analyze options).1 = a := Option.some.inj ha
    rw [hcollects.reactive] at hr
    exact (hcollects.willChange name).2 (.inl (hassigned r hr name hname))
  · intro a ha r hr
    obtain rfl : (s.document.analyze options).1 = a := Option.some.inj ha
    rw [hcollects.reactive] at hr
    obtain ⟨b, hb, hnode⟩ := hreactive r hr
    exact ⟨b.withoutReactive options.reactiveLabel, congrArg (Option.map _) hb, hnode⟩

/-- Generation from the last analysis gives a component or finds a circle. -/
theorem generate_cases (h : s.Sound) {a : Analysis} (ha : s.analysis = some a) (options : Options) :
    (s.document.generate options a).document = s.document.announced a ∧
      ((∃ g ordered, (s.document.generate options a).result = .ok g ∧ ordered.Perm a.reactive ∧
          (s.document.generate options a).analysis = { a with reactive := ordered }) ∨
        ∃ cycle, Circle (a.reactive.map ReactiveDeclaration.toDependent) cycle ∧
          (s.document.generate options a).result =
            .error (cycleError (s.document.announced a) a.reactive cycle) ∧
          (s.document.generate options a).analysis = a) := by
  refine ReactiveTemplate.generate_cases options (h.assigned a ha) (fun e he => ?_) fun b hb => ?_
  · obtain ⟨inner, hread⟩ := h.html e he
    exact placed_embedded? hread
  · obtain ⟨text, offset, hread⟩ := h.program b hb
    exact ⟨_, _, (Source.placed_ofScript? hread).2.2.1, h.placed b hb⟩

theorem generate (h : s.Sound) (options : Options) : (s.generate options).1.Sound := by
  cases ha : s.analysis with
  | none =>
      have hsame : (s.generate options).1 = s := by rw [Session.generate, ha]
      rwa [hsame]
  | some a =>
      obtain ⟨hdocument, hcases⟩ := h.generate_cases ha options
      -- whatever comes out, the declarations that are left are those of the analysis
      have hleft : (s.document.generate options a).analysis.willChange = a.willChange ∧
          ∀ r ∈ (s.document.generate options a).analysis.reactive, r ∈ a.reactive := by
        rcases hcases with ⟨g, ordered, -, hperm, hanalysis⟩ | ⟨cycle, -, -, hanalysis⟩
        · rw [hanalysis]
          exact ⟨rfl, fun r hr => hperm.mem_iff.1 hr⟩
        · rw [hanalysis]
          exact ⟨rfl, fun r hr => hr⟩
      have hstep : (s.generate options).1 =
          ⟨s.document.announced a, some (s.document.generate options a).analysis⟩ := by
        rw [Session.generate, ha, ← hdocument]
      have hblock (b : ScriptBlock) (hb : (s.document.announced a).script = some b) :
          ∃ b', s.document.script = some b' ∧ b = b'.announced a := by
        obtain ⟨b', hb', rfl⟩ := Option.map_eq_some_iff.1 hb
        exact ⟨b', hb', rfl⟩
      rw [hstep]
      refine ⟨h.html, fun b hb => ?_, fun b hb => ?_, fun b hb => ?_, ?_, ?_⟩
      · obtain ⟨b', hb', rfl⟩ := hblock b hb
        exact h.program b' hb'
      · obtain ⟨b', hb', rfl⟩ := hblock b hb
        exact h.placed b' hb'
      · obtain ⟨b', hb', rfl⟩ := hblock b hb
        exact h.body b' hb'
      · rintro _ ⟨⟩ r hr name hname
        rw [hleft.1]
        exact h.assigned a ha r (hleft.2 r hr) name hname
      · rintro _ ⟨⟩ r hr
        obtain ⟨b, hb, hnode⟩ := h.reactive a ha r (hleft.2 r hr)
        exact ⟨b.announced a, congrArg (Option.map _) hb, hnode⟩

/-- Every step keeps the invariant. -/
theorem after (h : s.Sound) (step : SessionStep) : (s.after step).Sound := by
  cases step with
  | analyze options => exact h.analyze options
  | generate options => exact h.generate options

/-- Every session keeps the invariant. -/
theorem run (h : s.Sound) (steps : List SessionStep) : (s.run steps).Sound := by
  induction steps generalizing s with
  | nil => exact h
  | cons step steps ih => exact ih (h.after step)

end Sound

end Session

/-! ### Reports of circles -/

/-- What the report of a circle says: it names declarations of a circle by the first name that each of
them writes, and tells where the first one stands. -/
structure CircleReport (a : Analysis) (names : List String) (position : Option Position) : Prop where
  circle : ∃ cycle, Circle (a.reactive.map ReactiveDeclaration.toDependent) cycle ∧
    names = cycleNames (a.reactive.map ReactiveDeclaration.toDependent) cycle
  written : ∀ name ∈ names, ∃ r ∈ a.reactive, r.assignees.head? = some name
  placed : position.isSome = true

theorem Session.Sound.circleReport {s : Session} (h : s.Sound) {a : Analysis} (ha : s.analysis = some a)
    {cycle : List Nat} (hcircle : Circle (a.reactive.map ReactiveDeclaration.toDependent) cycle) :
    ∃ names position, cycleError (s.document.announced a) a.reactive cycle = .cyclic names position ∧
      CircleReport a names position := by
  have hplace {i : Nat} (hi : i ∈ cycle) : ∃ r, a.reactive[i]? = some r ∧
      r.assignees.head? = some (cycleName (a.reactive.map ReactiveDeclaration.toDependent) i) := by
    obtain ⟨d, hd, hhead⟩ := hcircle.exists_cycleName hi
    rw [List.getElem?_map] at hd
    obtain ⟨r, hr, rfl⟩ := Option.map_eq_some_iff.1 hd
    exact ⟨r, hr, hhead⟩
  refine ⟨_, _, rfl, ⟨⟨cycle, hcircle, rfl⟩, fun name hname => ?_, ?_⟩⟩
  · -- the first name again at the end adds no name
    have hmem : name ∈ cycle.map (cycleName (a.reactive.map ReactiveDeclaration.toDependent)) :=
      (List.mem_append.1 hname).elim id fun h => List.mem_of_mem_take h
    obtain ⟨i, hi, rfl⟩ := List.mem_map.1 hmem
    obtain ⟨r, hr, hhead⟩ := hplace hi
    exact ⟨r, List.mem_of_getElem? hr, hhead⟩
  · cases cycle with
    | nil => exact absurd rfl hcircle.ne_nil
    | cons i rest =>
        obtain ⟨r, hr, -⟩ := hplace List.mem_cons_self
        obtain ⟨b, hb, -⟩ := h.reactive a ha r (List.mem_of_getElem? hr)
        simp [hr, declarationPosition, Document.program?, Document.announced, hb]

/-! ### The result -/

/-- For every template that parses and every session on its document, whatever the options of its steps
are: the trees that the next step looks through are intact, analysis gives an analysis, and generation
from the last analysis gives a component or reports a circle.  With options that make sense, a template
that does not compile cannot be read or has a circle. -/
theorem sessions_fail_only_on_circles :
    (∀ (template filename : String) (d : Document), Document.parse template filename = .ok d →
      ∀ (steps : List SessionStep) (options : Options),
        ((Session.start d).run steps).document.Intact ∧
        (∃ a, (((Session.start d).run steps).analyze options).1.analysis = some a) ∧
        ∀ a, ((Session.start d).run steps).analysis = some a →
          (∀ r ∈ a.reactive, ∃ b, ((Session.start d).run steps).document.script = some b ∧
            r.node ∈ b.program.root.walk) ∧
          ((∃ g, (((Session.start d).run steps).generate options).2 = some (.ok g)) ∨
            ∃ names position,
              (((Session.start d).run steps).generate options).2 = some (.error (.cyclic names position)) ∧
              CircleReport a names position)) ∧
    ∀ (options : Options) (template : String) (e : CompileError), options.problems = [] →
      compile options template = .error e →
      (∃ l, e = .unreadable l) ∨ ∃ names position, e = .ungenerated (.cyclic names position) := by
  have hgenerate {s : Session} (h : s.Sound) {a : Analysis} (ha : s.analysis = some a) (options : Options) :
      (∃ g, (s.document.generate options a).result = .ok g) ∨
        ∃ names position, (s.document.generate options a).result = .error (.cyclic names position) ∧
          CircleReport a names position := by
    rcases (h.generate_cases ha options).2 with ⟨g, -, hg, -⟩ | ⟨cycle, hcircle, herror, -⟩
    · exact .inl ⟨g, hg⟩
    · obtain ⟨names, position, hcycle, hreport⟩ := h.circleReport ha hcircle
      exact .inr ⟨names, position, hcycle ▸ herror, hreport⟩
  refine ⟨fun template filename d hd steps options => ?_, fun options template e hproblems he => ?_⟩
  · have hsound := (Session.Sound.start hd).run steps
    refine ⟨hsound.intact, ⟨_, rfl⟩, fun a ha => ⟨hsound.reactive a ha, ?_⟩⟩
    rw [Session.generate, ha]
    rcases hgenerate hsound ha options with ⟨g, hg⟩ | ⟨names, position, herror, hreport⟩
    · exact .inl ⟨g, congrArg some hg⟩
    · exact .inr ⟨names, position, congrArg some herror, hreport⟩
  · unfold compile at he
    rw [hproblems] at he
    dsimp only at he
    split at he
    · next l _ =>
        cases he
        exact .inl ⟨l, rfl⟩
    · next d hd =>
        -- compilation is the session of one analysis and one generation
        have hsound := (Session.Sound.start hd).analyze options
        rcases hgenerate hsound rfl options with ⟨g, hg⟩ | ⟨names, position, herror, -⟩
        · have hok : ((d.analyze options).2.generate options (d.analyze options).1).result = .ok g := hg
          rw [hok] at he
          cases he
        · have hfail : ((d.analyze options).2.generate options (d.analyze options).1).result =
              .error (.cyclic names position) := herror
          rw [hfail] at he
          cases he
          exact .inr ⟨names, position, rfl⟩

/-- Two declarations feed each other, so the first generation reports a circle.  Analysis has taken them
out of the script by then, so after a second analysis there is nothing left that could form one. -/
theorem sessions_fail_only_on_circles_again :
    Options.default.problems = [] ∧
    (∃ d, Document.parse "<script>$: a = b; $: b = a;</script><p>\x7ba\x7d</p>" "page" = .ok d ∧
      (∃ a names position, ((Session.start d).run [.analyze .default]).analysis = some a ∧
        (((Session.start d).run [.analyze .default]).generate .default).2 =
          some (.error (.cyclic names position)) ∧ CircleReport a names position) ∧
      ∃ g, (((Session.start d).run [.analyze .default, .generate .default, .analyze .default]).generate
        .default).2 = some (.ok g)) ∧
    ∃ names position, compile .default "<script>$: a = b; $: b = a;</script><p>\x7ba\x7d</p>" =
      .error (.ungenerated (.cyclic names position)) := by
  have hrun : ((Document.parse "<script>$: a = b; $: b = a;</script><p>\x7ba\x7d</p>" "page").toOption.any fun d =>
      ((((Session.start d).run [.analyze .default]).generate .default).2.any fun r => r.toOption.isNone) &&
        ((((Session.start d).run [.analyze .default, .generate .default, .analyze .default]).generate
          .default).2.any fun r => r.toOption.isSome)) = true := by
    decide +kernel
  have hcompile : (match compile .default "<script>$: a = b; $: b = a;</script><p>\x7ba\x7d</p>" with
      | .error (.ungenerated _) => true
      | _ => false) = true := by
    decide +kernel
  obtain ⟨d, hd, hrun⟩ := (Option.any_eq_true _ _).1 hrun
  rw [toOption_eq_some_iff] at hd
  rw [Bool.and_eq_true] at hrun
  refine ⟨by decide, ⟨d, hd, ?_, ?_⟩, ?_⟩
  · obtain ⟨r, hr, hnone⟩ := (Option.any_eq_true _ _).1 hrun.1
    obtain ⟨-, hok | ⟨names, position, herror, hreport⟩⟩ :=
      (sessions_fail_only_on_circles.1 _ _ d hd [.analyze .default] .default).2.2 _ rfl
    · obtain ⟨g, hg⟩ := hok
      cases hr.symm.trans hg
      cases hnone
    · exact ⟨_, names, position, rfl, herror, hreport⟩
  · obtain ⟨r, hr, hsome⟩ := (Option.any_eq_true _ _).1 hrun.2
    cases r with
    | ok g => exact ⟨g, hr⟩
    | error e => cases hsome
  · split at hcompile
    · next e he =>
        rcases sessions_fail_only_on_circles.2 _ _ _ (by decide) he with ⟨l, hl⟩ | ⟨names, position, hcyclic⟩
        · cases hl
        · exact ⟨names, position, he.trans (congrArg Except.error hcyclic)⟩
    · cases hcompile

end ReactiveTemplate

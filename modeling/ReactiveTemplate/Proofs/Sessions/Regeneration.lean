/-
**Generating again gives the same.**

Generation leaves traces: it writes a new patch into the script and puts the declarations of the analysis
in running order, and the next generation starts from there.  Neither trace shows.  The patch is made anew
each time, and the order of the declarations is the one that they are put in anyway.

Main definitions:

* `ReactiveTemplate.Document.withoutPatch` — a document without what generation wrote into it;
* `ReactiveTemplate.Remains` — what generation leaves of a document and its analysis;
* `ReactiveTemplate.NoCircle` — computations that report no circle.

Main results:

* `ReactiveTemplate.Remains.generate`, `ReactiveTemplate.Session.remains_run` — one generation from what is
  left, and any number of them;
* `ReactiveTemplate.analysis_of_generate_cyclic` — a circle is reported before anything is reordered;
* `ReactiveTemplate.generation_forgets_earlier` — **generation does not depend on earlier generations**.
-/

import ReactiveTemplate.Proofs.Reordering
import ReactiveTemplate.Proofs.Sessions.Runs

set_option relaxedAutoImplicit false
set_option autoImplicit false

namespace ReactiveTemplate

open Script

/-! ### Documents and their patches -/

/-- A document without what generation wrote into it. -/
def Document.withoutPatch (d : Document) : Document :=
  { d with script := d.script.map fun s => { s with patch := .empty } }

namespace Document

variable {d d' : Document}

theorem program?_of_withoutPatch (h : d'.withoutPatch = d.withoutPatch) : d'.program? = d.program? := by
  have hprogram (d : Document) : d.withoutPatch.program? = d.program? := by
    simp [withoutPatch, program?, Function.comp_def]
  rw [← hprogram d', h, hprogram]

/-- The patch that announces changes takes the place of the one that was there. -/
theorem announced_of_withoutPatch (h : d'.withoutPatch = d.withoutPatch) (a : Analysis) :
    d'.announced a = d.announced a := by
  have hannounced (d : Document) : d.withoutPatch.announced a = d.announced a := by
    simp [withoutPatch, announced, Function.comp_def, ScriptBlock.announced, ScriptBlock.announcements]
  rw [← hannounced d', h, hannounced]

@[simp] theorem withoutPatch_announced (d : Document) (a : Analysis) :
    (d.announced a).withoutPatch = d.withoutPatch := by
  simp [withoutPatch, announced, Function.comp_def, ScriptBlock.announced]

theorem announced_reordered {a : Analysis} {ordered : List ReactiveDeclaration}
    (h : ordered.Perm a.reactive) (d : Document) :
    d.announced { a with reactive := ordered } = d.announced a := by
  have hsame (s : ScriptBlock) : s.announced { a with reactive := ordered } = s.announced a := by
    have hfound := (Analysis.tracking_reordered h s.program a.scopes).announcementsAll_eq s.body a.scopes.root
    exact congrArg (fun found => { s with patch := announce .empty found }) hfound
  simp only [announced, hsame]

end Document

/-! ### What generation leaves -/

/-- What generation leaves of a document and its analysis: all but the patch is as it was, and the
declarations are as they were or in running order. -/
structure Remains (d : Document) (a : Analysis) (d' : Document) (a' : Analysis) : Prop where
  document : d'.withoutPatch = d.withoutPatch
  analysis : a' = a ∨
    ∃ ordered, orderDeclarations d a.reactive = .ok ordered ∧ a' = { a with reactive := ordered }

namespace Remains

variable {d d' : Document} {a a' : Analysis}

theorem refl (d : Document) (a : Analysis) : Remains d a d a :=
  ⟨rfl, .inl rfl⟩

theorem html (h : Remains d a d' a') : d'.html = d.html := by
  have hsame := congrArg Document.html h.document
  exact hsame

theorem markupCode_eq (h : Remains d a d' a') (options : Options) :
    markupCode (.of options d'.program? a') d'.html = markupCode (.of options d.program? a) d.html := by
  rw [Document.program?_of_withoutPatch h.document, h.html]
  rcases h.analysis with rfl | ⟨ordered, hordered, rfl⟩
  · rfl
  · exact markupCode_reordered (orderDeclarations_eq_ok hordered).1 options d.program? d.html

theorem announced_eq (h : Remains d a d' a') : d'.announced a' = d.announced a := by
  rw [Document.announced_of_withoutPatch h.document]
  rcases h.analysis with rfl | ⟨ordered, hordered, rfl⟩
  · rfl
  · exact Document.announced_reordered (orderDeclarations_eq_ok hordered).1 d

/-- What is left is put in the order that it had at first. -/
theorem orderDeclarations_eq (h : Remains d a d' a') (d₀ : Document) :
    orderDeclarations d₀ a'.reactive = orderDeclarations d₀ a.reactive := by
  rcases h.analysis with rfl | ⟨ordered, hordered, rfl⟩
  · rfl
  · rw [orderDeclarations_of_document hordered d₀]
    exact orderDeclarations_ordered hordered d₀

theorem with_ordered (h : Remains d a d' a') (ordered : List ReactiveDeclaration) :
    ({ a' with reactive := ordered } : Analysis) = { a with reactive := ordered } := by
  rcases h.analysis with rfl | ⟨_, -, rfl⟩ <;> rfl

/-- Generation from what is left gives what generation gave at first, and leaves no more behind. -/
theorem generate (h : Remains d a d' a') (options : Options) :
    (d'.generate options a').result = (d.generate options a).result ∧
      Remains d a (d'.generate options a').document (d'.generate options a').analysis := by
  unfold Document.generate
  rw [h.markupCode_eq]
  cases markupCode (.of options d.program? a) d.html with
  | error e => exact ⟨rfl, h⟩
  | ok markup =>
      dsimp only
      rw [h.announced_eq, h.orderDeclarations_eq]
      have hdocument : (d.announced a).withoutPatch = d.withoutPatch := Document.withoutPatch_announced d a
      cases hordered : orderDeclarations (d.announced a) a.reactive with
      | error e => exact ⟨rfl, hdocument, h.analysis⟩
      | ok ordered =>
          dsimp only
          rw [h.with_ordered]
          exact ⟨rfl, hdocument, .inr ⟨ordered, orderDeclarations_of_document hordered d, rfl⟩⟩

end Remains

/-! ### Sessions -/

/-- After any number of generations, only their traces are left behind. -/
theorem Session.remains_run {d : Document} {a : Analysis} (earlier : List Options) :
    ∀ {d' : Document} {a' : Analysis}, Remains d a d' a' →
      ∃ d'' a'', (⟨d', some a'⟩ : Session).run (earlier.map .generate) = ⟨d'', some a''⟩ ∧
        Remains d a d'' a'' := by
  induction earlier with
  | nil => exact fun h => ⟨_, _, rfl, h⟩
  | cons options earlier ih => exact fun h => ih (h.generate options).2

/-! ### Only ordering reports a circle -/

/-- A computation that reports no circle. -/
def NoCircle {α : Type} (x : Except GenerationError α) : Prop :=
  ∀ names position, x ≠ .error (.cyclic names position)

namespace NoCircle

variable {α β : Type}

theorem ok (x : α) : NoCircle (.ok x) := nofun

theorem bind {x : Except GenerationError α} {f : α → Except GenerationError β} (hx : NoCircle x)
    (hf : ∀ a, NoCircle (f a)) : NoCircle (x >>= f) := by
  cases x with
  | error e =>
      intro names position h
      cases h
      exact hx names position rfl
  | ok a => exact hf a

theorem indices (bindings : Bindings) (names : List String) : NoCircle (bindings.indices names) := by
  induction names with
  | nil => exact ok _
  | cons name names ih =>
      have hindex : NoCircle (bindings.index name) := by
        unfold Bindings.index
        split
        · exact ok _
        · exact nofun
      exact hindex.bind fun _ => ih.bind fun _ => ok _

theorem guardedLayout (bindings : Bindings) (dirty : String) (names lines : List String) :
    NoCircle (guardedLayout bindings dirty names lines) := by
  have harrange : NoCircle (bindings.arrange names) := (indices bindings _).bind fun _ => ok _
  have hguard : NoCircle (guardText bindings names dirty) :=
    (indices bindings names).bind fun _ => harrange.bind fun _ => ok _
  exact hguard.bind fun _ => ok _

theorem reactiveLayout (bindings : Bindings) (bs : List ReactiveBlock) :
    NoCircle (reactiveLayout bindings bs) := by
  induction bs with
  | nil => exact ok _
  | cons b bs ih =>
      refine ih.bind fun rest => ?_
      split
      · exact ok _
      · exact (guardedLayout bindings _ _ _).bind fun _ => ok _

theorem updateLayout (bindings : Bindings) (bs : List UpdateBlock) :
    NoCircle (updateLayout bindings bs) := by
  induction bs with
  | nil => exact ok _
  | cons b bs ih => exact (guardedLayout bindings _ _ _).bind fun _ => ih.bind fun _ => ok _

theorem text (c : Component) (options : Options) : NoCircle (c.text options) := by
  have hlayout : NoCircle (c.layout options.format) :=
    (reactiveLayout c.bindings c.reactive).bind fun _ =>
      (updateLayout c.bindings c.update).bind fun _ => ok _
  exact hlayout.bind fun _ => ok _

theorem reactiveBlocks (program : Option Source) (bindings : Bindings) (ds : List ReactiveDeclaration) :
    NoCircle (reactiveBlocks program bindings ds) := by
  induction ds with
  | nil => exact ok _
  | cons d ds ih =>
      have hblock : NoCircle (reactiveBlock program bindings d) := by
        unfold reactiveBlock
        dsimp only
        split
        · exact (ok _).bind fun _ => ok _
        · exact (indices bindings d.assignees).bind fun _ => ok _
      exact hblock.bind fun _ => ih.bind fun _ => ok _

theorem scriptTexts (script : Option ScriptBlock) : NoCircle (scriptTexts script) := by
  have htexts (s : ScriptBlock) (ns : List Node) : NoCircle (patchedTexts s ns) := by
    induction ns with
    | nil => exact ok _
    | cons n ns ih =>
        rw [patchedTexts]
        split
        · exact (ok _).bind fun _ => ih.bind fun _ => ok _
        · intro names position h
          cases h
  cases script with
  | none => exact ok _
  | some s => exact (htexts s _).bind fun _ => (htexts s _).bind fun _ => ok _

theorem assemble (options : Options) (d : Document) (a : Analysis) (markup : MarkupCode) :
    NoCircle (assemble options d a markup) :=
  (reactiveBlocks _ _ _).bind fun _ => (scriptTexts _).bind fun _ => (text _ _).bind fun _ => ok _

end NoCircle

/-- A circle is reported before anything is reordered. -/
theorem analysis_of_generate_cyclic {options : Options} {d : Document} {a : Analysis} {names : List String}
    {position : Option Position} (h : (d.generate options a).result = .error (.cyclic names position)) :
    (d.generate options a).analysis = a := by
  unfold Document.generate at h ⊢
  cases hmarkup : markupCode (.of options d.program? a) d.html with
  | error e => rfl
  | ok markup =>
      simp only [hmarkup] at h ⊢
      cases hordered : orderDeclarations (d.announced a) a.reactive with
      | error e => rfl
      | ok ordered =>
          simp only [hordered] at h
          exact absurd h (NoCircle.assemble _ _ _ _ names position)

/-! ### The result -/

/-- **Generation does not depend on earlier generations.**  Whatever was generated from an analysis
before, with whatever options and whether it succeeded or failed, generation gives the component and
text, or the error, that it would have given at first.  A step that reports a circle leaves the analysis
as it was.  Behind this is that ordering leaves declarations alone which are in order. -/
theorem generation_forgets_earlier :
    (∀ (d : Document) (a : Analysis) (earlier : List Options) (options : Options),
      (((⟨d, some a⟩ : Session).run (earlier.map .generate)).generate options).2 =
        ((⟨d, some a⟩ : Session).generate options).2) ∧
    (∀ (s : Session) (options : Options) (names : List String) (position : Option Position),
      (s.generate options).2 = some (.error (.cyclic names position)) →
      (s.generate options).1.analysis = s.analysis) ∧
    (∀ (ds : List Dependent) (order : List Nat), runningOrder ds = .ok order →
      runningOrder (order.filterMap fun i => ds[i]?) = .ok (List.range order.length)) ∧
    ∀ (d : Document) (declarations ordered : List ReactiveDeclaration),
      orderDeclarations d declarations = .ok ordered → orderDeclarations d ordered = .ok ordered := by
  refine ⟨fun d a earlier options => ?_, fun s options names position h => ?_,
    fun ds order => runningOrder_arranged, fun d declarations ordered h => orderDeclarations_ordered h d⟩
  · obtain ⟨d', a', hrun, hremains⟩ := Session.remains_run earlier (Remains.refl d a)
    rw [hrun]
    exact congrArg some (hremains.generate options).1
  · cases ha : s.analysis with
    | none =>
        rw [Session.generate, ha] at h
        cases h
    | some a =>
        rw [Session.generate, ha] at h ⊢
        exact congrArg some (analysis_of_generate_cyclic (Option.some.inj h))

/-- The second declaration feeds the first one, so that the first generation reorders them; the second
generation gives the same component. -/
theorem generation_forgets_earlier_reordered :
    ∃ d, Document.parse "<script>$: b = a; $: a = 1</script>" "page" = .ok d ∧
      (((Session.start d).run [.analyze .default]).analysis.map fun a =>
        a.reactive.map fun r => r.assignees) = some [["b"], ["a"]] ∧
      (((Session.start d).run [.analyze .default, .generate .default]).analysis.map fun a =>
        a.reactive.map fun r => r.assignees) = some [["a"], ["b"]] ∧
      (((Session.start d).run [.analyze .default, .generate .default]).generate .default).2 =
        (((Session.start d).run [.analyze .default]).generate .default).2 := by
  have hrun : ((Document.parse "<script>$: b = a; $: a = 1</script>" "page").toOption.any fun d =>
      (((Session.start d).run [.analyze .default]).analysis.map fun a =>
        a.reactive.map fun r => r.assignees) == some [["b"], ["a"]] &&
      (((Session.start d).run [.analyze .default, .generate .default]).analysis.map fun a =>
        a.reactive.map fun r => r.assignees) == some [["a"], ["b"]]) = true := by
    decide +kernel
  obtain ⟨d, hd, hrun⟩ := (Option.any_eq_true _ _).1 hrun
  obtain ⟨hbefore, hafter⟩ := Bool.and_eq_true_iff.1 hrun
  exact ⟨d, toOption_eq_some_iff.1 hd, beq_iff_eq.1 hbefore, beq_iff_eq.1 hafter,
    generation_forgets_earlier.1 _ _ [.default] .default⟩

end ReactiveTemplate

/-
**Names are read through one call, and not through two.**

An expression of the markup reads the names that occur in it.  It also reads what the functions that it
calls read, and what these call in turn.  To stay on the safe side, all names that occur in a declaration
count as read when the declaration is called.

The names that are noted for an expression go one call deep: they are those of the expression and of the
declarations that the expression itself calls.  Calls inside of these declarations are not followed.  So
the names are all that can be read exactly when such calls add nothing, as when a function calls itself or
another one that the expression calls too.  `ReactiveTemplate.helper_reads_missed` is the smallest case in
which a name is missed.

Main definitions:

* `ReactiveTemplate.Script.Source.Reads`, `ReactiveTemplate.Script.Source.Calls`,
  `ReactiveTemplate.Script.Source.Declares` — the names that a tree reads, calls and declares;
* `ReactiveTemplate.Harvested` — the declarations that an expression calls, through any number of calls;
* `ReactiveTemplate.ClosedUnderCalls` — names among which is all that an expression may read.

Main results:

* `ReactiveTemplate.mem_templateNames_iff` — the names that are noted;
* `ReactiveTemplate.Harvested.of_closed` — what holds of all declarations in reach;
* `ReactiveTemplate.templateNames_one_call_deep` — **when the names that are noted are all**.
-/

import ReactiveTemplate.Analysis.TemplateNames
import ReactiveTemplate.Script.Embedded

set_option relaxedAutoImplicit false
set_option autoImplicit false

namespace ReactiveTemplate

open Script

/-! ### What a tree reads, calls and declares -/

namespace Script.Source

/-- A tree reads a name: a leaf of it does. -/
def Reads (source : Source) (n : Node) (x : String) : Prop :=
  ∃ leaf ∈ n.walk, leaf.kind.isReference = true ∧ source.slice leaf = x

/-- A tree calls a name: the callee of a call in it is the name. -/
def Calls (source : Source) (n : Node) (f : String) : Prop :=
  ∃ call ∈ n.walk, call.kind = .callExpression ∧
    ∃ callee, call.child? .function = some callee ∧ callee.kind = .identifier ∧ source.slice callee = f

/-- A node of a script declares a name as that of a function or variable. -/
structure Declares (program : Source) (d : Node) (f : String) : Prop where
  occurs : d ∈ program.root.walk
  kind : d.kind.isFunctionDeclaration = true ∨ d.kind = .variableDeclarator
  name : ∃ leaf, d.child? .name = some leaf ∧ leaf.kind = .identifier ∧ program.slice leaf = f

end Script.Source

variable {source program : Source} {n d : Node} {f x : String}

theorem mem_map_references : x ∈ (references n).map source.slice ↔ source.Reads n x := by
  simp only [references, List.mem_map, List.mem_filter, Source.Reads, and_assoc]

theorem mem_calleeNames : f ∈ calleeNames source n ↔ source.Calls n f := by
  rw [calleeNames, List.mem_filterMap]
  refine exists_congr fun call => and_congr_right fun _ => ?_
  unfold calleeName?
  split
  · next h =>
      rw [Option.bind_eq_some_iff]
      simp only [plainName?_eq_some_iff, beq_iff_eq.1 h, true_and]
  · next h => simp [mt beq_iff_eq.2 h]

theorem mem_declarationsNamed {names : List String} :
    d ∈ declarationsNamed program names ↔ ∃ f ∈ names, program.Declares d f := by
  rw [declarationsNamed, List.mem_filter]
  constructor
  · rintro ⟨hd, hnamed⟩
    unfold declaresOneOf at hnamed
    split at hnamed
    · next hkind =>
        split at hnamed
        · next f hname =>
            obtain ⟨leaf, hleaf, hplain⟩ := Option.bind_eq_some_iff.1 hname
            refine ⟨f, of_decide_eq_true hnamed, hd, ?_, leaf, hleaf, plainName?_eq_some_iff.1 hplain⟩
            simpa using hkind
        · cases hnamed
    · cases hnamed
  · rintro ⟨f, hf, hd, hkind, leaf, hleaf, hplain⟩
    refine ⟨hd, ?_⟩
    have hname : (d.child? .name).bind (plainName? program) = some f :=
      Option.bind_eq_some_iff.2 ⟨leaf, hleaf, plainName?_eq_some_iff.2 hplain⟩
    rw [declaresOneOf, if_pos (by simpa using hkind), hname]
    exact decide_eq_true hf

/-- The names that are noted for an expression: those that it reads, and those that are read in a
declaration which it calls. -/
theorem mem_templateNames_iff :
    x ∈ templateNames source n (some program) ↔
      source.Reads n x ∨ ∃ f d, source.Calls n f ∧ program.Declares d f ∧ program.Reads d x := by
  rw [templateNames, Names.mem_union, referencedNames, Names.mem_ofList, mem_map_references, calledNames,
    List.mem_flatMap]
  simp only [mem_map_references, mem_declarationsNamed, mem_calleeNames]
  refine or_congr_right ?_
  constructor
  · rintro ⟨d, ⟨f, hf, hd⟩, hx⟩
    exact ⟨f, d, hf, hd, hx⟩
  · rintro ⟨f, d, hf, hd, hx⟩
    exact ⟨d, ⟨f, hf, hd⟩, hx⟩

/-! ### Any number of calls -/

/-- The declarations of a script that an expression calls, through any number of calls. -/
inductive Harvested (source : Source) (n : Node) (program : Source) : Node → Prop
  | called {f : String} {d : Node} (hf : source.Calls n f) (hd : program.Declares d f) :
      Harvested source n program d
  | through {f : String} {d d' : Node} (h : Harvested source n program d) (hf : program.Calls d f)
      (hd : program.Declares d' f) : Harvested source n program d'

/-- Names that are closed under calls: those of the expression and of all declarations that it calls are
among them. -/
structure ClosedUnderCalls (source : Source) (n : Node) (program : Source) (names : List String) : Prop where
  own : ∀ x, source.Reads n x → x ∈ names
  harvested : ∀ d, Harvested source n program d → ∀ x, program.Reads d x → x ∈ names

/-- What holds of the declarations that an expression calls, and goes on from a declaration to those that
are called in it, holds of all declarations in reach. -/
theorem Harvested.of_closed {P : Node → Prop} (h : Harvested source n program d)
    (hcalled : ∀ f d, source.Calls n f → program.Declares d f → P d)
    (hthrough : ∀ d f d', P d → program.Calls d f → program.Declares d' f → P d') : P d := by
  induction h with
  | called hf hd => exact hcalled _ _ hf hd
  | through _ hf hd ih => exact hthrough _ _ _ ih hf hd

/-- **When the names that are noted are all.**  No name is noted twice, and the names are those that the
expression reads or that are read in a declaration which it calls.  They are closed under calls exactly
when calls inside of declarations, of functions that the expression itself does not call, lead to no new
name.  It is enough that the declarations which the expression calls call nothing of the script but what
the expression calls too. -/
theorem templateNames_one_call_deep (source : Source) (n : Node) (program : Source) :
    let names := templateNames source n (some program)
    names.Nodup ∧
    (∀ x, x ∈ names ↔
      source.Reads n x ∨ ∃ f d, source.Calls n f ∧ program.Declares d f ∧ program.Reads d x) ∧
    (ClosedUnderCalls source n program names ↔
      ∀ d f d', Harvested source n program d → program.Calls d f → program.Declares d' f →
        ¬ source.Calls n f → ∀ x, program.Reads d' x → x ∈ names) ∧
    ((∀ g d f d', source.Calls n g → program.Declares d g → program.Calls d f → program.Declares d' f →
      source.Calls n f) → ClosedUnderCalls source n program names) := by
  intro names
  have hown : ∀ x, source.Reads n x → x ∈ names := fun x hx => mem_templateNames_iff.2 (.inl hx)
  have hcalled : ∀ f d, source.Calls n f → program.Declares d f → ∀ x, program.Reads d x → x ∈ names :=
    fun f d hf hd x hx => mem_templateNames_iff.2 (.inr ⟨f, d, hf, hd, hx⟩)
  refine ⟨Names.nodup_union (Names.nodup_ofList _), fun x => mem_templateNames_iff, ⟨?_, ?_⟩, ?_⟩
  · intro hclosed d f d' hd hf hd' _
    exact hclosed.harvested d' (.through hd hf hd')
  · intro hnew
    refine ⟨hown, fun d hd => ?_⟩
    cases hd with
    | called hf hd => exact hcalled _ d hf hd
    | @through f d₀ _ h hf hd =>
        by_cases hn : source.Calls n f
        · exact hcalled f d hn hd
        · exact hnew d₀ f d h hf hd hn
  · intro hdirect
    refine ⟨hown, fun d hd => ?_⟩
    -- all declarations in reach are called by the expression itself
    obtain ⟨f, hf, hdf⟩ := hd.of_closed (P := fun d => ∃ f, source.Calls n f ∧ program.Declares d f)
      (fun f d hf hd => ⟨f, hf, hd⟩) (fun d f d' ⟨g, hg, hd⟩ hf hd' => ⟨f, hdirect g d f d' hg hd hf hd', hd'⟩)
    exact hcalled f d hf hdf

/-- A function that calls itself: the only call in its declaration is one that the expression makes too, so
all names are noted. -/
theorem templateNames_one_call_deep_recursive :
    ∃ e program, embedded? "f(n)".toList 0 = some e ∧
      Source.ofScript? "function f(v) \x7b return v ? f(v - 1) : rate \x7d".toList 0 = some program ∧
      templateNames e.toSource e.node (some program) = ["f", "n", "v", "rate"] ∧
      (∃ d, e.toSource.Calls e.node "f" ∧ program.Declares d "f" ∧ program.Calls d "f") ∧
      ClosedUnderCalls e.toSource e.node program (templateNames e.toSource e.node (some program)) := by
  have hrun : ((embedded? "f(n)".toList 0).any fun e =>
      (Source.ofScript? "function f(v) \x7b return v ? f(v - 1) : rate \x7d".toList 0).any fun program =>
        templateNames e.toSource e.node (some program) == ["f", "n", "v", "rate"] &&
          (calleeNames e.toSource e.node == ["f"] &&
            (declarationsNamed program ["f"]).map (calleeNames program) == [["f"]])) = true := by
    decide +kernel
  obtain ⟨e, he, hrun⟩ := (Option.any_eq_true _ _).1 hrun
  obtain ⟨program, hprogram, hrun⟩ := (Option.any_eq_true _ _).1 hrun
  simp only [Bool.and_eq_true, beq_iff_eq] at hrun
  obtain ⟨hnames, hcallees, hcalls⟩ := hrun
  have hcalls_iff : ∀ g, e.toSource.Calls e.node g ↔ g = "f" := by
    intro g
    rw [← mem_calleeNames, hcallees, List.mem_singleton]
  -- the declaration of `f` calls `f` alone
  have honly : ∀ d, program.Declares d "f" → calleeNames program d = ["f"] := by
    intro d hd
    have hmem := mem_declarationsNamed.2 ⟨"f", List.mem_singleton_self _, hd⟩
    simpa [hcalls] using List.mem_map_of_mem (f := calleeNames program) hmem
  have hdirect : ∀ g d f d', e.toSource.Calls e.node g → program.Declares d g → program.Calls d f →
      program.Declares d' f → e.toSource.Calls e.node f := by
    intro g d f d' hg hd hf _
    rw [hcalls_iff] at hg ⊢
    subst hg
    simpa [honly d hd] using mem_calleeNames.2 hf
  have hdeclared : ∃ d, program.Declares d "f" := by
    obtain ⟨d, hd⟩ := List.exists_mem_of_ne_nil (declarationsNamed program ["f"])
      (fun hnil => by simp [hnil] at hcalls)
    obtain ⟨g, hg, hd⟩ := mem_declarationsNamed.1 hd
    exact ⟨d, List.mem_singleton.1 hg ▸ hd⟩
  obtain ⟨d, hd⟩ := hdeclared
  refine ⟨e, program, he, hprogram, hnames, ⟨d, (hcalls_iff "f").2 rfl, hd, ?_⟩,
    (templateNames_one_call_deep e.toSource e.node program).2.2.2 hdirect⟩
  exact mem_calleeNames.1 (by rw [honly d hd]; exact List.mem_singleton_self _)

/-- **A name that is read through two calls is missed.**  The expression calls `f`, which calls `g`, which
reads `x`. -/
theorem helper_reads_missed :
    ∃ e program, embedded? "f()".toList 0 = some e ∧
      Source.ofScript?
        "function f() \x7b return g(); \x7d function g() \x7b return x; \x7d".toList 0 = some program ∧
      templateNames e.toSource e.node (some program) = ["f", "g"] ∧
      (∃ d, Harvested e.toSource e.node program d ∧ program.Reads d "x") ∧
      ¬ ClosedUnderCalls e.toSource e.node program (templateNames e.toSource e.node (some program)) := by
  have hrun : ((embedded? "f()".toList 0).any fun e =>
      (Source.ofScript?
        "function f() \x7b return g(); \x7d function g() \x7b return x; \x7d".toList 0).any fun program =>
        templateNames e.toSource e.node (some program) == ["f", "g"] &&
          (decide ("f" ∈ calleeNames e.toSource e.node) &&
            ((declarationsNamed program ["f"]).any fun d => decide ("g" ∈ calleeNames program d) &&
              (declarationsNamed program ["g"]).any fun d' =>
                decide ("x" ∈ (references d').map program.slice)))) = true := by
    decide +kernel
  obtain ⟨e, he, hrun⟩ := (Option.any_eq_true _ _).1 hrun
  obtain ⟨program, hprogram, hrun⟩ := (Option.any_eq_true _ _).1 hrun
  simp only [Bool.and_eq_true, beq_iff_eq, decide_eq_true_eq, List.any_eq_true, mem_calleeNames,
    mem_declarationsNamed, mem_map_references, List.mem_singleton, exists_eq_left] at hrun
  obtain ⟨hnames, hf, d, hd, hg, d', hd', hx⟩ := hrun
  have hreach : Harvested e.toSource e.node program d' := .through (.called hf hd) hg hd'
  refine ⟨e, program, he, hprogram, hnames, ⟨d', hreach, hx⟩, fun hclosed => ?_⟩
  have hmem := hclosed.harvested d' hreach "x" hx
  rw [hnames] at hmem
  exact absurd hmem (by decide)

end ReactiveTemplate

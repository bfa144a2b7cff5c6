/-
**Expressions are whole.**

Two things happen to nodes after they were read.  An array or object that is assigned to turns into
the pattern it covers, and the parts of a list in parentheses become one expression, the arguments of
a call or the parameters of a function.  Neither takes a child away that the new kind of the node
requires; the rest is again one step for each rule.

Main results:

* `ReactiveTemplate.Script.Node.Whole.asPattern?` — the pattern that a whole node covers is whole;
* `ReactiveTemplate.Script.whole_groupValue?` — the expression that whole parts make is whole;
* `ReactiveTemplate.Script.assignmentRule_whole`, `ReactiveTemplate.Script.expressionRule_whole` —
  expressions.
-/

import ReactiveTemplate.Proofs.Wholeness.Parts
import ReactiveTemplate.Script.Expressions

set_option relaxedAutoImplicit false
set_option autoImplicit false

namespace ReactiveTemplate.Script

open Node

/-! ### Nodes that take another form -/

/-- A node requires no more as a part of a pattern than it did before, and nothing at all when its
children turn into patterns themselves.  It is no function and no import. -/
theorem Kind.requires_of_covered? {accesses : Bool} {k k' : Kind} {part : PatternPart}
    (h : k.covered? accesses = some (k', part)) :
    k'.requires ⊆ k.requires ∧ (part ≠ .bound → k'.requires = []) ∧ k'.isFree = true := by
  have haccess {k₀ : Kind} (hfree : k₀.isFree = true)
      (h : (if accesses then some (k₀, PatternPart.bound) else none) = some (k', part)) :
      k'.requires ⊆ k₀.requires ∧ (part ≠ .bound → k'.requires = []) ∧ k'.isFree = true := by
    split at h
    · cases h
      exact ⟨List.Subset.refl _, fun hpart => absurd rfl hpart, hfree⟩
    · cases h
  unfold Kind.covered? at h
  split at h
  case h_3 => exact haccess rfl h
  case h_4 => exact haccess rfl h
  all_goals
    cases h
    try exact ⟨List.nil_subset _, fun _ => rfl, rfl⟩

namespace Node

mutual

theorem Whole.asPattern? {accesses : Bool} :
    ∀ {n p : Node}, asPattern? accesses n = some p → n.Whole → p.Whole
  | .mk k r a b i cs, p, h, hn => by
      rw [Script.asPattern?] at h
      split at h
      · next k' hk =>
          cases h
          obtain ⟨hrequires, -, hfree⟩ := Kind.requires_of_covered? hk
          exact ⟨⟨List.Subset.trans hrequires hn.1.1, Kind.fits_of_isFree hfree _⟩, hn.2⟩
      · next k' hk =>
          split at h
          · cases h
          · obtain ⟨ps, hps, rfl⟩ := Option.map_eq_some_iff.1 h
            obtain ⟨-, hrequires, hfree⟩ := Kind.requires_of_covered? hk
            refine ⟨⟨?_, Kind.fits_of_isFree hfree _⟩, AllWhole.asPatterns? hps hn.2⟩
            rw [hrequires nofun]
            exact List.nil_subset _
      · next k' role hk =>
          obtain ⟨ps, hps, rfl⟩ := Option.map_eq_some_iff.1 h
          obtain ⟨-, hrequires, hfree⟩ := Kind.requires_of_covered? hk
          refine ⟨⟨?_, Kind.fits_of_isFree hfree _⟩, AllWhole.asPatternIn? hps hn.2⟩
          rw [hrequires nofun]
          exact List.nil_subset _
      · cases h

theorem AllWhole.asPatterns? {accesses : Bool} :
    ∀ {cs ps : List Node}, asPatterns? accesses cs = some ps → AllWhole cs → AllWhole ps
  | [], ps, h, _ => by
      cases h
      trivial
  | c :: cs, ps, h, hcs => by
      rw [Script.asPatterns?] at h
      obtain ⟨q, hq, h⟩ := Option.bind_eq_some_iff.1 h
      obtain ⟨qs, hqs, h⟩ := Option.bind_eq_some_iff.1 h
      cases h
      exact ⟨Whole.asPattern? hq hcs.1, AllWhole.asPatterns? hqs hcs.2⟩

theorem AllWhole.asPatternIn? {accesses : Bool} {role : Role} :
    ∀ {cs ps : List Node}, asPatternIn? accesses role cs = some ps → AllWhole cs → AllWhole ps
  | [], ps, h, _ => by
      cases h
      trivial
  | c :: cs, ps, h, hcs => by
      rw [Script.asPatternIn?] at h
      split at h
      · obtain ⟨q, hq, h⟩ := Option.bind_eq_some_iff.1 h
        obtain ⟨qs, hqs, h⟩ := Option.bind_eq_some_iff.1 h
        cases h
        exact ⟨Whole.asPattern? hq hcs.1, AllWhole.asPatternIn? hqs hcs.2⟩
      · obtain ⟨q, hq, h⟩ := Option.bind_eq_some_iff.1 h
        obtain ⟨qs, hqs, h⟩ := Option.bind_eq_some_iff.1 h
        cases hq
        cases h
        exact ⟨hcs.1, AllWhole.asPatternIn? hqs hcs.2⟩

end

end Node

/-- The expression that the parts of a list make is whole when the parts are. -/
theorem whole_groupValue? {parts : List (Node × Bool)} {inner : Node}
    (hparts : AllWhole (parts.map Prod.fst)) (h : groupValue? parts = some inner) : inner.Whole := by
  unfold groupValue? at h
  dsimp only at h
  split at h
  · split at h
    · next only hnodes =>
        cases h
        rw [hnodes] at hparts
        exact hparts.1
    · cases h
      exact ⟨⟨List.nil_subset _, Kind.fits_of_isFree rfl _⟩, hparts⟩
    · cases h
    · cases h
  · cases h

variable {g : Grammar}

/-! ### Operators behind an operand -/

/-- Every assignment has its two sides. -/
theorem requires_of_assignmentKind? {left : Node} {token : Token} {kind : Kind}
    (h : assignmentKind? left token = some kind) :
    kind.requires = [.left, .right] ∧ kind.isFree = true := by
  unfold assignmentKind? at h
  split at h
  · cases h
  · split at h
    · cases h
      exact ⟨rfl, rfl⟩
    · split at h
      · cases h
        exact ⟨rfl, rfl⟩
      · cases h

theorem assignTo_whole {left : Node} {token : Token} {kind : Kind} (hg : g.Whole) (hleft : left.Whole)
    (hkind : assignmentKind? left token = some kind) : Yields Whole (assignTo g left kind) := by
  obtain ⟨hrequires, hfree⟩ := requires_of_assignmentKind? hkind
  refine .skip fun _ => hg.assignment.bind fun right hright => freeNode_whole hfree ?_ ?_
  · simp [hrequires]
  · simp [hleft, hright]

theorem updateStep_whole {operand : Node × Bool} (hg : g.Whole) (hoperand : operand.1.Whole) :
    Yields (fun o => (o.getD operand).1.Whole) (updateStep g operand) := by
  refine .skip fun _ => .skip fun _ => .ite ?_ (.pure hoperand)
  refine .skip fun _ => ?_
  refine (freeNode_whole rfl (by simp [Kind.requires]) (by simp [hoperand])).bind fun update hupdate => ?_
  refine .skip fun _ => .ite ?_ (.pure hupdate)
  refine (iterate_accessStep_whole hg true hupdate).bind fun accessed haccessed => .skip fun _ => ?_
  split
  · next kind hkind => exact (assignTo_whole hg haccessed hkind).bind fun _ hn => .pure hn
  · exact .pure haccessed

theorem postfixOf_whole {value : Node} (hg : g.Whole) (hvalue : value.Whole) :
    Yields Whole (postfixOf g value) := by
  refine (iterate_accessStep_whole hg true hvalue).bind fun operand hoperand => ?_
  have hupdates : Yields (fun o : Node × Bool => o.1.Whole) (iterate (updateStep g) (operand, true)) :=
    iterate_yields (fun _ ho => updateStep_whole hg ho) hoperand
  exact hupdates.bind fun _ ho => .pure ho

theorem yieldExpression_whole (hg : g.Whole) (whole : Bool) :
    Yields Whole (yieldExpression g whole) := by
  refine .skip fun _ => .skip fun _ => .skip fun _ => .ite (plainNode_whole rfl trivial) ?_
  refine .skip fun _ => .skip fun _ => .skip fun _ => .ite ?_ ?_
  · exact hg.assignment.bind fun _ hoperand => plainNode_whole rfl ⟨hoperand, trivial⟩
  · exact .bind (plainNode_whole rfl trivial) fun _ hn => postfixOf_whole hg hn

/-! ### Lists in parentheses -/

theorem groupParts_whole (hg : g.Whole) :
    Yields (fun parts => AllWhole (parts.map Prod.fst)) (groupParts g) := by
  have hround : Yields (fun part : Node × Bool => part.1.Whole) (do
      let part ← spreadOr g.cover
      if ← atPunctuator ")" then
        return (part, false)
      else
        punctuator ","
        return (part, true)) := by
    refine (spreadOr_whole hg.cover).bind fun part hpart => .skip fun _ => .ite (.pure hpart) ?_
    exact .skip fun _ => .pure hpart
  refine .skip fun _ => ((repeatUntil_yields hround).within _).bind fun parts hparts => ?_
  refine .skip fun _ => .pure (allWhole_iff.2 fun n hn => ?_)
  obtain ⟨part, hpart, rfl⟩ := List.mem_map.1 hn
  exact hparts part hpart

theorem groupCall_whole {callee : Node} {opening : Nat} {parts : List (Node × Bool)}
    (hcallee : callee.Whole) (hparts : AllWhole (parts.map Prod.fst)) :
    Yields Whole (groupCall callee opening parts) := by
  refine .skip fun _ => (plainNode_whole rfl hparts).bind fun arguments harguments => ?_
  exact freeNode_whole rfl (by simp [Kind.requires]) (by simp [hcallee, harguments])

/-! ### Operators in front of an operand -/

theorem awaited_whole (hg : g.Whole) : Yields Whole (awaited g) :=
  .skip fun _ => .skip fun _ => hg.unary.bind fun _ hoperand => plainNode_whole rfl ⟨hoperand, trivial⟩

theorem awaitedGroup_whole (hg : g.Whole) : Yields Whole (awaitedGroup g) := by
  refine .skip fun _ => identifier_whole.bind fun callee hcallee => .skip fun _ => ?_
  refine (groupParts_whole hg).bind fun parts hparts => ?_
  split
  · next inner hinner =>
      have hin := whole_groupValue? hparts hinner
      refine .bind (plainNode_whole rfl ⟨hin, trivial⟩) fun group hgroup => ?_
      exact (postfixOf_whole hg hgroup).bind fun _ hoperand => plainNode_whole rfl ⟨hoperand, trivial⟩
  · exact (groupCall_whole hcallee hparts).bind fun _ hcall => postfixOf_whole hg hcall

theorem awaitedRegex_whole (hg : g.Whole) : Yields Whole (awaitedRegex g) :=
  (awaited_whole hg).bind fun _ hn => .skip fun _ => .skip fun _ => .pure hn

theorem awaitOperand_whole (hg : g.Whole) : Yields Whole (awaitOperand g) := by
  have hnamed : Yields Whole (do postfixOf g (← identifier)) :=
    identifier_whole.bind fun _ hname => postfixOf_whole hg hname
  refine .skip fun second => .skip fun _ => .ite hnamed ?_
  split
  · exact awaitedGroup_whole hg
  · exact (awaitedRegex_whole hg).orElse hnamed
  · exact (awaitedRegex_whole hg).orElse hnamed
  · exact (awaited_whole hg).orElse hnamed
  · exact (awaited_whole hg).orElse hnamed
  · exact awaited_whole hg

theorem unaryRule_whole (hg : g.Whole) : Yields Whole (unaryRule g) := by
  refine .skip fun _ => .skip fun _ => .ite ?_ (.ite ?_ (.ite (awaitOperand_whole hg) (.ite ?_ ?_)))
  · exact .skip fun _ => hg.unary.bind fun _ hoperand => plainNode_whole rfl (by simpa using hoperand)
  · refine .skip fun _ => hg.unary.bind fun _ hoperand => ?_
    exact freeNode_whole rfl (by simp [Kind.requires]) (by simpa using hoperand)
  · exact yieldExpression_whole hg false
  · exact (newOrPrimary_whole hg).bind fun _ hvalue => postfixOf_whole hg hvalue

/-! ### Operators with two operands -/

theorem firstOperand_whole (hg : g.Whole) (least : Nat) : Yields Whole (firstOperand g least) := by
  refine .skip fun _ => .ite ?_ (unaryRule_whole hg)
  exact .skip fun _ => .skip fun _ => .skip fun _ => leaf_whole rfl

theorem binaryStep_whole {left : Joined} (hg : g.Whole) (least : Nat) (hleft : left.node.Whole) :
    Yields (fun o => (o.getD left).node.Whole) (binaryStep g least left) := by
  refine .skip fun _ => ?_
  split
  · refine .skip fun _ => .ite ?_ (.pure hleft)
    refine .skip fun _ => .skip fun _ => (hg.binary _).bind fun right hright => ?_
    exact (plainNode_whole rfl (by simp [hleft, hright])).bind fun _ hn => .pure hn
  · exact .pure hleft

theorem joinFrom_whole {first : Node} (hg : g.Whole) (least : Nat) (hfirst : first.Whole) :
    Yields Whole (joinFrom g least first) := by
  have hsteps : Yields (fun o : Joined => o.node.Whole) (iterate (binaryStep g least) ⟨first, 0⟩) :=
    iterate_yields (fun _ ho => binaryStep_whole hg least ho) hfirst
  exact hsteps.bind fun _ ho => .pure ho

theorem binaryRule_whole (hg : g.Whole) (least : Nat) : Yields Whole (binaryRule g least) :=
  (firstOperand_whole hg least).bind fun _ hfirst => joinFrom_whole hg least hfirst

/-! ### Assignments, conditionals and arrow functions -/

theorem assignmentFrom_whole {first : Node} (hg : g.Whole) (hfirst : first.Whole) :
    Yields Whole (assignmentFrom g first) := by
  refine (joinFrom_whole hg 1 hfirst).bind fun left hleft => .skip fun _ => ?_
  split
  · next kind hkind => exact assignTo_whole hg hleft hkind
  · refine .skip fun _ => .ite ?_ (.pure hleft)
    refine (hg.assignment.within _).bind fun yes hyes => .skip fun _ => ?_
    exact hg.assignment.bind fun no hno => plainNode_whole rfl (by simp [hleft, hyes, hno])

theorem assignmentWith_whole {value : Node} (hg : g.Whole) (hvalue : value.Whole) :
    Yields Whole (assignmentWith g value) :=
  (postfixOf_whole hg hvalue).bind fun _ hfirst => assignmentFrom_whole hg hfirst

theorem literalFirst_whole (hg : g.Whole) (lenient : Bool) : Yields Whole (literalFirst g lenient) := by
  refine (coverLiteral_whole hg).bind fun literal hliteral => .skip fun _ => .ite ?_ ?_
  · split
    · next pattern hpattern => exact assignmentFrom_whole hg (hliteral.asPattern? hpattern)
    · exact .failure
  · refine .skip fun _ => .ite (.pure hliteral) ?_
    exact .skip fun _ => assignmentWith_whole hg hliteral

theorem arrowWith_whole {arrow : Node} (hg : g.Whole) (harrow : arrow.Whole) :
    Yields Whole (arrowWith g arrow) :=
  .skip fun _ => .ite (assignmentWith_whole hg harrow) (.pure harrow)

theorem groupArrow_whole {start opening : Nat} {parts : List (Node × Bool)} (hg : g.Whole)
    (hparts : AllWhole (parts.map Prod.fst)) : Yields Whole (groupArrow g start opening parts) := by
  refine .skip fun _ => ?_
  split
  · next parameters hparameters =>
      refine (plainNode_whole rfl (hparts.asPatterns? hparameters)).bind fun list hlist => ?_
      refine (arrowTail_whole hg (by simpa using hlist) (.inl (by simp))).bind fun _ harrow => ?_
      exact arrowWith_whole hg harrow
  · exact .failure

theorem groupFirst_whole (hg : g.Whole) : Yields Whole (groupFirst g) := by
  refine .skip fun _ => (groupParts_whole hg).bind fun parts hparts => .skip fun _ => ?_
  refine .ite (groupArrow_whole hg hparts) ?_
  split
  · next inner hinner =>
      have hin := whole_groupValue? hparts hinner
      refine .bind (plainNode_whole rfl ⟨hin, trivial⟩) fun _ hgroup => ?_
      exact assignmentWith_whole hg hgroup
  · exact .failure

theorem asyncGroupFirst_whole (hg : g.Whole) : Yields Whole (asyncGroupFirst g) := by
  refine .skip fun _ => .skip fun _ => identifier_whole.bind fun callee hcallee => .skip fun _ => ?_
  refine (groupParts_whole hg).bind fun parts hparts => .skip fun _ => ?_
  refine .ite (groupArrow_whole hg hparts) ?_
  exact (groupCall_whole hcallee hparts).bind fun _ hcall => assignmentWith_whole hg hcall

theorem wordFirst_whole (hg : g.Whole) (w : String) : Yields Whole (wordFirst g w) := by
  have harrow (start : Nat) : Yields Whole (do arrowWith g (← nameArrow g start)) :=
    (nameArrow_whole hg).bind fun _ hn => arrowWith_whole hg hn
  refine .skip fun start => .skip fun _ => .ite (harrow start) (.ite (asyncGroupFirst_whole hg) ?_)
  refine .skip fun _ => .ite (.skip fun _ => harrow start) (.ite ?_ ?_)
  · exact (yieldExpression_whole hg true).bind fun _ hfirst => assignmentFrom_whole hg hfirst
  · exact (unaryRule_whole hg).bind fun _ hfirst => assignmentFrom_whole hg hfirst

theorem assignmentRule_whole (hg : g.Whole) (lenient : Bool) :
    Yields Whole (assignmentRule g lenient) := by
  refine .skip fun _ => ?_
  split
  · exact wordFirst_whole hg _
  · exact groupFirst_whole hg
  · exact literalFirst_whole hg lenient
  · exact literalFirst_whole hg lenient
  · exact (firstOperand_whole hg 1).bind fun _ hfirst => assignmentFrom_whole hg hfirst

theorem expressionRule_whole (hg : g.Whole) : Yields Whole (expressionRule g) := by
  refine .skip fun _ => hg.assignment.bind fun first hfirst => .skip fun _ => .ite ?_ (.pure hfirst)
  refine (repeatUntil_whole (.skip fun _ => hg.assignment)).bind fun more hmore => ?_
  exact plainNode_whole rfl ⟨hfirst, hmore⟩

end ReactiveTemplate.Script

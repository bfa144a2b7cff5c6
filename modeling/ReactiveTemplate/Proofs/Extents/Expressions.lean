/-
**Expressions lie properly in the text.**

An expression grows to the left of the cursor: operands that were read become part of a larger node,
which starts where the first of them does.  A list in parentheses is read before it is known whether
it holds parameters, so its parts lie properly whatever they turn out to be.

Main results:

* `ReactiveTemplate.Script.unaryRule_reads`, `ReactiveTemplate.Script.binaryRule_reads` — operators;
* `ReactiveTemplate.Script.Passage.groupValue` — the expression that the parts of a list make;
* `ReactiveTemplate.Script.assignmentRule_reads`, `ReactiveTemplate.Script.expressionRule_reads` —
  expressions.
-/

import ReactiveTemplate.Proofs.Extents.Parts
import ReactiveTemplate.Script.Expressions

set_option relaxedAutoImplicit false
set_option autoImplicit false

namespace ReactiveTemplate.Script

open Node

variable {text : List Char} {g : Grammar} {place : Place} {c s : Cursor} {t : Bool} {ns : List Node}

/-! ### Nodes that take another form -/

namespace Passage

/-- Nodes that were read may be left out. -/
theorem discard (h : Passage text s t ns c) : Passage text s t [] c :=
  ⟨h.origin, h.onward, placedIn_nil _ _, h.lt_of_took⟩

/-- The pattern that a node covers lies where the node does. -/
theorem asPattern {accesses : Bool} {n p : Node} (h : Passage text s t [n] c)
    (hp : asPattern? accesses n = some p) : Passage text s t [p] c :=
  ⟨h.origin, h.onward, h.placed.supplant (Placed.asPattern? hp) fun _ => placedIn_nil _ _,
    h.lt_of_took⟩

/-- The patterns that nodes cover lie where the nodes do. -/
theorem asPatterns {accesses : Bool} {ps : List Node} (h : Passage text s t ns c)
    (hps : asPatterns? accesses ns = some ps) : Passage text s t ps c :=
  ⟨h.origin, h.onward, PlacedIn.asPatterns? hps h.placed, h.lt_of_took⟩

/-- The expression that the parts of a list make lies where the parts do. -/
theorem groupValue {parts : List (Node × Bool)} {inner : Node}
    (h : Passage text s t (parts.map Prod.fst) c) (hinner : groupValue? parts = some inner) :
    Passage text s t [inner] c := by
  unfold groupValue? at hinner
  dsimp only at hinner
  split at hinner
  · split at hinner
    · next only hnodes =>
        cases hinner
        rwa [hnodes] at h
    · next first rest last _ hnodes hlast =>
        -- the node of several parts stops with the last one, and not with the last token taken
        cases hinner
        rw [hnodes] at hlast h ⊢
        obtain ⟨hlt, hstop, hpl, hin⟩ := h.placed.hull hlast
        obtain ⟨hstart, hfirst, -, -⟩ := placedIn_cons.1 h.placed
        refine ⟨h.origin, h.onward, placedIn_singleton.2 ⟨hstart, ?_, hstop⟩, h.lt_of_took⟩
        exact placed_iff.2 ⟨hfirst.boundary_start, hpl.boundary_stop, hlt, hin⟩
    · cases hinner
    · cases hinner
  · cases hinner

end Passage

/-! ### Operators behind an operand -/

/-- An assignment to an operand that was read. -/
theorem assignTo_reads {left : Node} (hg : g.Reading text) (kind : Kind)
    (h : Passage text s t [left] c) :
    Ensures (assignTo g left kind) place c fun n c' => Passage text s true [n] c' := by
  refine advance_moves.step h fun _ c h => ?_
  exact hg.assignment.step h fun right c h => nodeFromFirst_reads h (by simp)

theorem atContinuation_looks (continues : Token → Bool) : Looks (atContinuation continues) := by
  rintro _ _ _ _ ⟨⟩
  rfl

/-- One more operator behind an operand that was read. -/
theorem updateStep_reads {operand : Node × Bool} (hg : g.Reading text)
    (h : Passage text s true [operand.1] c) :
    Ensures (updateStep g operand) place c
      fun o c' => Passage text s true [(o.getD operand).1] c' := by
  refine peek_looks.step fun _ => newlineAhead_looks.step fun _ => ?_
  split
  · refine advance_moves.step h fun _ c h => ?_
    refine (nodeFromFirst_reads h (by simp)).step fun update c h => ?_
    refine (atContinuation_looks _).step fun _ => ?_
    split
    · refine (iterate_accessStep_reads hg true h).step fun accessed c h => ?_
      refine peek_looks.step fun _ => ?_
      split
      · exact (assignTo_reads hg _ h).step fun _ c h => .pure h
      · exact .pure h
    · exact .pure h
  · exact .pure h

theorem postfixOf_reads {value : Node} (hg : g.Reading text) (h : Passage text s true [value] c) :
    Ensures (postfixOf g value) place c fun n c' => Passage text s true [n] c' := by
  refine (iterate_accessStep_reads hg true h).step fun operand c h => ?_
  have hupdates : Ensures (iterate (updateStep g) (operand, true)) place c
      fun o c' => Passage text s true [o.1] c' := iterate_reads Prod.fst (updateStep_reads hg) h
  exact hupdates.step fun _ c h => .pure h

theorem yieldExpression_reads (hg : g.Reading text) (whole : Bool) :
    Reads text (yieldExpression g whole) := by
  intro place s hs
  refine here_step ((keyword_takes _).step (.refl hs) fun _ c h => ?_)
  refine (atStatementEnd_looks _).step fun _ => ?_
  split
  · exact nodeFrom_reads h rfl
  · refine peek_looks.step fun token => newlineAhead_looks.step fun _ => ?_
    have hoperand : ∀ {c}, Passage text s true [] c → Ensures (do
        let operand ← g.assignment
        nodeFrom .yieldExpression s.pos [operand]) place c fun n c' => Passage text s true [n] c' :=
      fun h => hg.assignment.step h fun _ c h => nodeFrom_reads h (by simp)
    refine tryPunctuator_step h (fun c h => hoperand h) ?_
    split
    · exact hoperand h
    · exact (nodeFrom_reads h rfl).step fun _ c h => postfixOf_reads hg h

/-! ### Lists in parentheses -/

/-- One part of a list in parentheses, with whether a comma follows it. -/
def groupRound (g : Grammar) : Parser (Node × Bool) := do
  let part ← spreadOr g.cover
  if ← atPunctuator ")" then
    return (part, false)
  else
    punctuator ","
    return (part, true)

/-- The parts before the closing parenthesis. -/
theorem groupRounds_reads (hg : g.Reading text) :
    ReadsAll text false (fun parts => parts.map Prod.fst)
      (repeatUntil (atPunctuator ")") (groupRound g)) := by
  have hround : ReadsAll text true (fun part : Node × Bool => [part.1]) (groupRound g) := by
    intro place c hc
    refine (spreadOr_reads hg.cover).step (.refl hc) fun part c h => ?_
    refine (atPunctuator_looks _).step fun _ => ?_
    split
    · exact .pure h
    · exact (punctuator_takes _).step h fun _ c h => .pure h
  intro place c hc
  refine (repeatUntil_reads (atPunctuator_looks _) hround place c hc).mono fun parts c' h => ?_
  exact h.congr (by simp [List.map_eq_flatMap])

theorem groupParts_reads (hg : g.Reading text) :
    ReadsAll text true (fun parts => parts.map Prod.fst) (groupParts g) := by
  intro place s hs
  refine (punctuator_takes _).step (.refl hs) fun _ c h => ?_
  refine ((groupRounds_reads hg).within _).step h fun parts c h => ?_
  exact (punctuator_takes _).step h fun _ c h => .pure h

/-- The call of a name that was read with the parts of a list that starts at a later cursor. -/
theorem groupCall_reads {callee : Node} {parts : List (Node × Bool)} {o : Cursor}
    (hcallee : Passage text s true [callee] o) (h : Passage text o true (parts.map Prod.fst) c) :
    Ensures (groupCall callee o.pos parts) place c fun n c' => Passage text s true [n] c' := by
  refine require_step fun _ => (nodeFrom_reads h rfl).step fun arguments c h => ?_
  exact nodeFromFirst_reads (hcallee.append h) (by simp)

/-! ### Operators in front of an operand -/

theorem awaited_reads (hg : g.Reading text) : Reads text (awaited g) := by
  intro place s hs
  refine here_step ((keyword_takes _).step (.refl hs) fun _ c h => ?_)
  exact hg.unary.step h fun operand c h => nodeFrom_reads h (by simp)

theorem awaitedGroup_reads (hg : g.Reading text) : Reads text (awaitedGroup g) := by
  intro place s hs
  refine here_step (identifier_reads.step (.refl hs) fun callee o hcallee => here_step ?_)
  -- the list has a passage of its own, since its node starts behind the word
  refine (groupParts_reads hg).step (.refl hcallee.mem) fun parts c h => ?_
  split
  · next inner hinner =>
      -- the word is the operator here, and no node of its own
      refine (nodeFrom_reads (h.groupValue hinner) rfl).step fun group c hgroup => ?_
      refine (postfixOf_reads hg (hcallee.discard.append hgroup)).step fun operand c h => ?_
      exact nodeFrom_reads h rfl
  · exact (groupCall_reads hcallee h).step fun _ c h => postfixOf_reads hg h

theorem atOperandEnd_looks : Looks atOperandEnd := by
  intro place c
  refine peek_looks.step fun _ => ?_
  split
  · exact (atStatementEnd_looks _).step fun _ => .pure rfl
  · exact atStatementEnd_looks _ place c
  · exact atStatementEnd_looks _ place c
  · exact .pure rfl

theorem awaitedRegex_reads (hg : g.Reading text) : Reads text (awaitedRegex g) := by
  intro place s hs
  refine (awaited_reads hg).step (.refl hs) fun n c h => ?_
  exact atOperandEnd_looks.step fun _ => require_step fun _ => .pure h

theorem awaitOperand_reads (hg : g.Reading text) : Reads text (awaitOperand g) := by
  have hnamed : Reads text (do postfixOf g (← identifier)) := fun place s hs =>
    identifier_reads.step (.refl hs) fun _ c h => postfixOf_reads hg h
  intro place s hs
  refine peekSecond_looks.step fun _ => endsBehindNext_looks.step fun _ => ?_
  split
  · exact hnamed place s hs
  · split
    · exact awaitedGroup_reads hg place s hs
    · exact ((awaitedRegex_reads hg).orElse hnamed) place s hs
    · exact ((awaitedRegex_reads hg).orElse hnamed) place s hs
    · exact ((awaited_reads hg).orElse hnamed) place s hs
    · exact ((awaited_reads hg).orElse hnamed) place s hs
    · exact awaited_reads hg place s hs

theorem unaryRule_reads (hg : g.Reading text) : Reads text (unaryRule g) := by
  intro place s hs
  refine here_step (peek_looks.step fun _ => ?_)
  split
  · refine advance_moves.step (.refl hs) fun _ c h => ?_
    exact hg.unary.step h fun operand c h => nodeFrom_reads h (by simp)
  · split
    · refine advance_moves.step (.refl hs) fun _ c h => ?_
      exact hg.unary.step h fun operand c h => nodeFrom_reads h (by simp)
    · split
      · exact awaitOperand_reads hg place s hs
      · split
        · exact yieldExpression_reads hg false place s hs
        · exact (newOrPrimary_reads hg).step (.refl hs) fun _ c h => postfixOf_reads hg h

/-! ### Operators with two operands -/

theorem testedPrivateName_reads : Reads text testedPrivateName := by
  intro place s hs
  refine peekSecond_step fun second hsecond => read_looks.step fun _ => require_step fun hin => ?_
  have hword : second = .word "in" := eq_of_beq (Bool.and_eq_true_iff.1 hin).1
  exact leaf_reads hs (hsecond (by simp [hword]))

theorem firstOperand_reads (hg : g.Reading text) (least : Nat) : Reads text (firstOperand g least) := by
  intro place s hs
  refine peek_looks.step fun _ => ?_
  split
  · exact testedPrivateName_reads place s hs
  · exact unaryRule_reads hg place s hs

/-- One more operator and operand behind operands that were read. -/
theorem binaryStep_reads {left : Joined} (hg : g.Reading text) (least : Nat)
    (h : Passage text s true [left.node] c) :
    Ensures (binaryStep g least left) place c
      fun o c' => Passage text s true [(o.getD left).node] c' := by
  refine peek_looks.step fun _ => ?_
  split
  · refine read_looks.step fun _ => ?_
    split
    · refine require_step fun _ => advance_moves.step h fun _ c h => ?_
      refine (hg.binary _).step h fun right c h => ?_
      exact (nodeFromFirst_reads h (by simp)).step fun _ c h => .pure h
    · exact .pure h
  · exact .pure h

theorem joinFrom_reads {first : Node} (hg : g.Reading text) (least : Nat)
    (h : Passage text s true [first] c) :
    Ensures (joinFrom g least first) place c fun n c' => Passage text s true [n] c' := by
  have hsteps : Ensures (iterate (binaryStep g least) ⟨first, 0⟩) place c
      fun o c' => Passage text s true [o.node] c' :=
    iterate_reads Joined.node (binaryStep_reads hg least) h
  exact hsteps.step fun _ c h => .pure h

theorem binaryRule_reads (hg : g.Reading text) (least : Nat) : Reads text (binaryRule g least) := by
  intro place s hs
  exact (firstOperand_reads hg least).step (.refl hs) fun _ c h => joinFrom_reads hg least h

/-! ### Assignments, conditionals and arrow functions -/

theorem assignmentFrom_reads {first : Node} (hg : g.Reading text)
    (h : Passage text s true [first] c) :
    Ensures (assignmentFrom g first) place c fun n c' => Passage text s true [n] c' := by
  refine (joinFrom_reads hg 1 h).step fun left c h => peek_looks.step fun _ => ?_
  split
  · exact assignTo_reads hg _ h
  · refine tryPunctuator_step h (fun c h => ?_) (.pure h)
    refine (hg.assignment.within _).step h fun yes c h => ?_
    refine (punctuator_takes _).step h fun _ c h => ?_
    exact hg.assignment.step h fun no c h => nodeFromFirst_reads h (by simp)

theorem assignmentWith_reads {value : Node} (hg : g.Reading text)
    (h : Passage text s true [value] c) :
    Ensures (assignmentWith g value) place c fun n c' => Passage text s true [n] c' :=
  (postfixOf_reads hg h).step fun _ _ h => assignmentFrom_reads hg h

theorem atPartEnd_looks : Looks atPartEnd := by
  intro place c
  refine peek_looks.step fun _ => ?_
  split
  · exact .pure rfl
  · exact .pure rfl

theorem literalFirst_reads (hg : g.Reading text) (lenient : Bool) :
    Reads text (literalFirst g lenient) := by
  intro place s hs
  refine (coverLiteral_reads hg).step (.refl hs) fun literal c h => ?_
  refine (atPunctuator_looks _).step fun _ => ?_
  split
  · split
    · next pattern hpattern => exact assignmentFrom_reads hg (h.asPattern hpattern)
    · exact .failure
  · refine atPartEnd_looks.step fun _ => ?_
    split
    · exact .pure h
    · exact require_step fun _ => assignmentWith_reads hg h

theorem arrowWith_reads {arrow : Node} (hg : g.Reading text) (h : Passage text s true [arrow] c) :
    Ensures (arrowWith g arrow) place c fun n c' => Passage text s true [n] c' := by
  refine (atContinuation_looks _).step fun _ => ?_
  split
  · exact assignmentWith_reads hg h
  · exact .pure h

/-- An arrow function whose parameters are the parts of a list that starts at a later cursor. -/
theorem groupArrow_reads {parts : List (Node × Bool)} {o : Cursor} (hg : g.Reading text)
    (hopen : Passage text s t [] o) (h : Passage text o true (parts.map Prod.fst) c) :
    Ensures (groupArrow g s.pos o.pos parts) place c fun n c' => Passage text s true [n] c' := by
  refine require_step fun _ => ?_
  split
  · next parameters hparameters =>
      refine (nodeFrom_reads (h.asPatterns hparameters) rfl).step fun list c hlist => ?_
      have hrole : Passage text s (t || true) [list.withRole .parameters] c :=
        (hopen.append hlist).congr (by simp)
      exact (arrowTail_reads hg hrole).step fun _ c h => arrowWith_reads hg h
  · exact .failure

theorem groupFirst_reads (hg : g.Reading text) : Reads text (groupFirst g) := by
  intro place s hs
  refine here_step ((groupParts_reads hg).step (.refl hs) fun parts c h => ?_)
  refine (atPunctuator_looks _).step fun _ => ?_
  split
  · exact groupArrow_reads hg (.refl hs) h
  · split
    · next inner hinner =>
        refine (nodeFrom_reads (h.groupValue hinner) rfl).step fun _ c h => ?_
        exact assignmentWith_reads hg h
    · exact .failure

theorem asyncGroupFirst_reads (hg : g.Reading text) : Reads text (asyncGroupFirst g) := by
  intro place s hs
  refine here_step (newlineBehindNext_looks.step fun _ => ?_)
  refine identifier_reads.step (.refl hs) fun callee o hcallee => here_step ?_
  refine (groupParts_reads hg).step (.refl hcallee.mem) fun parts c h => ?_
  refine (atPunctuator_looks _).step fun _ => ?_
  split
  · exact groupArrow_reads hg hcallee.discard h
  · exact (groupCall_reads hcallee h).step fun _ c h => assignmentWith_reads hg h

theorem wordFirst_reads (hg : g.Reading text) (w : String) : Reads text (wordFirst g w) := by
  intro place s hs
  have h := Passage.refl hs
  refine here_step (peekSecond_looks.step fun _ => ?_)
  split
  · exact (nameArrow_reads hg h).step fun _ c h => arrowWith_reads hg h
  · split
    · exact asyncGroupFirst_reads hg place s hs
    · refine newlineBehindNext_looks.step fun _ => ?_
      split
      · refine advance_moves.step h fun _ c h => ?_
        exact (nameArrow_reads hg h).step fun _ c h => arrowWith_reads hg h
      · split
        · exact (yieldExpression_reads hg true).step h fun _ c h => assignmentFrom_reads hg h
        · exact (unaryRule_reads hg).step h fun _ c h => assignmentFrom_reads hg h

theorem assignmentRule_reads (hg : g.Reading text) (lenient : Bool) :
    Reads text (assignmentRule g lenient) := by
  intro place s hs
  refine peek_looks.step fun _ => ?_
  split
  · exact wordFirst_reads hg _ place s hs
  · exact groupFirst_reads hg place s hs
  · exact literalFirst_reads hg lenient place s hs
  · exact literalFirst_reads hg lenient place s hs
  · exact (firstOperand_reads hg 1).step (.refl hs) fun _ c h => assignmentFrom_reads hg h

theorem expressionRule_reads (hg : g.Reading text) : Reads text (expressionRule g) := by
  intro place s hs
  refine here_step (hg.assignment.step (.refl hs) fun first c h => ?_)
  refine (atPunctuator_looks _).step fun _ => ?_
  split
  · have hdone : Looks (do return !(← atPunctuator ",")) := fun place c =>
      (atPunctuator_looks _).step fun _ => .pure rfl
    have hround : Reads text (do punctuator ","; g.assignment) := fun place c hc =>
      (punctuator_takes _).step (.refl hc) fun _ c h => hg.assignment.last h
    refine (repeatUntil_reads_nodes hdone hround).step h fun more c h => ?_
    exact nodeFrom_reads h (by simp)
  · exact .pure h

end ReactiveTemplate.Script

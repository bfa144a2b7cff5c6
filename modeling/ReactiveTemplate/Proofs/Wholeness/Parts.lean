/-
**The rules for parts of statements give whole nodes.**

Each rule for literals, patterns, functions, classes and values is followed once, for any grammar
whose rules for nested parts give whole nodes.

Main results:

* `ReactiveTemplate.Script.patternRule_whole`, `ReactiveTemplate.Script.functionNode_whole`,
  `ReactiveTemplate.Script.accessRule_whole` — patterns, functions, and values with their accesses.
-/

import ReactiveTemplate.Proofs.Wholeness.Contracts
import ReactiveTemplate.Script.Values

set_option relaxedAutoImplicit false
set_option autoImplicit false

namespace ReactiveTemplate.Script

open Node

/-! ### Literals -/

variable {g : Grammar}

theorem rawLeaf_whole {kind : Kind} {n : Nat} (hkind : kind.isPlain = true) :
    Yields Whole (rawLeaf kind n) :=
  .skip fun _ => .skip fun _ => .skip fun _ => plainNode_whole hkind trivial

theorem rawLeaf_only {p : Kind → Bool} {kind : Kind} {n : Nat} (hkind : p kind = true) :
    Yields (Only p) (rawLeaf kind n) :=
  .skip fun _ => .skip fun _ => .skip fun _ => nodeFrom_only hkind (by simp)

theorem escapeSequence_whole : Yields Whole escapeSequence := by
  refine .skip fun c => ?_
  split
  · exact rawLeaf_whole rfl
  · exact .failure

theorem stringLiteral_whole : Yields Whole stringLiteral := by
  refine .skip fun token => ?_
  split
  · refine .skip fun _ => .skip fun _ => (repeatUntil_whole ?_).bind fun pieces hpieces => ?_
    · refine .skip fun b => .ite ?_ ?_
      · exact escapeSequence_whole
      · exact .skip fun _ => rawLeaf_whole rfl
    · exact .skip fun _ => plainNode_whole rfl hpieces
  · exact .failure

/-- Nothing in a string is read or declared. -/
theorem stringLiteral_inert : Yields (Only Kind.isInert) stringLiteral := by
  refine .skip fun token => ?_
  split
  · refine .skip fun _ => .skip fun _ => ?_
    refine (repeatUntil_yields (P := Only Kind.isInert) ?_).bind fun pieces hpieces => ?_
    · refine .skip fun b => .ite (.skip fun c => ?_) ?_
      · split
        · exact rawLeaf_only rfl
        · exact .failure
      · exact .skip fun _ => rawLeaf_only rfl
    · exact .skip fun _ => nodeFrom_only rfl hpieces
  · exact .failure

theorem stringLiteral_quiet : Yields Quiet stringLiteral := by
  refine stringLiteral_whole.and (stringLiteral_inert.mono fun _ h => h.mono fun k hk => ?_)
  exact (Bool.and_eq_true_iff.1 hk).1

theorem templateSubstitution_whole (hg : g.Whole) : Yields Whole (templateSubstitution g) := by
  refine .skip fun _ => .skip fun _ => (hg.expression.within _).bind fun inner hinner => ?_
  exact .skip fun _ => .skip fun _ => .skip fun _ => plainNode_whole rfl ⟨hinner, trivial⟩

theorem templateLiteral_whole (hg : g.Whole) : Yields Whole (templateLiteral g) := by
  refine .skip fun _ => .skip fun _ => .skip fun _ => .skip fun _ => ?_
  refine (repeatUntil_whole ?_).bind fun pieces hpieces => .skip fun _ => plainNode_whole rfl hpieces
  refine .skip fun c => ?_
  dsimp only
  split
  · exact rawLeaf_whole rfl
  · refine .skip fun b => .ite ?_ ?_
    · exact escapeSequence_whole
    · exact .skip fun _ => .skip fun _ => templateSubstitution_whole hg

theorem regexLiteral_whole : Yields Whole regexLiteral := by
  refine .skip fun _ => .skip fun _ => .skip fun _ => .skip fun _ => .skip fun _ => .skip fun _ => ?_
  refine .skip fun c => ?_
  split
  · refine .bind (rawLeaf_whole rfl) fun pattern hpattern => .skip fun _ => .skip fun c => ?_
    dsimp only
    split
    · exact .skip fun _ => plainNode_whole rfl ⟨hpattern, trivial⟩
    · refine .bind (rawLeaf_whole rfl) fun flags hflags => ?_
      exact .skip fun _ => plainNode_whole rfl ⟨hpattern, hflags, trivial⟩
  · exact .failure

/-! ### Patterns -/

theorem propertyName_whole (hg : g.Whole) : Yields Whole (propertyName g) := by
  refine .skip fun token => ?_
  split
  · exact leaf_whole rfl
  · exact leaf_whole rfl
  · exact stringLiteral_whole
  · refine .skip fun _ => .skip fun _ => (hg.assignment.within _).bind fun inner hinner => ?_
    exact .skip fun _ => plainNode_whole rfl ⟨hinner, trivial⟩
  · exact .failure

theorem propertyName_namesProperty : Yields NamesProperty (propertyName g) := by
  refine .skip fun token => ?_
  split
  · exact (leaf_only rfl).mono fun _ => Or.inr
  · exact (leaf_only rfl).mono fun _ => Or.inr
  · exact stringLiteral_inert.mono fun _ => Or.inr
  · exact .skip fun _ => .skip fun _ => .skip fun _ => .skip fun _ => .skip fun _ => .pure (.inl rfl)
  · exact .failure

theorem patternWithDefault_whole (hg : g.Whole) : Yields Whole (patternWithDefault g) := by
  refine .skip fun _ => hg.pattern.bind fun left hleft => .skip fun b => .ite ?_ ?_
  · exact hg.assignment.bind fun right hright => plainNode_whole rfl (by simp [hleft, hright])
  · exact .pure hleft

theorem restPattern_whole (hg : g.Whole) : Yields Whole (restPattern g) :=
  .skip fun _ => .skip fun _ => hg.pattern.bind fun _ hinner => plainNode_whole rfl ⟨hinner, trivial⟩

theorem patternElement_whole (hg : g.Whole) : Yields Whole (patternElement g) := by
  refine .skip fun b => .ite ?_ ?_
  · exact restPattern_whole hg
  · exact patternWithDefault_whole hg

theorem defaultedShorthand_whole {name : Node} {start : Nat} (hg : g.Whole) (hname : name.Whole) :
    Yields Whole (defaultedShorthand g start name) :=
  .skip fun _ => hg.assignment.bind fun _ hright => plainNode_whole rfl (by simp [hname, hright])

theorem shorthandPattern_whole (hg : g.Whole) : Yields Whole (shorthandPattern g) := by
  refine .skip fun _ => .bind (nameLeaf_whole rfl) fun name hname => .skip fun b => .ite ?_ ?_
  · exact defaultedShorthand_whole hg hname
  · exact .pure hname

theorem lastIfRest_whole {p : Parser Node} (hp : Yields Whole p) (close : String) :
    Yields Whole (lastIfRest close p) := by
  refine hp.bind fun part hpart => ?_
  dsimp only
  split
  · exact .skip fun _ => .skip fun _ => .pure hpart
  · exact .pure hpart

theorem propertyPattern_whole (hg : g.Whole) : Yields Whole (propertyPattern g) := by
  refine .skip fun b => .ite ?_ ?_
  · exact restPattern_whole hg
  · refine .orElse (.skip fun _ => ?_) (shorthandPattern_whole hg)
    refine (propertyName_whole hg).bind fun key hkey => .skip fun _ => ?_
    exact (patternWithDefault_whole hg).bind fun value hvalue => plainNode_whole rfl (by simp [hkey, hvalue])

theorem patternRule_whole (hg : g.Whole) : Yields Whole (patternRule g) := by
  refine .skip fun _ => .skip fun token => ?_
  split
  · refine .skip fun _ => ?_
    exact ((separatedWithHoles_whole (lastIfRest_whole (patternElement_whole hg) _)).within _).bind
      fun _ hitems => plainNode_whole rfl hitems
  · refine .skip fun _ => ?_
    exact ((separated_whole (lastIfRest_whole (propertyPattern_whole hg) _)).within _).bind
      fun _ hitems => plainNode_whole rfl hitems
  · exact leaf_whole rfl
  · exact identifier_whole

theorem binding_whole (hg : g.Whole) : Yields Whole (binding g) := by
  refine .skip fun b => .ite ?_ ?_
  · exact hg.pattern
  · exact identifier_whole

theorem initialValue_whole (hg : g.Whole) : Yields AllWhole (initialValue g) := by
  refine .skip fun b => .ite ?_ ?_
  · exact hg.assignment.bind fun _ hvalue => .pure (by simpa using hvalue)
  · exact .pure trivial

theorem formalParameters_whole (hg : g.Whole) : Yields Whole (formalParameters g) :=
  .skip fun _ => .skip fun _ =>
    ((separated_whole (lastIfRest_whole (patternElement_whole hg) _)).within _).bind
      fun _ hitems => plainNode_whole rfl hitems

theorem noParameters_whole : Yields Whole noParameters :=
  .skip fun _ => .skip fun _ => .skip fun _ => plainNode_whole rfl trivial

theorem oneParameter_whole (hg : g.Whole) : Yields Whole (oneParameter g) :=
  .skip fun _ => .skip fun _ => ((patternWithDefault_whole hg).within _).bind fun _ honly =>
    .skip fun _ => plainNode_whole rfl ⟨honly, trivial⟩

/-! ### Functions and classes -/

theorem statementBlock_whole (hg : g.Whole) : Yields Whole (statementBlock g) :=
  .skip fun _ => .skip fun _ => (repeatUntil_whole hg.statement).bind fun _ hstatements =>
    .skip fun _ => plainNode_whole rfl hstatements

/-- Whole parameters and a whole body. -/
def ParametersAndBody (cs : List Node) : Prop :=
  AllWhole cs ∧ cs.map role = [.parameters, .body]

theorem bodyAfter_whole {parameters : Parser Node} (hg : g.Whole) (hparameters : Yields Whole parameters) :
    Yields ParametersAndBody (bodyAfter g parameters) :=
  hparameters.bind fun _ hlist => (statementBlock_whole hg).bind fun _ hbody =>
    .pure ⟨by simp [hlist, hbody], by simp⟩

theorem signatureAndBody_whole (hg : g.Whole) : Yields ParametersAndBody (signatureAndBody g) :=
  bodyAfter_whole hg (formalParameters_whole hg)

/-- A function is whole when its parts are, are told apart by their roles and may be parts of it. -/
theorem functionFrom_whole {kind : Kind} {start : Nat} {cs : List Node} (hkind : kind.isFunction = true)
    (hroles : (cs.map role).Nodup) (hparts : ∀ c ∈ cs, kind.FunctionPart c) (hcs : AllWhole cs) :
    Yields Whole (nodeFrom kind start cs) := by
  refine nodeFrom_whole ?_ ⟨fun _ => ⟨hroles, hparts⟩, ?_⟩ hcs
  · cases kind <;> first | exact List.nil_subset _ | cases hkind
  · rintro rfl
    cases hkind

theorem functionPart_of_role {kind : Kind} {c : Node} (h : c.role ∈ [Role.parameters, .body]) :
    kind.FunctionPart c := by
  simp only [List.mem_cons, List.not_mem_nil, or_false] at h
  exact h.elim .inl fun h => .inr (.inl h)

/-- A function from its name on. -/
theorem namedFunction_whole {kind : Kind} {start : Nat} {name : Node} {parts : List Node}
    (hkind : kind.isFunction = true) (hname : name.Whole) (hpart : kind.FunctionPart (name.withRole .name))
    (hparts : ParametersAndBody parts) :
    Yields Whole (nodeFrom kind start (name.withRole .name :: parts)) := by
  refine functionFrom_whole hkind (by simp [hparts.2]) (List.forall_mem_cons.2 ⟨hpart, fun c hc => ?_⟩)
    (by simp [hname, hparts.1])
  exact functionPart_of_role (hparts.2 ▸ List.mem_map_of_mem hc)

theorem functionTail_whole (hg : g.Whole) (declared : Bool) {kind : Kind} {start : Nat}
    (hkind : kind.isFunctionDeclaration = true ∨ kind.isFunctionExpression = true) :
    Yields Whole (functionTail g declared kind start) := by
  have hfunction : kind.isFunction = true := by
    rcases hkind with h | h <;> cases kind <;> first | rfl | cases h
  refine .skip fun b => .ite ?_ ?_
  · refine (signatureAndBody_whole hg).bind fun parts hparts => ?_
    refine functionFrom_whole hfunction (by simp [hparts.2]) (fun c hc => ?_) hparts.1
    exact functionPart_of_role (hparts.2 ▸ List.mem_map_of_mem hc)
  · refine (identifier_whole.and identifier_isName).bind fun name hname => ?_
    refine (signatureAndBody_whole hg).bind fun _ hparts => namedFunction_whole hfunction hname.1 ?_ hparts
    refine .inr (.inr (.inr ⟨by simp, ?_⟩))
    rw [if_neg (by rintro rfl; simp [Kind.isFunctionDeclaration, Kind.isFunctionExpression] at hkind)]
    refine ⟨by simpa [IsName] using hname.2, ?_⟩
    rintro rfl
    simp [Kind.isFunctionDeclaration, Kind.isFunctionExpression] at hkind

theorem functionNode_whole (hg : g.Whole) (declared : Bool) : Yields Whole (functionNode g declared) := by
  refine .skip fun _ => .skip fun b => .optional fun _ => .skip fun _ => .skip fun generator => ?_
  refine functionTail_whole hg declared ?_
  cases declared <;> cases generator <;> simp [Kind.isFunctionDeclaration, Kind.isFunctionExpression]

theorem arrowTail_whole {parameters : Node} {start : Nat} (hg : g.Whole) (hparameters : parameters.Whole)
    (hrole : parameters.role = .parameters ∨ parameters.role = .parameter ∧ parameters.IsName) :
    Yields Whole (arrowTail g start parameters) := by
  have harrow {body : Node} (hbody : body.Whole) :
      Yields Whole (nodeFrom .arrowFunction start [parameters, body.withRole .body]) := by
    refine functionFrom_whole rfl ?_ (List.forall_mem_cons.2 ⟨?_, ?_⟩) (by simp [hparameters, hbody])
    · rcases hrole with h | h <;> simp [h]
    · exact hrole.elim .inl fun h => .inr (.inr (.inl h))
    · exact List.forall_mem_singleton.2 (functionPart_of_role (by simp))
  refine .skip fun _ => .skip fun _ => .skip fun _ => .skip fun b => ?_
  dsimp only
  refine .ite ?_ ?_
  · exact (statementBlock_whole hg).bind fun _ hbody => harrow hbody
  · exact hg.assignment.bind fun _ hbody => harrow hbody

theorem nameArrow_whole {start : Nat} (hg : g.Whole) : Yields Whole (nameArrow g start) :=
  (identifier_whole.and identifier_isName).bind fun _ hname => arrowTail_whole hg (by simpa using hname.1)
    (.inr ⟨by simp, by simpa [IsName] using hname.2⟩)

theorem memberName_whole (hg : g.Whole) : Yields Whole (memberName g) := by
  refine .skip fun token => ?_
  split
  · exact leaf_whole rfl
  · exact propertyName_whole hg

theorem memberName_namesProperty : Yields NamesProperty (memberName g) := by
  refine .skip fun token => ?_
  split
  · exact (leaf_only rfl).mono fun _ => Or.inr
  · exact propertyName_namesProperty

theorem methodFrom_whole {name : Node} {start : Nat} (hg : g.Whole) (modifier : Modifier)
    (hname : name.Whole) (hnames : name.NamesProperty) : Yields Whole (methodFrom g modifier start name) := by
  refine (bodyAfter_whole hg ?_).bind fun _ hparts => namedFunction_whole rfl hname ?_ hparts
  case refine_2 => exact .inr (.inr (.inr ⟨by simp, by simpa [NamesProperty] using hnames⟩))
  split
  · exact noParameters_whole
  · exact oneParameter_whole hg
  · exact formalParameters_whole hg

theorem fieldFrom_whole {name : Node} {start : Nat} (hg : g.Whole) (hname : name.Whole) :
    Yields Whole (fieldFrom g start name) :=
  (initialValue_whole hg).bind fun _ hvalue =>
    .bind (plainNode_whole rfl (by simp [hname, hvalue])) fun _ hfield => .skip fun _ => .pure hfield

theorem classMemberTail_whole {start : Nat} (hg : g.Whole) : Yields Whole (classMemberTail g start) := by
  refine .skip fun modifier => ?_
  refine ((memberName_whole hg).and memberName_namesProperty).bind fun name hname => .skip fun b => .ite ?_ ?_
  · exact methodFrom_whole hg modifier hname.1 hname.2
  · exact fieldFrom_whole hg hname.1

theorem classMember_whole (hg : g.Whole) : Yields Whole (classMember g) := by
  refine .skip fun _ => .skip fun _ => .skip fun _ => .ite ?_ ?_
  · refine .skip fun _ => (statementBlock_whole hg).bind fun _ hbody => ?_
    exact plainNode_whole rfl (by simpa using hbody)
  · exact .skip fun b => .optional fun _ => classMemberTail_whole hg

theorem classBody_whole (hg : g.Whole) : Yields Whole (classBody g) := by
  have hround : Yields AllWhole (do
      if ← tryPunctuator ";" then
        return []
      else
        return [← within .statement (classMember g)]) := by
    refine .skip fun b => .ite ?_ ?_
    · exact .pure trivial
    · exact ((classMember_whole hg).within _).bind fun _ hmember => .pure ⟨hmember, trivial⟩
  refine .skip fun _ => .skip fun _ => (repeatUntil_yields hround).bind fun members hmembers => ?_
  refine .skip fun _ => plainNode_whole rfl (allWhole_iff.2 fun n hn => ?_)
  obtain ⟨ns, hns, hn⟩ := List.mem_flatten.1 hn
  exact allWhole_iff.1 (hmembers ns hns) n hn

theorem classHeritage_whole (hg : g.Whole) : Yields AllWhole (classHeritage g) := by
  refine .skip fun _ => .skip fun b => .ite ?_ ?_
  · refine hg.access.bind fun parent hparent => ?_
    exact .bind (plainNode_whole rfl ⟨hparent, trivial⟩) fun _ hnode => .pure ⟨hnode, trivial⟩
  · exact .pure trivial

theorem className_whole (declared : Bool) : Yields AllWhole (className declared) := by
  refine .skip fun _ => .skip fun _ => .ite ?_ ?_
  · exact .skip fun _ => .pure trivial
  · exact identifier_whole.bind fun _ hname => .pure (by simpa using hname)

theorem classNode_whole (hg : g.Whole) (declared : Bool) : Yields Whole (classNode g declared) := by
  refine .skip fun _ => .skip fun _ => (className_whole declared).bind fun name hname => ?_
  refine (classHeritage_whole hg).bind fun heritage hheritage => ?_
  refine (classBody_whole hg).bind fun body hbody => ?_
  exact plainNode_whole (by cases declared <;> rfl) (by simp [hname, hheritage, hbody])

/-! ### Values -/

theorem spreadOr_whole {p : Parser Node} (hp : Yields Whole p) : Yields Whole (spreadOr p) := by
  refine .skip fun _ => .skip fun b => .ite ?_ ?_
  · exact hp.bind fun _ hinner => plainNode_whole rfl ⟨hinner, trivial⟩
  · exact hp

theorem shorthandMember_whole (hg : g.Whole) : Yields Whole (shorthandMember g) := by
  refine .skip fun _ => .bind (nameLeaf_whole rfl) fun name hname => .skip fun b => .ite ?_ ?_
  · -- the name takes on another kind, which requires no children either
    refine defaultedShorthand_whole hg ?_
    cases name
    exact ⟨⟨List.nil_subset _, Kind.fits_of_isFree rfl _⟩, hname.2⟩
  · exact .pure hname

theorem objectMember_whole (hg : g.Whole) : Yields Whole (objectMember g) := by
  refine .skip fun _ => .skip fun b => .ite ?_ ?_
  · exact spreadOr_whole hg.cover
  · refine .skip fun b => .ite ?_ ?_
    · exact shorthandMember_whole hg
    · refine .skip fun modifier => ?_
      refine ((propertyName_whole hg).and propertyName_namesProperty).bind fun key hkey => ?_
      refine .skip fun b => .ite ?_ ?_
      · exact hg.cover.bind fun _ hvalue => plainNode_whole rfl (by simp [hkey.1, hvalue])
      · exact methodFrom_whole hg modifier hkey.1 hkey.2

theorem coverLiteral_whole (hg : g.Whole) : Yields Whole (coverLiteral g) := by
  refine .skip fun _ => .skip fun b => .ite ?_ ?_
  · exact ((separatedWithHoles_whole (spreadOr_whole hg.cover)).within _).bind
      fun _ hitems => plainNode_whole rfl hitems
  · refine .skip fun _ => ?_
    exact ((separated_whole (objectMember_whole hg)).within _).bind fun _ hitems => plainNode_whole rfl hitems

theorem literalValue_whole (hg : g.Whole) : Yields Whole (literalValue g) :=
  (coverLiteral_whole hg).bind fun _ hn => .skip fun _ => .pure hn

theorem parenthesized_whole (hg : g.Whole) : Yields Whole (parenthesized g) :=
  .skip fun _ => .skip fun _ => (hg.expression.within _).bind fun _ hinner =>
    .skip fun _ => plainNode_whole rfl ⟨hinner, trivial⟩

theorem callArguments_whole (hg : g.Whole) : Yields Whole (callArguments g) :=
  .skip fun _ => .skip fun _ => ((separated_whole (spreadOr_whole hg.assignment)).within _).bind
    fun _ hitems => .bind (plainNode_whole rfl hitems) fun _ hn => .pure (by simpa using hn)

theorem importArguments_whole (hg : g.Whole) : Yields Whole (importArguments g) :=
  .skip fun _ => .skip fun _ => ((separated_whole hg.assignment).within _).bind fun _ hitems =>
    .skip fun _ => .bind (plainNode_whole rfl hitems) fun _ hn => .pure (by simpa using hn)

theorem metaProperty_whole (first second : String) : Yields Whole (metaProperty first second) :=
  .skip fun _ => .skip fun _ => .skip fun _ => .skip fun _ => plainNode_whole rfl trivial

theorem importCallee_whole : Yields Whole importCallee :=
  .skip fun _ => .skip fun _ => leaf_whole rfl

theorem superValue_whole : Yields Whole superValue := by
  refine .skip fun token => ?_
  split
  · exact leaf_whole rfl
  · exact leaf_whole rfl
  · exact leaf_whole rfl
  · exact .failure

theorem wordValue_whole (hg : g.Whole) (w : String) : Yields Whole (wordValue g w) := by
  unfold wordValue
  split
  · exact leaf_whole rfl
  · exact superValue_whole
  · exact leaf_whole rfl
  · exact leaf_whole rfl
  · exact leaf_whole rfl
  · exact leaf_whole rfl
  · exact functionNode_whole hg false
  · exact classNode_whole hg false
  · exact (metaProperty_whole _ _).orElse importCallee_whole
  · refine .skip fun b => .ite ?_ ?_
    · exact functionNode_whole hg false
    · exact identifier_whole
  · exact identifier_whole

theorem punctuatorValue_whole (hg : g.Whole) (p : String) : Yields Whole (punctuatorValue g p) := by
  unfold punctuatorValue
  split
  · exact parenthesized_whole hg
  · exact literalValue_whole hg
  · exact literalValue_whole hg
  · exact regexLiteral_whole
  · exact regexLiteral_whole
  · exact .failure

theorem primary_whole (hg : g.Whole) : Yields Whole (primary g) := by
  refine .skip fun token => ?_
  cases token with
  | word w => exact wordValue_whole hg w
  | punctuator p => exact punctuatorValue_whole hg p
  | number => exact leaf_whole rfl
  | quote mark => exact stringLiteral_whole
  | backtick => exact templateLiteral_whole hg
  | _ => exact .failure

/-! ### Accesses and calls -/

theorem accessedProperty_whole : Yields Whole accessedProperty := by
  refine .skip fun token => ?_
  split
  · exact .bind (leaf_whole rfl) fun _ hn => .pure (by simpa using hn)
  · exact .bind (leaf_whole rfl) fun _ hn => .pure (by simpa using hn)
  · exact .failure

theorem accessIndex_whole (hg : g.Whole) : Yields Whole (accessIndex g) :=
  .skip fun _ => (hg.expression.within _).bind fun _ hindex => .skip fun _ => .pure (by simpa using hindex)

theorem optionalAccess_whole {object : Node} (hg : g.Whole) (hobject : object.Whole) :
    Yields Whole (optionalAccess g object) := by
  refine .bind (leaf_whole rfl) fun chain hchain => ?_
  dsimp only
  refine .skip fun b => .ite ?_ ?_
  · refine (callArguments_whole hg).bind fun _ harguments => ?_
    exact freeNode_whole rfl (by simp [Kind.requires]) (by simp [hobject, hchain, harguments])
  · refine .skip fun b => .ite ?_ ?_
    · refine (accessIndex_whole hg).bind fun _ hindex => ?_
      exact freeNode_whole rfl (by simp [Kind.requires]) (by simp [hobject, hchain, hindex])
    · refine accessedProperty_whole.bind fun _ hproperty => ?_
      exact freeNode_whole rfl (by simp [Kind.requires]) (by simp [hobject, hchain, hproperty])

/-- One more access or call: its object or callee is the one before. -/
theorem accessStep_whole {object : Node} (hg : g.Whole) (calls : Bool) (hobject : object.Whole) :
    Yields (fun o => (o.getD object).Whole) (accessStep g calls object) := by
  have hnode {kind : Kind} {cs : List Node} (hkind : kind.isFree = true) (hroles : kind.requires ⊆ cs.map role)
      (hcs : AllWhole cs) :
      Yields (fun o => (o.getD object).Whole) (do return some (← nodeFrom kind object.start cs)) :=
    (freeNode_whole hkind hroles hcs).bind fun _ hn => .pure hn
  refine .skip fun token => ?_
  dsimp only
  split
  · refine .skip fun _ => accessedProperty_whole.bind fun _ hproperty => ?_
    exact hnode rfl (by simp [Kind.requires]) (by simp [hobject, hproperty])
  · refine (accessIndex_whole hg).bind fun _ hindex => ?_
    exact hnode rfl (by simp [Kind.requires]) (by simp [hobject, hindex])
  · refine (templateLiteral_whole hg).bind fun _ htemplate => ?_
    exact hnode rfl (by simp [Kind.requires]) (by simp [hobject, htemplate])
  · exact .skip fun _ => (optionalAccess_whole hg hobject).bind fun _ hn => .pure hn
  · split
    · split
      · refine (importArguments_whole hg).bind fun _ harguments => ?_
        exact hnode rfl (by simp [Kind.requires]) (by simp [hobject, harguments])
      · refine (callArguments_whole hg).bind fun _ harguments => ?_
        exact hnode rfl (by simp [Kind.requires]) (by simp [hobject, harguments])
    · exact .pure hobject
  · exact .pure hobject

theorem iterate_accessStep_whole {value : Node} (hg : g.Whole) (calls : Bool) (hvalue : value.Whole) :
    Yields Whole (iterate (accessStep g calls) value) :=
  iterate_yields (fun _ hx => accessStep_whole hg calls hx) hvalue

theorem newExpression_whole (hg : g.Whole) : Yields Whole (newExpression g) := by
  refine .skip fun _ => .skip fun _ => hg.callee.bind fun callee hcallee => .skip fun _ => .skip fun b => .ite ?_ ?_
  · exact (callArguments_whole hg).bind fun _ harguments => plainNode_whole rfl (by simp [hcallee, harguments])
  · exact plainNode_whole rfl (by simpa using hcallee)

theorem newOrPrimary_whole (hg : g.Whole) : Yields Whole (newOrPrimary g) := by
  refine .skip fun b => .ite ?_ ?_
  · exact (metaProperty_whole _ _).orElse (newExpression_whole hg)
  · exact primary_whole hg

theorem accessRule_whole (hg : g.Whole) : Yields Whole (accessRule g) :=
  (newOrPrimary_whole hg).bind fun _ hvalue => iterate_accessStep_whole hg true hvalue

theorem calleeRule_whole (hg : g.Whole) : Yields Whole (calleeRule g) :=
  (newOrPrimary_whole hg).bind fun _ hvalue => iterate_accessStep_whole hg false hvalue

end ReactiveTemplate.Script

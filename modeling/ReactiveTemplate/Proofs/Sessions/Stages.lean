/-
**Generation fails only on a circle.**

Generation looks names up in the bindings, cuts statements and handlers out of their text and asks for
the order of the declarations.  Each stage succeeds when what it looks up is there: the names that
markup waits for may change and are bound for that reason, the parts of the script that are cut out
lie properly in it, and the names that declarations write may change.  What is left is the order, which
does not exist exactly when declarations depend on each other in a circle.

Main definitions:

* `ReactiveTemplate.Fragment.expressionsAll` — the expressions in markup;
* `ReactiveTemplate.WaitFor` — update blocks that wait for names among given ones.

Main results:

* `ReactiveTemplate.exists_markupCode` — markup whose expressions lie properly has its code;
* `ReactiveTemplate.exists_assemble` — the component of a document is assembled;
* `ReactiveTemplate.Circle.exists_cycleName` — every declaration of a circle has a name;
* `ReactiveTemplate.generate_cases` — a component is generated, or there is a circle.
-/

import ReactiveTemplate.Proofs.ChangeSets
import ReactiveTemplate.Proofs.Notification.Changes

set_option relaxedAutoImplicit false
set_option autoImplicit false

namespace ReactiveTemplate

open Script

/-! ### The expressions in markup -/

/-- The expression that is the value of an attribute, if it is one. -/
def Attribute.expressions (a : Attribute) : List Embedded :=
  match a.value with
  | .quoted _ => []
  | .expression e => [e]

mutual

/-- The expressions in a fragment, in source order. -/
def Fragment.expressions : Fragment → List Embedded
  | .element _ attributes children _ =>
    attributes.flatMap Attribute.expressions ++ Fragment.expressionsAll children
  | .text _ _ => []
  | .expression e _ => [e]

/-- The expressions in markup, in source order. -/
def Fragment.expressionsAll : List Fragment → List Embedded
  | [] => []
  | f :: fs => Fragment.expressions f ++ Fragment.expressionsAll fs

end

/-! ### The code of markup -/

/-- Blocks that wait for names among the given ones. -/
def WaitFor (names : Names) (bs : List UpdateBlock) : Prop :=
  ∀ b ∈ bs, ∀ name ∈ b.names, name ∈ names

namespace WaitFor

variable {names : Names} {bs bs' : List UpdateBlock}

theorem nil (names : Names) : WaitFor names [] := by
  intro b hb
  cases hb

theorem append (h : WaitFor names bs) (h' : WaitFor names bs') : WaitFor names (bs ++ bs') :=
  fun b hb => (List.mem_append.1 hb).elim (h b) (h' b)

end WaitFor

variable {c : MarkupContext} {e : Embedded}

/-- What is updated waits for names that may change. -/
theorem waitFor_changing (c : MarkupContext) (e : Embedded) (statement : DomStatement) :
    WaitFor c.analysis.willChange (updateBlocks (c.changing e) statement) := by
  intro b hb name hname
  unfold updateBlocks at hb
  split at hb
  · cases hb
  · rw [List.mem_singleton.1 hb] at hname
    exact of_decide_eq_true (List.mem_filter.1 hname).2

theorem exists_handlerText (c : MarkupContext) (h : e.node.Placed e.text) :
    ∃ text, handlerText c e = .ok text := by
  cases hr : c.analysis.handlerScopes? e.offset with
  | none => exact ⟨e.source, by rw [handlerText, hr]⟩
  | some r => exact ⟨_, handlerText_eq_rewritten hr h⟩

theorem exists_eventCode (c : MarkupContext) (holder event : String) (names : NameCounter)
    (h : e.node.Placed e.text) :
    ∃ code names', eventCode c holder event e names = .ok (code, names') ∧ code.update = [] := by
  obtain ⟨text, htext⟩ := exists_handlerText c h
  unfold eventCode
  split
  · exact ⟨_, _, rfl, rfl⟩
  · rw [htext]
    exact ⟨_, _, rfl, rfl⟩

theorem exists_attributeCode {a : Attribute} (c : MarkupContext) (holder : String) (names : NameCounter)
    (h : ∀ e ∈ a.expressions, e.node.Placed e.text) :
    ∃ code names', attributeCode c holder a names = .ok (code, names') ∧
      WaitFor c.analysis.willChange code.update := by
  unfold attributeCode
  unfold Attribute.expressions at h
  split
  · exact ⟨_, _, rfl, .nil _⟩
  · next e he =>
      rw [he] at h
      split
      · obtain ⟨code, names', hcode, hupdate⟩ := exists_eventCode c holder
          (eventOf c.options a.name) names (h e (List.mem_singleton_self e))
        exact ⟨code, names', hcode, hupdate ▸ .nil _⟩
      · exact ⟨_, _, rfl, waitFor_changing c e _⟩

theorem exists_attributesCode (c : MarkupContext) (holder : String) :
    ∀ (as : List Attribute) (names : NameCounter),
      (∀ e ∈ as.flatMap Attribute.expressions, e.node.Placed e.text) →
      ∃ code names', attributesCode c holder as names = .ok (code, names') ∧
        WaitFor c.analysis.willChange code.update
  | [], names, _ => ⟨.empty, names, rfl, .nil _⟩
  | a :: as, names, h => by
      rw [List.flatMap_cons, List.forall_mem_append] at h
      obtain ⟨code, names, hcode, hwait⟩ := exists_attributeCode c holder names h.1
      obtain ⟨rest, names, hrest, hwait'⟩ := exists_attributesCode c holder as names h.2
      refine ⟨code ++ rest, names, ?_, hwait.append hwait'⟩
      rw [attributesCode, hcode]
      simp only [bind, Except.bind, hrest]
      rfl

mutual

theorem exists_fragmentCode (c : MarkupContext) (parent : Receiver) :
    ∀ (f : Fragment) (names : NameCounter), (∀ e ∈ f.expressions, e.node.Placed e.text) →
      ∃ code names', fragmentCode c parent f names = .ok (code, names') ∧
        WaitFor c.analysis.willChange code.update
  | .element tag attributes children start, names, h => by
      rw [Fragment.expressions, List.forall_mem_append] at h
      obtain ⟨own, names₁, hown, hwait⟩ := exists_attributesCode c
        (names.fresh (identifierOf tag)).1 attributes (names.fresh (identifierOf tag)).2 h.1
      obtain ⟨inner, names₂, hinner, hwait'⟩ := exists_fragmentsCode c
        (.element (names.fresh (identifierOf tag)).1) children names₁ h.2
      refine ⟨elementCode parent (names.fresh (identifierOf tag)).1 tag (own ++ inner), names₂, ?_, ?_⟩
      · rw [fragmentCode]
        simp only [bind, Except.bind, hown, hinner]
        rfl
      · exact ((WaitFor.nil _).append (hwait.append hwait')).append (.nil _)
  | .text value start, names, _ => ⟨_, _, by rw [fragmentCode], .nil _⟩
  | .expression e start, names, _ => ⟨_, _, by rw [fragmentCode], waitFor_changing c e _⟩

theorem exists_fragmentsCode (c : MarkupContext) (parent : Receiver) :
    ∀ (fs : List Fragment) (names : NameCounter),
      (∀ e ∈ Fragment.expressionsAll fs, e.node.Placed e.text) →
      ∃ code names', fragmentsCode c parent fs names = .ok (code, names') ∧
        WaitFor c.analysis.willChange code.update
  | [], names, _ => ⟨.empty, names, by rw [fragmentsCode], .nil _⟩
  | f :: fs, names, h => by
      rw [Fragment.expressionsAll, List.forall_mem_append] at h
      obtain ⟨code, names₁, hcode, hwait⟩ := exists_fragmentCode c parent f names h.1
      obtain ⟨rest, names₂, hrest, hwait'⟩ := exists_fragmentsCode c parent fs names₁ h.2
      refine ⟨code ++ rest, names₂, ?_, hwait.append hwait'⟩
      rw [fragmentsCode]
      simp only [bind, Except.bind, hcode, hrest]
      rfl

end

/-! ### Blocks in the order of their names -/

theorem Analysis.binds_of_willChange {a : Analysis} {name : String} (h : name ∈ a.willChange) :
    a.bindings.binds name = true :=
  Bindings.binds_iff.2 (Analysis.exists_index_of_willChange h)

/-- Arranging names adds none. -/
theorem Bindings.mem_of_arrange_eq_ok {bindings : Bindings} {names arranged : List String}
    (h : bindings.arrange names = .ok arranged) : arranged ⊆ names := by
  obtain ⟨indices, -, h⟩ := exists_of_bind_eq_ok h
  cases h
  intro name hname
  obtain ⟨pair, hpair, rfl⟩ := List.mem_map.1 hname
  exact Names.mem_ofList.1 (List.of_mem_zip (mem_sortBy.1 hpair)).1

theorem exists_arrangeBlocks {bindings : Bindings} {names : Names}
    (hnames : ∀ name ∈ names, bindings.binds name = true) :
    ∀ {bs : List UpdateBlock}, WaitFor names bs →
      ∃ bs', arrangeBlocks bindings bs = .ok bs' ∧ WaitFor names bs'
  | [], _ => ⟨[], rfl, .nil _⟩
  | b :: bs, h => by
      obtain ⟨hb, hbs⟩ := List.forall_mem_cons.1 h
      obtain ⟨arranged, harranged⟩ := Bindings.exists_arrange fun name hname => hnames name (hb name hname)
      obtain ⟨bs', hbs', hwait⟩ := exists_arrangeBlocks hnames hbs
      refine ⟨{ b with names := arranged } :: bs', ?_, List.forall_mem_cons.2 ⟨?_, hwait⟩⟩
      · rw [arrangeBlocks, UpdateBlock.arranged, harranged, hbs']
        rfl
      · exact fun name hname => hb name (Bindings.mem_of_arrange_eq_ok harranged hname)

/-- Markup whose expressions lie properly has its code, which waits for names that may change. -/
theorem exists_markupCode (options : Options) (program : Option Source) (a : Analysis)
    {html : List Fragment} (h : ∀ e ∈ Fragment.expressionsAll html, e.node.Placed e.text) :
    ∃ code, markupCode (.of options program a) html = .ok code ∧ WaitFor a.willChange code.update := by
  obtain ⟨code, names, hcode, hwait⟩ :=
    exists_fragmentsCode (.of options program a) .target html .first h
  have hbound : ∀ name ∈ a.willChange, a.bindings.binds name = true :=
    fun _ hname => Analysis.binds_of_willChange hname
  obtain ⟨blocks, hblocks, hwait'⟩ := exists_arrangeBlocks hbound hwait
  refine ⟨{ code with update := blocks }, ?_, hwait'⟩
  have harranged : arrangeBlocks (MarkupContext.of options program a).bindings code.update = .ok blocks :=
    hblocks
  rw [markupCode, hcode]
  simp only [bind, Except.bind, harranged]
  rfl

/-! ### Declarations and statements -/

theorem exists_reactiveBlocks {program : Option Source} {bindings : Bindings} :
    ∀ {ds : List ReactiveDeclaration},
      (∀ d ∈ ds, ∀ name ∈ d.assignees, bindings.binds name = true) →
      ∃ bs, reactiveBlocks program bindings ds = .ok bs ∧
        ∀ b ∈ bs, ∀ name ∈ b.names, bindings.binds name = true
  | [], _ => ⟨[], rfl, nofun⟩
  | d :: ds, h => by
      obtain ⟨hd, hds⟩ := List.forall_mem_cons.1 h
      obtain ⟨bs, hbs, hbound⟩ := exists_reactiveBlocks hds
      obtain ⟨indices, hindices⟩ := Bindings.exists_indices hd
      have hone : ∃ b, reactiveBlock program bindings d = .ok b ∧
          b.names = d.dependencies.filter bindings.binds := by
        unfold reactiveBlock
        dsimp only
        split
        · exact ⟨_, rfl, rfl⟩
        · rw [hindices]
          exact ⟨_, rfl, rfl⟩
      obtain ⟨b, hb, hnames⟩ := hone
      refine ⟨b :: bs, by rw [reactiveBlocks, hb, hbs]; rfl, List.forall_mem_cons.2 ⟨?_, hbound⟩⟩
      exact fun name hname => (List.mem_filter.1 (hnames ▸ hname)).2

theorem exists_patchedTexts {s : ScriptBlock} :
    ∀ {ns : List Node}, (∀ n ∈ ns, ∃ text, patchedText? s.program s.patch n = some text) →
      ∃ texts, patchedTexts s ns = .ok texts
  | [], _ => ⟨[], rfl⟩
  | n :: ns, h => by
      obtain ⟨⟨text, htext⟩, hns⟩ := List.forall_mem_cons.1 h
      obtain ⟨texts, htexts⟩ := exists_patchedTexts hns
      exact ⟨text :: texts, by rw [patchedTexts, htext, htexts]; rfl⟩

/-- The statements of a block are cut out of the script with their changes announced. -/
theorem exists_scriptTexts {s : ScriptBlock} (a : Analysis) {lo hi : Nat} (hle : lo ≤ hi)
    (h : Node.PlacedIn s.program.text lo hi s.body) :
    ∃ texts, scriptTexts (some (s.announced a)) = .ok texts := by
  have hcut : ∀ n ∈ s.body,
      ∃ text, patchedText? (s.announced a).program (s.announced a).patch n = some text := fun n hn =>
    ⟨_, @patchedText?_announcementsAll ⟨s.program, a.forest, a.scopes, a.scopes.root, a.tracked, a.bindings⟩
      n a.scopes.root lo hi s.body hle h hn⟩
  have hpart (p : Node → Bool) : ∃ texts, patchedTexts (s.announced a) (s.body.filter p) = .ok texts :=
    exists_patchedTexts fun n hn => hcut n (List.mem_of_mem_filter hn)
  obtain ⟨imports, himports⟩ := hpart isImport
  obtain ⟨body, hbody⟩ := hpart fun n => !isImport n
  refine ⟨(imports, body), ?_⟩
  rw [scriptTexts, show (s.announced a).body = s.body from rfl, himports, hbody]
  rfl

/-! ### The module -/

theorem exists_reactiveLayout {bindings : Bindings} :
    ∀ {bs : List ReactiveBlock}, (∀ b ∈ bs, ∀ name ∈ b.names, bindings.binds name = true) →
      ∃ ls, reactiveLayout bindings bs = .ok ls
  | [], _ => ⟨[], rfl⟩
  | b :: bs, h => by
      obtain ⟨hb, hbs⟩ := List.forall_mem_cons.1 h
      obtain ⟨rest, hrest⟩ := exists_reactiveLayout hbs
      obtain ⟨guard, hguard⟩ := exists_guardText hb "dirty"
      rw [reactiveLayout, hrest]
      simp only [bind, Except.bind]
      split
      · exact ⟨_, rfl⟩
      · rw [guardedLayout, hguard]
        exact ⟨_, rfl⟩

theorem exists_updateLayout {bindings : Bindings} {names : Names}
    (hnames : ∀ name ∈ names, bindings.binds name = true) :
    ∀ {bs : List UpdateBlock}, WaitFor names bs → ∃ ls, updateLayout bindings bs = .ok ls
  | [], _ => ⟨[], rfl⟩
  | b :: bs, h => by
      obtain ⟨hb, hbs⟩ := List.forall_mem_cons.1 h
      obtain ⟨rest, hrest⟩ := exists_updateLayout hnames hbs
      obtain ⟨guard, hguard⟩ := exists_guardText (fun name hname => hnames name (hb name hname)) "changed"
      rw [updateLayout, guardedLayout, hguard, hrest]
      exact ⟨_, rfl⟩

/-- The component of a document is assembled when what declarations write may change and the statements
lie properly in the script. -/
theorem exists_assemble (options : Options) {d : Document} {a a' : Analysis} {markup : MarkupCode}
    (hassigned : ∀ r ∈ a'.reactive, ∀ name ∈ r.assignees, name ∈ a'.willChange)
    (hwait : WaitFor a'.willChange markup.update)
    (hscript : ∀ s, d.script = some s →
      ∃ lo hi, lo ≤ hi ∧ Node.PlacedIn s.program.text lo hi s.body) :
    ∃ g, assemble options (d.announced a) a' markup = .ok g := by
  obtain ⟨reactive, hreactive, hbound⟩ := @exists_reactiveBlocks (d.announced a).program? a'.bindings a'.reactive
    fun r hr name hname => Analysis.binds_of_willChange (hassigned r hr name hname)
  have htexts : ∃ texts, scriptTexts (d.announced a).script = .ok texts := by
    cases hs : d.script with
    | none => exact ⟨([], []), by rw [Document.announced, hs]; rfl⟩
    | some s =>
        obtain ⟨lo, hi, hle, hplaced⟩ := hscript s hs
        rw [Document.announced, hs]
        exact exists_scriptTexts a hle hplaced
  obtain ⟨⟨imports, body⟩, htexts⟩ := htexts
  obtain ⟨ls, hls⟩ := exists_reactiveLayout hbound
  obtain ⟨us, hus⟩ := exists_updateLayout (fun _ hname => Analysis.binds_of_willChange hname) hwait
  rw [assemble, hreactive]
  simp only [bind, Except.bind, htexts]
  rw [Component.text, Component.layout]
  simp only [bind, Except.bind, hls, hus]
  exact ⟨_, rfl⟩

/-! ### The order of declarations -/

/-- Every declaration of a circle feeds another one. -/
theorem Circle.exists_feeds {ds : List Dependent} {places : List Nat} (h : Circle ds places) {i : Nat}
    (hi : i ∈ places) : ∃ j, Feeds ds i j := by
  obtain ⟨before, after, rfl⟩ := List.append_of_mem hi
  cases after with
  | nil => exact ⟨_, by simpa using h.closed⟩
  | cons j after => exact ⟨j, (List.isChain_append.1 h.chain).2.1.rel⟩

/-- Every declaration of a circle is known by the first name that it writes. -/
theorem Circle.exists_cycleName {ds : List Dependent} {places : List Nat} (h : Circle ds places)
    {i : Nat} (hi : i ∈ places) :
    ∃ d, ds[i]? = some d ∧ d.assignees.head? = some (cycleName ds i) := by
  obtain ⟨j, -, d, -, hd, -, name, hname, -⟩ := h.exists_feeds hi
  obtain ⟨first, hfirst⟩ : ∃ first, d.assignees.head? = some first := by
    cases hassignees : d.assignees with
    | nil => rw [hassignees] at hname; cases hname
    | cons first _ => exact ⟨first, rfl⟩
  refine ⟨d, hd, ?_⟩
  rw [cycleName, hd, Option.bind_some, hfirst]
  rfl

/-- Declarations have an order, or some of them form a circle. -/
theorem orderDeclarations_cases (d : Document) (declarations : List ReactiveDeclaration) :
    (∃ ordered, orderDeclarations d declarations = .ok ordered ∧ ordered.Perm declarations) ∨
      ∃ cycle, Circle (declarations.map ReactiveDeclaration.toDependent) cycle ∧
        orderDeclarations d declarations = .error (cycleError d declarations cycle) := by
  rcases runningOrder_cases (declarations.map ReactiveDeclaration.toDependent) with
    ⟨order, hok, -, -⟩ | ⟨cycle, herror, hcircle⟩
  · have hordered : orderDeclarations d declarations = .ok (order.filterMap fun i => declarations[i]?) := by
      rw [orderDeclarations, hok]
    exact .inl ⟨_, hordered, (orderDeclarations_eq_ok hordered).1⟩
  · exact .inr ⟨cycle, hcircle, by rw [orderDeclarations, herror]⟩

/-! ### The whole -/

/-- Generation gives a component and leaves the declarations in another order, or it finds a circle and
leaves them as they are. -/
theorem generate_cases (options : Options) {d : Document} {a : Analysis}
    (hassigned : ∀ r ∈ a.reactive, ∀ name ∈ r.assignees, name ∈ a.willChange)
    (hhtml : ∀ e ∈ Fragment.expressionsAll d.html, e.node.Placed e.text)
    (hscript : ∀ s, d.script = some s →
      ∃ lo hi, lo ≤ hi ∧ Node.PlacedIn s.program.text lo hi s.body) :
    (d.generate options a).document = d.announced a ∧
      ((∃ g ordered, (d.generate options a).result = .ok g ∧ ordered.Perm a.reactive ∧
          (d.generate options a).analysis = { a with reactive := ordered }) ∨
        ∃ cycle, Circle (a.reactive.map ReactiveDeclaration.toDependent) cycle ∧
          (d.generate options a).result = .error (cycleError (d.announced a) a.reactive cycle) ∧
          (d.generate options a).analysis = a) := by
  obtain ⟨markup, hmarkup, hwait⟩ := exists_markupCode options d.program? a hhtml
  rcases orderDeclarations_cases (d.announced a) a.reactive with
    ⟨ordered, hordered, hperm⟩ | ⟨cycle, hcircle, herror⟩
  · have hassigned' : ∀ r ∈ ordered, ∀ name ∈ r.assignees, name ∈ a.willChange :=
      fun r hr => hassigned r (hperm.mem_iff.1 hr)
    obtain ⟨g, hg⟩ := @exists_assemble options d a { a with reactive := ordered } markup
      hassigned' hwait hscript
    simp only [Document.generate, hmarkup, hordered, hg]
    exact ⟨trivial, .inl ⟨g, ordered, rfl, hperm, rfl⟩⟩
  · simp only [Document.generate, hmarkup, herror]
    exact ⟨trivial, .inr ⟨cycle, hcircle, rfl, trivial⟩⟩

end ReactiveTemplate

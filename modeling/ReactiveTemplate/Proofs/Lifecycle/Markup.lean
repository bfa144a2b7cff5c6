/-
**What is created shows the markup, and what is destroyed takes it back.**

The code of a piece of markup comes as three lists: variables, statements that create the piece and
statements that destroy it.  Pieces follow each other and are put into each other, and so is their code.
The two relations of this module are made for that: they say what running the code of a piece does,
whatever else is in the tree, and what destroying it will do in every later state in which the nodes of
the piece and its variables are as they were left.

No two pieces have a variable in common.  Nodes are made one after the other, so the nodes of a piece are a
range of numbers.

Main definitions:

* `ReactiveTemplate.Decorated` — what the code of attributes does;
* `ReactiveTemplate.Created`, `ReactiveTemplate.Destroyed` — what the code of fragments does.

Main results:

* `ReactiveTemplate.decorated_attributes`, `ReactiveTemplate.created_fragments` — the code of attributes
  and of fragments;
* `ReactiveTemplate.generate_creates_and_destroys` — **creating shows the markup, and destroying takes
  all of it back**.
-/

import ReactiveTemplate.Proofs.Lifecycle.DomTree
import ReactiveTemplate.Proofs.Lifecycle.Variables

set_option relaxedAutoImplicit false
set_option autoImplicit false

namespace ReactiveTemplate

open Script

variable {c : MarkupContext} {holder : String} {names names' : NameCounter} {code : MarkupCode}
  {parent : Receiver}

/-! ### Attributes -/

/-- The code of attributes, run where its variable holds the node `n` with number `i`, sets the attributes
and adds the listeners `ls` to the node and changes no other node, and no variable that is not its own.
Destroying takes away the listeners that were added, wherever they come first. -/
structure Decorated (c : MarkupContext) (attributes : List Attribute) (holder : String)
    (code : MarkupCode) (d : Dom) (i : Nat) (n : DomNode) (d' : Dom) (ls : List Listener) : Prop where
  runs : Dom.run code.create d = some d'
  nodes : d'.nodes = d.nodes.set i { n with
    attributes := n.attributes ++ setAttributes c.options attributes, listeners := n.listeners ++ ls }
  held : ∀ v, v ∉ code.locals → d'.held v = d.held v
  listens : List.Forall₂ (Listens c) (eventAttributes c.options attributes) ls
  destroys : ∀ (D : Dom) (m : DomNode) (more : List Listener), D.held holder = some (.node i) →
    D.nodes[i]? = some m → m.listeners = ls ++ more →
    Dom.run code.destroy D = some (D.set i { m with listeners := more })

variable {d : Dom} {i : Nat} {n : DomNode}

theorem run_addListener {event handler : String} (hv : d.held holder = some (.node i))
    (hn : d.nodes[i]? = some n) :
    Dom.run [.addListener holder event handler] d = some (d.set i
      { n with listeners := n.listeners ++ [⟨event, handler, d.keptBy? handler⟩] }) := by
  rw [Dom.run, Dom.exec_addListener hv, Option.bind_some, Dom.run, Dom.modify_eq_set _ hn]

/-- The removal of the listener that comes first. -/
theorem run_removeListener {event handler : String} {kept : Option String} {more : List Listener}
    (hv : d.held holder = some (.node i)) (hn : d.nodes[i]? = some n)
    (hl : n.listeners = ⟨event, handler, kept⟩ :: more) :
    Dom.run [.removeListener holder event handler] d = some (d.set i { n with listeners := more }) := by
  have hexec := Dom.exec_removeListener hv hn hl
  rw [Dom.run, hexec, Option.bind_some, Dom.run, Dom.modify_eq_set _ hn, hl]
  simp [Listener.isNamed]

theorem decorated_event {a : Attribute} {e : Embedded} (hvalue : a.value = .expression e)
    (hevent : isEventName c.options a.name = true)
    (h : eventCode c holder (eventOf c.options a.name) e names = .ok (code, names'))
    (hv : d.held holder = some (.node i)) (hn : d.nodes[i]? = some n) (hholder : holder ∉ code.locals) :
    ∃ d' ls, Decorated c [a] holder code d i n d' ls := by
  have hset : setAttributes c.options [a] = [] := by simp [setAttributes, hvalue, hevent]
  have hevents : eventAttributes c.options [a] = [(eventOf c.options a.name, e)] := by
    simp [eventAttributes, hvalue, hevent]
  generalize eventOf c.options a.name = event at h hevents
  rcases eventCode_eq_ok h with ⟨handler, hplain, -, rfl⟩ | ⟨hplain, text, handler, htext, -, -, rfl⟩
  · have hlistens : Listens c (event, e) ⟨event, handler, d.keptBy? handler⟩ := by
      refine ⟨rfl, fun name hname => Option.some.inj (hplain.symm.trans hname), fun hnone => ?_⟩
      rw [hplain] at hnone
      cases hnone
    exact ⟨d.set i { n with listeners := n.listeners ++ [⟨event, handler, d.keptBy? handler⟩] },
      [⟨event, handler, d.keptBy? handler⟩], run_addListener hv hn, by simp [hset], fun _ _ => rfl,
      hevents ▸ .cons hlistens .nil, fun D m more hD hm hl => run_removeListener hD hm hl⟩
  · have hne : holder ≠ handler := by simpa [listenerCode] using hholder
    generalize hkept : operandText e.node.kind text = kept at h hholder ⊢
    have hlistens : Listens c (event, e) ⟨event, handler, some kept⟩ := by
      refine ⟨rfl, fun name hname => ?_, fun _ => ⟨text, htext, hkept ▸ rfl⟩⟩
      rw [hplain] at hname
      cases hname
    have hfound : (d.hold handler (.handler kept)).keptBy? handler = some kept := by
      simp [Dom.keptBy?]
    have hadd : Dom.run [.addListener holder event handler] (d.hold handler (.handler kept)) = _ :=
      run_addListener ((Dom.held_hold_of_ne hne).trans hv) hn
    rw [hfound] at hadd
    refine ⟨_, [⟨event, handler, some kept⟩], hadd, by simp [hset], fun v hv => ?_,
      hevents ▸ .cons hlistens .nil, fun D m more hD hm hl => run_removeListener hD hm hl⟩
    exact Dom.held_hold_of_ne (by simpa [listenerCode] using hv)

theorem decorated_attribute {a : Attribute} (h : attributeCode c holder a names = .ok (code, names'))
    (hv : d.held holder = some (.node i)) (hn : d.nodes[i]? = some n) (helement : n.isElement = true)
    (hholder : holder ∉ code.locals) : ∃ d' ls, Decorated c [a] holder code d i n d' ls := by
  -- an attribute that is set leaves nothing to destroy
  have hset : ∀ (update : List UpdateBlock) (value : Operand),
      setAttributes c.options [a] = [(a.name, value)] → eventAttributes c.options [a] = [] →
      ∃ d' ls, Decorated c [a] holder ⟨[], [.setAttribute holder a.name value], update, []⟩ d i n d' ls := by
    intro update value hset hevents
    have hcreate : Dom.run [.setAttribute holder a.name value] d =
        some (d.set i { n with attributes := n.attributes ++ [(a.name, value)] }) := by
      rw [Dom.run, Dom.exec_setAttribute hv hn helement, Option.bind_some, Dom.run,
        Dom.modify_eq_set _ hn]
    refine ⟨_, [], hcreate, by simp [hset], fun _ _ => rfl, hevents ▸ .nil, fun D m more _ hm hl => ?_⟩
    rw [List.nil_append] at hl
    subst hl
    exact congrArg some (Dom.set_self hm).symm
  unfold attributeCode at h
  split at h
  · next text hvalue =>
      cases h
      exact hset [] (.literal text) (by simp [setAttributes, hvalue]) (by simp [eventAttributes, hvalue])
  · next e hvalue =>
      split at h
      · next hevent => exact decorated_event hvalue hevent h hv hn hholder
      · next hevent =>
          cases h
          exact hset _ (.expression e.operand) (by simp [setAttributes, hvalue, hevent])
            (by simp [eventAttributes, hvalue, hevent])

theorem decorated_attributes {attributes : List Attribute}
    (h : attributesCode c holder attributes names = .ok (code, names'))
    (hv : d.held holder = some (.node i)) (hn : d.nodes[i]? = some n) (helement : n.isElement = true)
    (hholder : holder ∉ code.locals) : ∃ d' ls, Decorated c attributes holder code d i n d' ls := by
  induction attributes generalizing d n names code with
  | nil =>
      cases h
      refine ⟨d, [], rfl, ?_, fun _ _ => rfl, .nil, fun D m more _ hm hl => ?_⟩
      · simp only [setAttributes, List.filterMap_nil, List.append_nil]
        exact congrArg Dom.nodes (Dom.set_self hn).symm
      · subst hl
        exact congrArg some (Dom.set_self hm).symm
  | cons a attributes ih =>
      obtain ⟨⟨first, middle⟩, hfirst, h⟩ := exists_of_bind_eq_ok h
      obtain ⟨⟨rest, last⟩, hrest, h⟩ := exists_of_bind_eq_ok h
      cases h
      have hlocals : holder ∉ first.locals ∧ holder ∉ rest.locals := by simpa using hholder
      have hi : i < d.nodes.length := (List.getElem?_eq_some_iff.1 hn).1
      obtain ⟨d₁, ls₁, h₁⟩ := decorated_attribute hfirst hv hn helement hlocals.1
      have hn₁ : d₁.nodes[i]? = some { n with
          attributes := n.attributes ++ setAttributes c.options [a], listeners := n.listeners ++ ls₁ } := by
        rw [h₁.nodes, List.getElem?_set_self hi]
      obtain ⟨d₂, ls₂, h₂⟩ := ih hrest ((h₁.held _ hlocals.1).trans hv) hn₁ helement hlocals.2
      refine ⟨d₂, ls₁ ++ ls₂, ?_, ?_, fun v hv => ?_, ?_, fun D m more hD hm hl => ?_⟩
      · rw [MarkupCode.create_append, Dom.run_append, h₁.runs, Option.bind_some, h₂.runs]
      · rw [h₂.nodes, h₁.nodes, List.set_set, setAttributes_cons c.options a attributes]
        simp only [List.append_assoc]
      · have hv' : v ∉ first.locals ∧ v ∉ rest.locals := by simpa using hv
        rw [h₂.held v hv'.2, h₁.held v hv'.1]
      · rw [eventAttributes_cons]
        exact List.rel_append h₁.listens h₂.listens
      · rw [MarkupCode.destroy_append, Dom.run_append,
          h₁.destroys D m (ls₂ ++ more) hD hm (by rw [hl, List.append_assoc]), Option.bind_some]
        have hm' : (D.set i { m with listeners := ls₂ ++ more }).nodes[i]? =
            some { m with listeners := ls₂ ++ more } :=
          List.getElem?_set_self (List.getElem?_eq_some_iff.1 hm).1
        rw [h₂.destroys (D.set i { m with listeners := ls₂ ++ more }) _ more hD hm' rfl]
        simp [Dom.set]

/-! ### Fragments -/

/-- Two stores have the same nodes in a range. -/
def SameNodes (lo hi : Nat) (d D : Dom) : Prop :=
  ∀ j, lo ≤ j → j < hi → D.nodes[j]? = d.nodes[j]?

/-- What destroying does to the nodes `lo`, …, `hi - 1` of a piece of markup whose outer nodes `ids` are
children of node `p`: no listener is left on them, and outer nodes are taken out of `p`, all of them if
`p` is the target.  All else stays. -/
structure Destroyed (parent : Receiver) (lo hi p : Nat) (ids : List Nat) (D D' : Dom) : Prop where
  held : D'.held = D.held
  others : ∀ j, j ≠ p → j < lo ∨ hi ≤ j → D'.nodes[j]? = D.nodes[j]?
  receiver : ∃ gone, gone ⊆ ids ∧ (parent = .target → gone = ids) ∧
    D'.nodes[p]? = D.nodes[p]?.map fun n => { n with children := n.children.diff gone }
  silent : ∀ j n, lo ≤ j → j < hi → D'.nodes[j]? = some n → n.listeners = []

/-- The code of fragments, run where their receiver is node `p`, makes nodes behind those that are there.
The outer ones, `ids`, become the last children of `p`, and nothing else changes but the variables of the
code.  In every store that has the new nodes, the fragments are shown; and if it also has the variables and
the children, destroying succeeds. -/
structure Created (c : MarkupContext) (parent : Receiver) (fs : List Fragment) (code : MarkupCode)
    (d : Dom) (p : Nat) (d' : Dom) (ids : List Nat) : Prop where
  runs : Dom.run code.create d = some d'
  grows : d.nodes.length ≤ d'.nodes.length
  fresh : ∀ i ∈ ids, d.nodes.length ≤ i ∧ i < d'.nodes.length
  ascending : ids.Pairwise (· < ·)
  older : ∀ j, j < d.nodes.length → j ≠ p → d'.nodes[j]? = d.nodes[j]?
  receiver : d'.nodes[p]? = d.nodes[p]?.map fun n => { n with children := n.children ++ ids }
  held : ∀ v, v ∉ code.locals → d'.held v = d.held v
  shown : ∀ D, SameNodes d.nodes.length d'.nodes.length d' D → ShowsAll c D p fs ids
  destroys : ∀ D m, SameNodes d.nodes.length d'.nodes.length d' D →
    (∀ v ∈ code.locals, D.held v = d'.held v) → D.receiver? parent = some p → D.nodes[p]? = some m →
    ids ⊆ m.children →
    ∃ D', Dom.run code.destroy D = some D' ∧
      Destroyed parent d.nodes.length d'.nodes.length p ids D D'

theorem showsAll_append {D : Dom} {p : Nat} {fs gs : List Fragment} {ids js : List Nat}
    (h : ShowsAll c D p fs ids) (h' : ShowsAll c D p gs js) : ShowsAll c D p (fs ++ gs) (ids ++ js) := by
  induction fs generalizing ids with
  | nil =>
      rw [ShowsAll] at h
      subst h
      exact h'
  | cons f fs ih =>
      rw [ShowsAll] at h
      obtain ⟨i, rest, rfl, hi, hrest⟩ := h
      rw [List.cons_append, ShowsAll]
      exact ⟨i, rest ++ js, rfl, hi, ih hrest⟩

theorem SameNodes.trans {lo hi : Nat} {d d' D : Dom} (h : SameNodes lo hi d d')
    (h' : SameNodes lo hi d' D) : SameNodes lo hi d D :=
  fun j hlo hhi => (h' j hlo hhi).trans (h j hlo hhi)

theorem SameNodes.mono {lo hi lo' hi' : Nat} {d D : Dom} (h : SameNodes lo hi d D) (hlo : lo ≤ lo')
    (hhi : hi' ≤ hi) : SameNodes lo' hi' d D :=
  fun j hj hj' => h j (Nat.le_trans hlo hj) (Nat.lt_of_lt_of_le hj' hhi)

/-- The nodes made before stay as they are, but for the receiver. -/
theorem Created.sameNodes {fs : List Fragment} {d' : Dom} {p lo : Nat} {ids : List Nat}
    (h : Created c parent fs code d p d' ids) (hp : p < lo) : SameNodes lo d.nodes.length d d' :=
  fun j hlo hlt => h.older j hlt (by omega)

theorem Destroyed.trans {lo mid hi p : Nat} {ids₁ ids₂ : List Nat} {D D₁ D₂ : Dom}
    (h₁ : Destroyed parent lo mid p ids₁ D D₁) (h₂ : Destroyed parent mid hi p ids₂ D₁ D₂)
    (hp : p < lo) (hlo : lo ≤ mid) (hhi : mid ≤ hi) : Destroyed parent lo hi p (ids₁ ++ ids₂) D D₂ := by
  obtain ⟨gone₁, hgone₁, htarget₁, hp₁⟩ := h₁.receiver
  obtain ⟨gone₂, hgone₂, htarget₂, hp₂⟩ := h₂.receiver
  refine ⟨h₂.held.trans h₁.held, fun j hne hj => ?_, ⟨gone₁ ++ gone₂, ?_, fun h => ?_, ?_⟩,
    fun j n hlo' hhi' hn => ?_⟩
  · rw [h₂.others j hne (by omega), h₁.others j hne (by omega)]
  · exact List.append_subset.2 ⟨fun j hj => List.mem_append_left _ (hgone₁ hj),
      fun j hj => List.mem_append_right _ (hgone₂ hj)⟩
  · rw [htarget₁ h, htarget₂ h]
  · rw [hp₂, hp₁, Option.map_map]
    simp [Function.comp_def, List.diff_append]
  · by_cases hj : j < mid
    · rw [h₂.others j (by omega) (.inl hj)] at hn
      exact h₁.silent j n hlo' hj hn
    · exact h₂.silent j n (by omega) hhi' hn

/-- Pieces that follow each other. -/
theorem Created.append {fs gs : List Fragment} {code₁ code₂ : MarkupCode} {d₁ d₂ : Dom} {p : Nat}
    {ids₁ ids₂ : List Nat} (h₁ : Created c parent fs code₁ d p d₁ ids₁)
    (h₂ : Created c parent gs code₂ d₁ p d₂ ids₂) (hp : p < d.nodes.length)
    (hlocals : ∀ v ∈ code₁.locals, v ∉ code₂.locals) :
    Created c parent (fs ++ gs) (code₁ ++ code₂) d p d₂ (ids₁ ++ ids₂) := by
  have hle := Nat.le_trans h₁.grows h₂.grows
  -- a store with the nodes of both pieces has the nodes of the first as the first left them
  have hsame : ∀ D, SameNodes d.nodes.length d₂.nodes.length d₂ D →
      SameNodes d.nodes.length d₁.nodes.length d₁ D := fun D hD =>
    (h₂.sameNodes hp).trans (hD.mono (Nat.le_refl _) h₂.grows)
  have hsame' : ∀ D, SameNodes d.nodes.length d₂.nodes.length d₂ D →
      SameNodes d₁.nodes.length d₂.nodes.length d₂ D := fun D hD => hD.mono h₁.grows (Nat.le_refl _)
  refine ⟨?_, hle, fun i hi => ?_, ?_, fun j hj hne => ?_, ?_, fun v hv => ?_, fun D hD => ?_,
    fun D m hD hheld hreceiver hm hids => ?_⟩
  · rw [MarkupCode.create_append, Dom.run_append, h₁.runs, Option.bind_some, h₂.runs]
  · rcases List.mem_append.1 hi with hi | hi
    · exact ⟨(h₁.fresh i hi).1, Nat.lt_of_lt_of_le (h₁.fresh i hi).2 h₂.grows⟩
    · exact ⟨Nat.le_trans h₁.grows (h₂.fresh i hi).1, (h₂.fresh i hi).2⟩
  · refine List.pairwise_append.2 ⟨h₁.ascending, h₂.ascending, fun i hi j hj => ?_⟩
    exact Nat.lt_of_lt_of_le (h₁.fresh i hi).2 (h₂.fresh j hj).1
  · rw [h₂.older j (Nat.lt_of_lt_of_le hj h₁.grows) hne, h₁.older j hj hne]
  · rw [h₂.receiver, h₁.receiver, Option.map_map]
    simp [Function.comp_def]
  · have hv' : v ∉ code₁.locals ∧ v ∉ code₂.locals := by simpa using hv
    rw [h₂.held v hv'.2, h₁.held v hv'.1]
  · exact showsAll_append (h₁.shown D (hsame D hD)) (h₂.shown D (hsame' D hD))
  · obtain ⟨hids₁, hids₂⟩ := List.append_subset.1 hids
    have hheld₁ : ∀ v ∈ code₁.locals, D.held v = d₁.held v := by
      intro v hv
      rw [hheld v (by simp [hv]), h₂.held v (hlocals v hv)]
    obtain ⟨D₁, hrun₁, hdestroyed₁⟩ := h₁.destroys D m (hsame D hD) hheld₁ hreceiver hm hids₁
    have hD₁ : SameNodes d₁.nodes.length d₂.nodes.length d₂ D₁ := by
      intro j hlo hhi
      have := h₁.grows
      rw [hdestroyed₁.others j (by omega) (.inr hlo)]
      exact hsame' D hD j hlo hhi
    have hheld₂ : ∀ v ∈ code₂.locals, D₁.held v = d₂.held v := by
      intro v hv
      rw [hdestroyed₁.held, hheld v (by simp [hv])]
    have hreceiver₁ : D₁.receiver? parent = some p :=
      (Dom.receiver?_congr fun v _ => by rw [hdestroyed₁.held]).trans hreceiver
    -- the outer nodes of the second piece are still in the receiver
    obtain ⟨gone, hgone, -, hm₁⟩ := hdestroyed₁.receiver
    rw [hm, Option.map_some] at hm₁
    have hids' : ids₂ ⊆ m.children.diff gone := by
      intro j hj
      refine List.mem_diff_of_mem (hids₂ hj) fun hmem => ?_
      have hlt := (h₁.fresh j (hgone hmem)).2
      have hle := (h₂.fresh j hj).1
      omega
    obtain ⟨D₂, hrun₂, hdestroyed₂⟩ := h₂.destroys D₁ _ hD₁ hheld₂ hreceiver₁ hm₁ hids'
    refine ⟨D₂, ?_, hdestroyed₁.trans hdestroyed₂ hp h₁.grows h₂.grows⟩
    rw [MarkupCode.destroy_append, Dom.run_append, hrun₁, Option.bind_some, hrun₂]

/-- No fragments. -/
theorem created_nil (c : MarkupContext) (parent : Receiver) (d : Dom) (p : Nat) :
    Created c parent [] .empty d p d [] := by
  refine ⟨rfl, Nat.le_refl _, (fun i hi => nomatch hi), .nil, fun j _ _ => rfl, ?_, fun v _ => rfl,
    fun D _ => ?_, fun D m _ _ _ hm _ => ⟨D, rfl, rfl, fun j _ _ => rfl, ⟨[], ?_, fun _ => rfl, ?_⟩, ?_⟩⟩
  · simp
  · rw [ShowsAll]
  · exact fun j hj => hj
  · simp
  · intro j n hlo hhi
    omega

theorem showsAll_singleton {D : Dom} {p : Nat} {f : Fragment} (h : Shows c D p f i) :
    ShowsAll c D p [f] [i] := by
  rw [ShowsAll]
  exact ⟨i, [], rfl, h, by rw [ShowsAll]⟩

/-- An outer node is taken out of its receiver when no listener is left. -/
theorem destroyed_detach {lo hi p : Nat} {D : Dom} (hp : p < lo) (hlo : lo ≤ i) (hhi : i < hi)
    (hsilent : ∀ j n, lo ≤ j → j < hi → D.nodes[j]? = some n → n.listeners = []) :
    Destroyed parent lo hi p [i] D (D.detach p i) := by
  have hne : i ≠ p := by omega
  refine ⟨rfl, fun j hjp hj => Dom.getElem?_detach_of_ne hjp (by omega),
    ⟨[i], List.Subset.refl _, fun _ => rfl, ?_⟩, fun j n hlo' hhi' hn => ?_⟩
  · rw [Dom.getElem?_detach_receiver hne]
    simp [List.diff_cons]
  · by_cases hj : j = i
    · subst hj
      rw [Dom.getElem?_detach_child hne] at hn
      obtain ⟨n', hn', rfl⟩ := Option.map_eq_some_iff.1 hn
      exact hsilent j n' hlo' hhi' hn'
    · rw [Dom.getElem?_detach_of_ne (by omega) hj] at hn
      exact hsilent j n hlo' hhi' hn

theorem created_text {content : Operand} {update : List UpdateBlock} {f : Fragment} {p : Nat} {m : DomNode}
    (hshown : ∀ D i, D.nodes[i]? = some ⟨.text content, [], [], some p, []⟩ → Shows c D p f i)
    (hp : d.receiver? parent = some p) (hm : d.nodes[p]? = some m) (helement : m.isElement = true)
    (hholder : ∀ v, parent = .element v → v ≠ holder) :
    ∃ d', Created c parent [f] (textCode parent holder content update) d p d' [d.nodes.length] := by
  have hlt : p < d.nodes.length := (List.getElem?_eq_some_iff.1 hm).1
  have hne : d.nodes.length ≠ p := Nat.ne_of_gt hlt
  have hp' : (d.add holder (.text content)).receiver? parent = some p :=
    (Dom.receiver?_congr fun v hv => Dom.held_add_of_ne (hholder v hv)).trans hp
  have hold : ∀ j, j < d.nodes.length → (d.add holder (.text content)).nodes[j]? = d.nodes[j]? :=
    fun j hj => by rw [Dom.nodes_add, List.getElem?_append_left hj]
  have hnew : (d.add holder (.text content)).nodes[d.nodes.length]? =
      some (.ofContent (.text content)) := by
    simp
  have hlength : ((d.add holder (.text content)).attach p d.nodes.length).nodes.length =
      d.nodes.length + 1 := by
    simp
  have hchild : ((d.add holder (.text content)).attach p d.nodes.length).nodes[d.nodes.length]? =
      some ⟨.text content, [], [], some p, []⟩ := by
    rw [Dom.getElem?_attach_child hne, hnew]
    rfl
  refine ⟨(d.add holder (.text content)).attach p d.nodes.length, ?_, by omega, ?_,
    List.pairwise_singleton _ _, fun j hj hjp => ?_, ?_, fun v hv => ?_, fun D hD => ?_,
    fun D m hD hheld hreceiver hm hids => ?_⟩
  · have happend := Dom.exec_appendChild hp' Dom.held_add_self ((hold p hlt).trans hm) helement hnew rfl hne
    rw [textCode, Dom.run, Dom.exec, Option.bind_some, Dom.run, happend, Option.bind_some, Dom.run]
  · intro i hi
    rw [List.mem_singleton.1 hi]
    omega
  · rw [Dom.getElem?_attach_of_ne hjp (Nat.ne_of_lt hj), hold j hj]
  · rw [Dom.getElem?_attach_receiver hne, hold p hlt]
  · exact Dom.held_add_of_ne (by simpa [textCode] using hv)
  · have hnode := (hD d.nodes.length (Nat.le_refl _) (by omega)).trans hchild
    exact showsAll_singleton (hshown D _ hnode)
  · have hsilent : ∀ j n, d.nodes.length ≤ j → j < d.nodes.length + 1 → D.nodes[j]? = some n →
        n.listeners = [] := by
      intro j n hlo hhi hn
      obtain rfl : j = d.nodes.length := by omega
      rw [hD _ (Nat.le_refl _) (by omega), hchild] at hn
      rw [← Option.some.inj hn]
    rw [hlength]
    by_cases htarget : parent = .target
    · have hholds : D.held holder = some (.node d.nodes.length) :=
        (hheld holder (by simp [textCode])).trans Dom.held_add_self
      have hremove := Dom.exec_removeChild hreceiver hholds hm (hids (by simp))
      refine ⟨D.detach p d.nodes.length, ?_, destroyed_detach hlt (Nat.le_refl _) (by omega) hsilent⟩
      rw [textCode, removal, if_pos htarget, Dom.run, hremove, Option.bind_some, Dom.run]
    · refine ⟨D, ?_, rfl, fun _ _ _ => rfl, ⟨[], List.nil_subset _, fun h => absurd h htarget, ?_⟩, hsilent⟩
      · rw [textCode, removal, if_neg htarget, Dom.run]
      · simp

/-- An element with all that is in it, before it is put into its receiver: it is the first of the new
nodes.  Destroying what is in it leaves no listener, wherever the element has been put. -/
structure Filled (c : MarkupContext) (tag : String) (attributes : List Attribute) (children : List Fragment)
    (holder : String) (own inner : MarkupCode) (d d' : Dom) (ls : List Listener) (ids : List Nat) :
    Prop where
  runs : Dom.run (.createElement holder tag :: (own.create ++ inner.create)) d = some d'
  grows : d.nodes.length + 1 ≤ d'.nodes.length
  older : ∀ j, j < d.nodes.length → d'.nodes[j]? = d.nodes[j]?
  node : d'.nodes[d.nodes.length]? =
    some ⟨.element tag, setAttributes c.options attributes, ls, none, ids⟩
  listens : List.Forall₂ (Listens c) (eventAttributes c.options attributes) ls
  ascending : ids.Pairwise (· < ·)
  holds : d'.held holder = some (.node d.nodes.length)
  held : ∀ v, v ≠ holder → v ∉ own.locals → v ∉ inner.locals → d'.held v = d.held v
  shown : ∀ D, SameNodes (d.nodes.length + 1) d'.nodes.length d' D →
    ShowsAll c D d.nodes.length children ids
  destroys : ∀ D n, SameNodes (d.nodes.length + 1) d'.nodes.length d' D →
    (∀ v ∈ inner.locals, D.held v = d'.held v) → D.held holder = some (.node d.nodes.length) →
    D.nodes[d.nodes.length]? = some n → n.listeners = ls → n.children = ids →
    ∃ D', Dom.run (own.destroy ++ inner.destroy) D = some D' ∧ D'.held = D.held ∧
      (∀ j, j < d.nodes.length ∨ d'.nodes.length ≤ j → D'.nodes[j]? = D.nodes[j]?) ∧
      ∀ j n, d.nodes.length ≤ j → j < d'.nodes.length → D'.nodes[j]? = some n → n.listeners = []

theorem exists_filled (tag : String) {attributes : List Attribute} {children : List Fragment}
    {own inner : MarkupCode} (hown : attributesCode c holder attributes names = .ok (own, names'))
    (hinner : ∀ (d : Dom) (p : Nat) (m : DomNode), d.receiver? (.element holder) = some p →
      d.nodes[p]? = some m → m.isElement = true →
      ∃ d' ids, Created c (.element holder) children inner d p d' ids)
    (hholder : holder ∉ own.locals) (hholder' : holder ∉ inner.locals) (d : Dom) :
    ∃ d' ls ids, Filled c tag attributes children holder own inner d d' ls ids := by
  have hn : (d.add holder (.element tag)).nodes[d.nodes.length]? = some (.ofContent (.element tag)) := by
    simp
  obtain ⟨d₁, ls, h₁⟩ := decorated_attributes hown Dom.held_add_self hn rfl hholder
  have hlength : d₁.nodes.length = d.nodes.length + 1 := by
    rw [h₁.nodes, List.length_set]
    simp
  have holder₁ : d₁.held holder = some (.node d.nodes.length) :=
    (h₁.held holder hholder).trans Dom.held_add_self
  have hn₁ : d₁.nodes[d.nodes.length]? =
      some ⟨.element tag, setAttributes c.options attributes, ls, none, []⟩ := by
    rw [h₁.nodes, List.getElem?_set_self (by simp)]
    rfl
  have hold : ∀ j, j < d.nodes.length → d₁.nodes[j]? = d.nodes[j]? := by
    intro j hj
    rw [h₁.nodes, List.getElem?_set_ne (by omega), Dom.nodes_add, List.getElem?_append_left hj]
  obtain ⟨d₂, ids, h₂⟩ := hinner d₁ d.nodes.length _ (Dom.nodeOf?_eq_some_iff.2 holder₁) hn₁ rfl
  refine ⟨d₂, ls, ids, ?_, hlength ▸ h₂.grows, fun j hj => ?_, ?_, h₁.listens, h₂.ascending,
    (h₂.held holder hholder').trans holder₁, fun v hv hv₁ hv₂ => ?_, hlength ▸ h₂.shown,
    fun D n hD hheld hholds hn hls hids => ?_⟩
  · rw [Dom.run, Dom.exec, Option.bind_some, Dom.run_append, h₁.runs, Option.bind_some, h₂.runs]
  · rw [h₂.older j (by omega) (by omega), hold j hj]
  · rw [h₂.receiver, hn₁]
    rfl
  · rw [h₂.held v hv₂, h₁.held v hv₁, Dom.held_add_of_ne hv]
  · -- the listeners of the element go first, then what is in it
    have hrun₁ := h₁.destroys D n [] hholds hn (by rw [hls, List.append_nil])
    generalize hD₁ : D.set d.nodes.length { n with listeners := [] } = D₁ at hrun₁
    have hheld₁ : D₁.held = D.held := by rw [← hD₁]; rfl
    have hn' : D₁.nodes[d.nodes.length]? = some { n with listeners := [] } := by
      rw [← hD₁, Dom.nodes_set, List.getElem?_set_self (List.getElem?_eq_some_iff.1 hn).1]
    have hothers₁ : ∀ j, j ≠ d.nodes.length → D₁.nodes[j]? = D.nodes[j]? := by
      intro j hj
      rw [← hD₁, Dom.nodes_set, List.getElem?_set_ne hj.symm]
    have hsame₁ : SameNodes d₁.nodes.length d₂.nodes.length d₂ D₁ := by
      intro j hlo hhi
      rw [hothers₁ j (by omega)]
      exact hD j (by omega) hhi
    have hreceiver₁ : D₁.receiver? (.element holder) = some d.nodes.length :=
      Dom.nodeOf?_eq_some_iff.2 (by rw [hheld₁, hholds])
    obtain ⟨D₂, hrun₂, hdestroyed⟩ := h₂.destroys D₁ _ hsame₁ (fun v hv => by rw [hheld₁, hheld v hv])
      hreceiver₁ hn' (hids ▸ List.Subset.refl _)
    refine ⟨D₂, ?_, hdestroyed.held.trans hheld₁, fun j hj => ?_, fun j n' hlo hhi hn₂ => ?_⟩
    · rw [Dom.run_append, hrun₁, Option.bind_some, hrun₂]
    · have := h₂.grows
      rw [hdestroyed.others j (by omega) (by omega), hothers₁ j (by omega)]
    · by_cases hj : j = d.nodes.length
      · obtain ⟨gone, -, -, hgone⟩ := hdestroyed.receiver
        rw [hj, hgone, hn'] at hn₂
        rw [← Option.some.inj hn₂]
      · exact hdestroyed.silent j n' (by omega) hhi hn₂

/-- What a piece does to itself before it is destroyed changes nothing else. -/
theorem Destroyed.ofInner {lo hi p : Nat} {ids : List Nat} {D D₁ D' : Dom}
    (h : Destroyed parent lo hi p ids D₁ D') (hp : p < lo) (hheld : D₁.held = D.held)
    (hothers : ∀ j, j < lo ∨ hi ≤ j → D₁.nodes[j]? = D.nodes[j]?) :
    Destroyed parent lo hi p ids D D' := by
  obtain ⟨gone, hgone, htarget, hreceiver⟩ := h.receiver
  refine ⟨h.held.trans hheld, fun j hjp hj => ?_, ⟨gone, hgone, htarget, ?_⟩, h.silent⟩
  · rw [h.others j hjp hj, hothers j hj]
  · rw [hreceiver, hothers p (.inl hp)]

section Elements

variable {tag : String} {attributes : List Attribute} {children : List Fragment} {p : Nat} {m : DomNode}
  {own inner : MarkupCode} {d₁ : Dom} {ls : List Listener} {ids : List Nat}

/-- An element is destroyed after what is in it. -/
theorem Filled.destroys_element (h : Filled c tag attributes children holder own inner d d₁ ls ids) {D : Dom}
    (hD : SameNodes (d.nodes.length + 1) d₁.nodes.length d₁ D)
    (hnode : D.nodes[d.nodes.length]? =
      some ⟨.element tag, setAttributes c.options attributes, ls, some p, ids⟩)
    (hheld : ∀ v ∈ holder :: (own.locals ++ inner.locals), D.held v = d₁.held v)
    (hp : p < d.nodes.length) (hreceiver : D.receiver? parent = some p) (hm : D.nodes[p]? = some m)
    (hmem : d.nodes.length ∈ m.children) :
    ∃ D', Dom.run (own.destroy ++ inner.destroy ++ [.removeChild parent holder]) D = some D' ∧
      Destroyed parent d.nodes.length d₁.nodes.length p [d.nodes.length] D D' := by
  have hgrows := h.grows
  have hholds : D.held holder = some (.node d.nodes.length) :=
    (hheld holder List.mem_cons_self).trans h.holds
  obtain ⟨D₁, hrun₁, hheld₁, hothers₁, hsilent₁⟩ := h.destroys D _ hD
    (fun v hv => hheld v (by simp [hv])) hholds hnode rfl rfl
  have hreceiver₁ : D₁.receiver? parent = some p :=
    (Dom.receiver?_congr fun v _ => by rw [hheld₁]).trans hreceiver
  have hremove := Dom.exec_removeChild hreceiver₁ ((congrFun hheld₁ holder).trans hholds)
    ((hothers₁ p (.inl hp)).trans hm) hmem
  refine ⟨D₁.detach p d.nodes.length, ?_, ?_⟩
  · rw [Dom.run_append, hrun₁, Option.bind_some, Dom.run, hremove, Option.bind_some, Dom.run]
  · exact (destroyed_detach hp (Nat.le_refl _) (by omega) hsilent₁).ofInner hp hheld₁ hothers₁

theorem created_element {start : Nat} (h : Filled c tag attributes children holder own inner d d₁ ls ids)
    (hp : d.receiver? parent = some p) (hm : d.nodes[p]? = some m) (helement : m.isElement = true)
    (hlocals : ∀ v, parent = .element v → v ≠ holder ∧ v ∉ own.locals ∧ v ∉ inner.locals) :
    Created c parent [.element tag attributes children start]
      (elementCode parent holder tag (own ++ inner)) d p (d₁.attach p d.nodes.length)
      [d.nodes.length] := by
  have hlt : p < d.nodes.length := (List.getElem?_eq_some_iff.1 hm).1
  have hne : d.nodes.length ≠ p := Nat.ne_of_gt hlt
  have hgrows := h.grows
  have hp₁ : d₁.receiver? parent = some p := by
    refine (Dom.receiver?_congr fun v hv => ?_).trans hp
    obtain ⟨hv, hv', hv''⟩ := hlocals v hv
    exact h.held v hv hv' hv''
  have hm₁ : d₁.nodes[p]? = some m := (h.older p hlt).trans hm
  -- a store with the new nodes has the element in its place, and what is in it as it was before that
  have hnode : ∀ D, SameNodes d.nodes.length (d₁.attach p d.nodes.length).nodes.length
      (d₁.attach p d.nodes.length) D → D.nodes[d.nodes.length]? =
        some ⟨.element tag, setAttributes c.options attributes, ls, some p, ids⟩ := by
    intro D hD
    rw [hD _ (Nat.le_refl _) (by rw [Dom.length_attach]; omega), Dom.getElem?_attach_child hne, h.node]
    rfl
  have hsame : ∀ D, SameNodes d.nodes.length (d₁.attach p d.nodes.length).nodes.length
      (d₁.attach p d.nodes.length) D → SameNodes (d.nodes.length + 1) d₁.nodes.length d₁ D := by
    intro D hD j hlo hhi
    rw [hD j (by omega) (by simpa using hhi), Dom.getElem?_attach_of_ne (by omega) (by omega)]
  refine ⟨?_, ?_, ?_, List.pairwise_singleton _ _, fun j hj hjp => ?_, ?_, fun v hv => ?_, fun D hD => ?_,
    fun D m hD hheld hreceiver hm hids => ?_⟩
  · have happend := Dom.exec_appendChild hp₁ h.holds hm₁ helement h.node rfl hne
    have hcode : (elementCode parent holder tag (own ++ inner)).create =
        (.createElement holder tag :: (own.create ++ inner.create)) ++ [.appendChild parent holder] := by
      simp [elementCode]
    rw [hcode, Dom.run_append, h.runs, Option.bind_some, Dom.run, happend, Option.bind_some, Dom.run]
  · rw [Dom.length_attach]
    omega
  · intro i hi
    rw [List.mem_singleton.1 hi, Dom.length_attach]
    omega
  · rw [Dom.getElem?_attach_of_ne hjp (Nat.ne_of_lt hj), h.older j hj]
  · rw [Dom.getElem?_attach_receiver hne, h.older p hlt]
  · have hv' : v ≠ holder ∧ v ∉ own.locals ∧ v ∉ inner.locals := by simpa [elementCode] using hv
    exact h.held v hv'.1 hv'.2.1 hv'.2.2
  · refine showsAll_singleton ?_
    rw [Shows]
    exact ⟨_, hnode D hD, rfl, rfl, rfl, h.listens, h.ascending.imp Nat.ne_of_lt, h.shown D (hsame D hD)⟩
  · have hcode : (elementCode parent holder tag (own ++ inner)).destroy =
        own.destroy ++ inner.destroy ++ [.removeChild parent holder] := by
      simp [elementCode]
    rw [hcode, Dom.length_attach]
    exact h.destroys_element (hsame D hD) (hnode D hD) (fun v hv => hheld v (by simpa [elementCode] using hv))
      hlt hreceiver hm (hids (by simp))

end Elements

/-- The variable that stands for a receiver has been named before a number. -/
def NamedBefore (next : Int) (parent : Receiver) : Prop :=
  ∀ v, parent = .element v → ∃ k, k < next ∧ Numbered k v

theorem NamedBefore.not_mem {lo hi : Int} {vs : List String} (h : NamedBefore lo parent)
    (hvs : NumberedIn lo hi vs) : ∀ v, parent = .element v → v ∉ vs := by
  intro v hv
  obtain ⟨k, hk, hnumbered⟩ := h v hv
  exact hvs.not_mem hnumbered (.inl hk)

theorem NamedBefore.mono {next next' : Int} (h : NamedBefore next parent) (hle : next ≤ next') :
    NamedBefore next' parent := by
  intro v hv
  obtain ⟨k, hk, hnumbered⟩ := h v hv
  exact ⟨k, by omega, hnumbered⟩

mutual

theorem created_fragment : ∀ {f : Fragment} {parent : Receiver} {names names' : NameCounter}
    {code : MarkupCode} {d : Dom} {p : Nat} {m : DomNode},
    fragmentCode c parent f names = .ok (code, names') → NamedBefore names.next parent →
    d.receiver? parent = some p → d.nodes[p]? = some m → m.isElement = true →
    ∃ d' ids, Created c parent [f] code d p d' ids
  | .element tag attributes children start, parent, names, names', code, d, p, m, h, hparent, hp, hm,
    hel => by
      obtain ⟨holder, own, middle, inner, hholder, hown, hinner, rfl⟩ := fragmentCode_element h
      obtain ⟨hle, hlocals⟩ := numberedIn_attributesCode hown
      obtain ⟨-, hlocals'⟩ := numberedIn_fragmentsCode hinner
      have hlt : names.next < middle.next := hle
      have hnamed : NamedBefore middle.next (.element holder) := by
        rintro v ⟨⟩
        exact ⟨names.next, hlt, hholder⟩
      obtain ⟨d₁, ls, ids, hfilled⟩ := exists_filled tag hown
        (fun d p m hp hm hel => created_fragments hinner hnamed hp hm hel)
        (hlocals.not_mem hholder (.inl (Int.lt_succ _))) (hlocals'.not_mem hholder (.inl hlt)) d
      refine ⟨_, _, created_element hfilled hp hm hel fun v hv => ⟨?_, ?_, ?_⟩⟩
      · exact fun heq => hparent.not_mem (numberedIn_singleton hholder) v hv (List.mem_singleton.2 heq)
      · exact (hparent.mono (Int.le_of_lt (Int.lt_succ _))).not_mem hlocals v hv
      · exact (hparent.mono (Int.le_of_lt hlt)).not_mem hlocals' v hv
  | .text value start, parent, names, names', code, d, p, m, h, hparent, hp, hm, hel => by
      obtain ⟨holder, hholder, -, rfl⟩ := fragmentCode_text h
      obtain ⟨d', hcreated⟩ := created_text (c := c) (f := .text value start)
        (fun D i hi => by rw [Shows]; exact hi) hp hm hel
        fun v hv heq => hparent.not_mem (numberedIn_singleton hholder) v hv (List.mem_singleton.2 heq)
      exact ⟨d', _, hcreated⟩
  | .expression e start, parent, names, names', code, d, p, m, h, hparent, hp, hm, hel => by
      obtain ⟨holder, update, hholder, -, rfl⟩ := fragmentCode_expression h
      obtain ⟨d', hcreated⟩ := created_text (c := c) (f := .expression e start)
        (fun D i hi => by rw [Shows]; exact hi) hp hm hel
        fun v hv heq => hparent.not_mem (numberedIn_singleton hholder) v hv (List.mem_singleton.2 heq)
      exact ⟨d', _, hcreated⟩

/-- The code of fragments does what it is made for. -/
theorem created_fragments : ∀ {fs : List Fragment} {parent : Receiver} {names names' : NameCounter}
    {code : MarkupCode} {d : Dom} {p : Nat} {m : DomNode},
    fragmentsCode c parent fs names = .ok (code, names') → NamedBefore names.next parent →
    d.receiver? parent = some p → d.nodes[p]? = some m → m.isElement = true →
    ∃ d' ids, Created c parent fs code d p d' ids
  | [], parent, names, names', code, d, p, m, h, hparent, hp, hm, hel => by
      rw [fragmentsCode] at h
      cases h
      exact ⟨d, [], created_nil c parent d p⟩
  | f :: fs, parent, names, names', code, d, p, m, h, hparent, hp, hm, hel => by
      obtain ⟨first, middle, rest, hfirst, hrest, rfl⟩ := fragmentsCode_cons h
      obtain ⟨hle, hlocals⟩ := numberedIn_fragmentCode hfirst
      obtain ⟨-, hlocals'⟩ := numberedIn_fragmentsCode hrest
      obtain ⟨d₁, ids₁, h₁⟩ := created_fragment hfirst hparent hp hm hel
      have hp₁ : d₁.receiver? parent = some p :=
        (Dom.receiver?_congr fun v hv => h₁.held v (hparent.not_mem hlocals v hv)).trans hp
      have hm₁ : d₁.nodes[p]? = some { m with children := m.children ++ ids₁ } := by
        rw [h₁.receiver, hm, Option.map_some]
      obtain ⟨d₂, ids₂, h₂⟩ := created_fragments hrest (hparent.mono hle) hp₁ hm₁ hel
      exact ⟨d₂, ids₁ ++ ids₂,
        h₁.append h₂ (List.getElem?_eq_some_iff.1 hm).1 (hlocals.disjoint hlocals')⟩

end

/-! ### Components -/

theorem diff_self (ids : List Nat) : ids.diff ids = [] := by
  induction ids with
  | nil => rfl
  | cons i ids ih => rw [List.diff_cons, List.erase_cons_head, ih]

/-- **Creating shows the markup, and destroying takes it back.**  A component is created in a target
without children.  All statements succeed; the target then has the markup of the document in it, and
nothing else about the target has changed.  Destroying after that succeeds as well: each node that is
removed is a child of its receiver at that time and each listener that is removed is there; the target is
then as it was, and on no node that was made is a listener left. -/
theorem generate_creates_and_destroys (options : Options) (d : Document) (a : Analysis) (g : Generated)
    (target : DomNode) (h : (d.generate options a).result = .ok g) (helement : target.isElement = true)
    (hchildless : target.children = []) :
    ∃ built ids, Dom.run g.create (.ofTarget target) = some built ∧
      built.nodes[0]? = some { target with children := ids } ∧ ids.Nodup ∧
      ShowsAll (.of options d.program? a) built 0 d.html ids ∧
      ∃ gone, Dom.run g.destroy built = some gone ∧ gone.nodes[0]? = some target ∧
        ∀ i n, 0 < i → gone.nodes[i]? = some n → n.listeners = [] := by
  obtain ⟨markup, hmarkup, hcreate, hdestroy, -⟩ := generate_eq_ok_parts h
  obtain ⟨⟨code, names⟩, hcode, hmarkup⟩ := exists_of_bind_eq_ok hmarkup
  obtain ⟨update, -, hmarkup⟩ := exists_of_bind_eq_ok hmarkup
  cases hmarkup
  obtain ⟨built, ids, hbuilt⟩ := created_fragments hcode (d := .ofTarget target) (nofun) rfl rfl helement
  have hids : built.nodes[0]? = some { target with children := ids } := by
    have hzero : (Dom.ofTarget target).nodes[0]? = some target := rfl
    rw [hbuilt.receiver, hzero, Option.map_some, hchildless, List.nil_append]
  obtain ⟨gone, hgone, hdestroyed⟩ := hbuilt.destroys built _ (fun _ _ _ => rfl) (fun _ _ => rfl) rfl hids
    (List.Subset.refl _)
  refine ⟨built, ids, ?_, hids, hbuilt.ascending.imp Nat.ne_of_lt, hbuilt.shown built fun _ _ _ => rfl,
    gone, ?_, ?_, fun i n hi hn => ?_⟩
  · rw [hcreate, hbuilt.runs]
  · rw [hdestroy, hgone]
  · obtain ⟨out, -, hall, htarget⟩ := hdestroyed.receiver
    rw [htarget, hids, hall rfl, Option.map_some, diff_self, ← hchildless]
  · by_cases hlt : i < built.nodes.length
    · exact hdestroyed.silent i n hi hlt hn
    · rw [hdestroyed.others i (by omega) (.inr (by omega)), List.getElem?_eq_none (by omega)] at hn
      cases hn

/-- An element with an attribute, a listener and a text that changes, behind a text of the target. -/
theorem generate_creates_and_destroys_button :
    ∃ d g, Document.parse ("<script>let n = 0</script>hi" ++
        "<b id=\"x\" on:click=\x7b() => n++\x7d><i>\x7bn\x7d</i></b>") "button" = .ok d ∧
      (d.generate .default (d.analyze .default).1).result = .ok g ∧ d.html.length = 2 ∧
      g.create.length = 11 ∧ g.destroy.length = 4 ∧
      ∃ built ids, Dom.run g.create (.ofTarget (.ofContent (.element "body"))) = some built ∧
        built.nodes[0]? = some ⟨.element "body", [], [], none, ids⟩ ∧ ids.Nodup ∧
        ShowsAll (.of .default d.program? (d.analyze .default).1) built 0 d.html ids ∧
        ∃ gone, Dom.run g.destroy built = some gone ∧
          gone.nodes[0]? = some ⟨.element "body", [], [], none, []⟩ ∧
          ∀ i n, 0 < i → gone.nodes[i]? = some n → n.listeners = [] := by
  have hrun : ((Document.parse ("<script>let n = 0</script>hi" ++
      "<b id=\"x\" on:click=\x7b() => n++\x7d><i>\x7bn\x7d</i></b>") "button").toOption.any fun d =>
      (d.generate .default (d.analyze .default).1).result.toOption.any fun g =>
        d.html.length == 2 && g.create.length == 11 && g.destroy.length == 4) = true := by
    decide +kernel
  obtain ⟨d, hd, hrun⟩ := (Option.any_eq_true _ _).1 hrun
  obtain ⟨g, hg, hrun⟩ := (Option.any_eq_true _ _).1 hrun
  rw [toOption_eq_some_iff] at hd hg
  simp only [Bool.and_eq_true, beq_iff_eq] at hrun
  exact ⟨d, g, hd, hg, hrun.1.1, hrun.1.2, hrun.2,
    generate_creates_and_destroys .default d _ g (.ofContent (.element "body")) hg rfl rfl⟩

end ReactiveTemplate

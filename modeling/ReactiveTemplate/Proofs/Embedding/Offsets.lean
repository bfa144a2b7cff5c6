/-
**Offsets in a piece of script lead back to the template.**

The tree of a piece of script addresses its text in bytes, and the template is addressed in characters.
The text of an expression has a parenthesis in front that the template does not hold, and a line feed and
a parenthesis behind.  Between these, a byte offset at which a character starts is the offset of the same
character in the template, whatever the sizes of the characters in front of it are; and the nodes of an
expression lie between these.

Main definitions:

* `ReactiveTemplate.Script.Source.Stands` — a part of a piece of script that stands in the template.

Main results:

* `ReactiveTemplate.Script.Source.Stands.cut` — what two offsets in that part cut out;
* `ReactiveTemplate.Script.embedded?_bounds` — an expression lies inside of what was added around it;
* `ReactiveTemplate.offsets_lead_back` — **expressions, nodes of a script and reports of circles are found
  in the template where their offsets say**.
-/

import ReactiveTemplate.Proofs.Circles
import ReactiveTemplate.Proofs.Embedding.LastTokens

set_option relaxedAutoImplicit false
set_option autoImplicit false

namespace ReactiveTemplate

/-! ### Boundaries in parts of a text -/

namespace Text

theorem eq_nil_of_byteLength_eq_zero {cs : List Char} (h : byteLength cs = 0) : cs = [] := by
  cases cs with
  | nil => rfl
  | cons x cs =>
      have := x.utf8Size_pos
      rw [byteLength_cons] at h
      omega

/-- Of two starts of a text, the one with fewer bytes is a start of the other one. -/
theorem exists_append_of_byteLength_le {a b a' b' : List Char} (h : a ++ b = a' ++ b')
    (hle : byteLength a ≤ byteLength a') : ∃ u, a' = a ++ u ∧ b = u ++ b' := by
  rcases List.append_eq_append_iff.1 h with ⟨u, rfl, rfl⟩ | ⟨u, rfl, rfl⟩
  · exact ⟨u, rfl, rfl⟩
  · have hu : u = [] := eq_nil_of_byteLength_eq_zero (by simp at hle; omega)
    exact ⟨[], by simp [hu], by simp [hu]⟩

/-- Starts of a text with the same number of bytes are the same. -/
theorem eq_of_byteLength_eq {a b a' b' : List Char} (h : a ++ b = a' ++ b')
    (heq : byteLength a = byteLength a') : a = a' := by
  obtain ⟨u, rfl, rfl⟩ := exists_append_of_byteLength_le h heq.le
  rw [byteLength_append] at heq
  rw [eq_nil_of_byteLength_eq_zero (show byteLength u = 0 by omega), List.append_nil]

/-- A boundary in a part of a text cuts that part. -/
theorem Boundary.cut {front inner behind : List Char} {b : Nat}
    (h : Boundary (front ++ (inner ++ behind)) b) (hfront : byteLength front ≤ b)
    (hinner : b ≤ byteLength front + byteLength inner) :
    ∃ u v, inner = u ++ v ∧ b = byteLength front + byteLength u := by
  obtain ⟨before, after, htext, rfl⟩ := h
  obtain ⟨u, rfl, hrest⟩ := exists_append_of_byteLength_le htext hfront
  rw [byteLength_append] at hinner ⊢
  obtain ⟨v, rfl, -⟩ := exists_append_of_byteLength_le hrest.symm (Nat.le_of_add_le_add_left hinner)
  exact ⟨u, v, rfl, rfl⟩

end Text

namespace Script

/-! ### Pieces of script in a template -/

/-- A part of the text of a piece of script that stands in the template: it starts behind what was added
in front, and in the template at the offset of the piece. -/
structure Source.Stands (content : List Char) (source : Source) (inner : List Char) : Prop where
  inText : ∃ front behind, source.text = front ++ (inner ++ behind) ∧
    Text.byteLength front = source.lead
  inTemplate : ∃ before after, content = before ++ (inner ++ after) ∧ before.length = source.offset

namespace Source.Stands

variable {content inner : List Char} {source : Source}

/-- What two offsets in the part cut out of it, and where that stands in the template. -/
theorem cut (h : source.Stands content inner) {a b : Nat} (ha : Text.Boundary source.text a)
    (hb : Text.Boundary source.text b) (hlead : source.lead ≤ a) (hab : a ≤ b)
    (hend : b ≤ source.lead + Text.byteLength inner) :
    ∃ u w v, inner = u ++ (w ++ v) ∧ b = a + Text.byteLength w ∧
      source.charOffset a = source.offset + u.length ∧
      source.charOffset b = source.offset + u.length + w.length ∧
      Text.byteSlice source.text a b = w ∧
      content.extract (source.charOffset a) (source.charOffset b) = w := by
  obtain ⟨⟨front, behind, htext, hfront⟩, before, after, rfl, hbefore⟩ := h
  -- an offset behind a start of the part is the number of its characters
  have hoffset : ∀ {x y : List Char}, inner = x ++ y →
      source.charOffset (source.lead + Text.byteLength x) = source.offset + x.length := by
    rintro x y rfl
    have hle : source.lead + Text.byteLength x ≤ Text.byteLength source.text := by
      rw [htext, ← hfront]
      simp only [Text.byteLength_append]
      omega
    rw [Source.charOffset, Nat.min_eq_left hle, Nat.max_eq_right (Nat.le_add_right _ _),
      Nat.add_sub_cancel_left, htext, ← hfront, Text.dropBytes_append, List.append_assoc,
      Text.charsBefore_append]
  rw [htext] at ha hb
  obtain ⟨u, v, rfl, rfl⟩ := ha.cut (hfront ▸ hlead) (by rw [hfront]; omega)
  have hb' : Text.Boundary ((front ++ u) ++ (v ++ behind)) b := by simpa using hb
  obtain ⟨w, v, rfl, rfl⟩ := hb'.cut (by simpa using hab) (by
    rw [← hfront] at hend
    simp only [Text.byteLength_append] at hend ⊢
    omega)
  have hstart := hoffset (x := u) (y := w ++ v) rfl
  have hstop := hoffset (x := u ++ w) (y := v) (by simp)
  rw [hfront]
  rw [Text.byteLength_append, List.length_append, ← Nat.add_assoc, ← Nat.add_assoc] at hstop
  rw [Text.byteLength_append, hfront]
  refine ⟨u, w, v, rfl, rfl, hstart, hstop, ?_, ?_⟩
  · have hcut := Text.byteSlice_append (front ++ u) w (v ++ behind)
    rw [Text.byteLength_append, hfront] at hcut
    rw [htext]
    simpa using hcut
  · rw [hstart, hstop, ← hbefore]
    simp

end Source.Stands

/-! ### Expressions -/

/-- A punctuator takes the characters of its name. -/
theorem Token.take_of_punctuator {cs : List Char} {w : String}
    (h : (Token.ofChars cs).1 = .punctuator w) : cs.take (Token.ofChars cs).2 = w.toList := by
  have hfind : ∀ {p : String × Nat}, punctuator? cs = some p → cs.take p.2 = p.1.toList := by
    intro p hp
    unfold punctuator? at hp
    split at hp
    · split at hp <;> cases hp <;> rfl
    · obtain ⟨q, hq, rfl⟩ := Option.map_eq_some_iff.1 hp
      have hall : ∀ q ∈ punctuators, q.2 = q.1.toList := by decide
      have hpre := List.find?_some hq
      rw [← List.prefix_iff_eq_take.1 (List.isPrefixOf_iff_prefix.1 hpre)]
      exact hall q (List.mem_of_find?_eq_some hq)
  unfold Token.ofChars at h ⊢
  split
  · cases h
  · dsimp only at h ⊢
    split at h
    · cases h
    · next hword =>
        rw [if_neg hword]
        split at h
        · unfold numberToken at h
          split at h <;> cases h
        · next hnumber =>
            rw [if_neg hnumber]
            split at h
            · cases h
            · next hquote =>
                rw [if_neg hquote]
                split at h
                · cases h
                · next hback =>
                    rw [if_neg hback]
                    split at h
                    · split at h <;> cases h
                    · next hsign =>
                        rw [if_neg hsign]
                        split at h
                        · next hp =>
                            cases h
                            exact hfind hp
                        · cases h

variable {slice : List Char} {offset : Nat} {e : Embedded}

/-- The list that makes an expression has a last part that no comma follows. -/
theorem groupValue?_closed {parts : List (Node × Bool)} {inner : Node}
    (h : groupValue? parts = some inner) : parts.getLast?.map Prod.snd = some false := by
  unfold groupValue? at h
  dsimp only at h
  split at h
  · next hclosed =>
      simp only [Bool.and_eq_true, beq_iff_eq] at hclosed
      exact hclosed.1.1
  · cases h

/-- An expression lies behind the parenthesis that was put in front, and before the line feed that was put
behind. -/
theorem embedded?_bounds (h : embedded? slice offset = some e) :
    1 ≤ e.node.start ∧ e.node.stop ≤ 1 + Text.byteLength slice := by
  obtain ⟨parts, c, inner, hparts, hstop, hinner, rfl⟩ := embedded?_eq_some_iff.1 h
  obtain ⟨-, d, hrounds, hclose, rfl⟩ := groupParts_eq_some_iff.1 hparts
  rw [ofText_wrapped, wrapped, Token.ofChars_opening, ← wrapped] at hrounds
  have hopen : (Cursor.ofText (wrapped slice)).In (wrapped slice) := .ofText _
  rw [ofText_wrapped] at hopen
  generalize hs : (⟨⟨wrapped slice, 0, false, []⟩, 0, wrapped slice⟩ : Cursor) = s at hrounds hopen
  have hfirst : 1 ≤ (s.take 1).pos := by
    have hlt := Cursor.pos_lt_stop_take Nat.one_ne_zero (show s.rest ≠ [] by rw [← hs]; simp [wrapped])
    exact Nat.lt_of_le_of_lt (Nat.zero_le _) hlt |>.trans_le (hopen.take 1).mem.stop_le_pos
  have hpassage := groupRounds_reads (.ofDepth _) _ _ (hopen.take 1).mem _ _ hrounds
  obtain ⟨hstart, -, hend⟩ := Node.placedIn_singleton.1 (hpassage.groupValue hinner).placed
  have htight := groupRounds_tight (.ofDepth _) (hopen.take 1).mem _ _ hrounds (groupValue?_closed hinner)
  -- the parenthesis that closes the list is the last character of the text
  have hpos : d.pos = 1 + Text.byteLength slice + 1 := by
    have hlast : (d.take (Token.ofChars d.rest).2).stop = d.pos + 1 := by
      change d.pos + Text.byteLength (d.rest.take (Token.ofChars d.rest).2) = _
      rw [Token.take_of_punctuator hclose]
      rfl
    rw [hlast] at hstop
    simp only [wrapped, Text.byteLength_cons, Text.byteLength_append, Text.byteLength_nil] at hstop
    have hsizes : '('.utf8Size = 1 ∧ '\n'.utf8Size = 1 ∧ ')'.utf8Size = 1 := by decide
    omega
  have hfeed : d.stop ≠ d.pos := by
    obtain ⟨before, x, after, htext, hlast, hx⟩ := htight.last
    intro hsame
    have hcut : (before ++ [x]) ++ after = ('(' :: slice ++ ['\n']) ++ [')'] := by
      rw [List.append_assoc, List.singleton_append, ← htext]
      simp [wrapped]
    have heq := Text.eq_of_byteLength_eq hcut (by
      rw [hlast, hsame, hpos]
      have hsizes : '('.utf8Size = 1 ∧ '\n'.utf8Size = 1 := by decide
      simp [hsizes, Nat.add_assoc])
    exact hx (List.append_inj' heq rfl |>.2 |> List.singleton_inj.1)
  have hle := htight.stop_le_pos
  rw [groupEmbedded, Node.start_numberFrom, Node.stop_numberFrom]
  omega

/-- The text of an expression stands in the template in front of the brace that closes it. -/
theorem stands_of_embedded? {content next : List Char} {pos : Nat}
    (h : embedded? slice pos = some e) (hcontent : content.drop pos = slice ++ '}' :: next) :
    e.Stands content slice := by
  obtain ⟨parts, c, inner, -, -, -, rfl⟩ := embedded?_eq_some_iff.1 h
  have hpos : pos ≤ content.length := by
    by_contra hlt
    rw [List.drop_eq_nil_of_le (by omega)] at hcontent
    simp at hcontent
  refine ⟨⟨['('], ['\n', ')'], rfl, rfl⟩, content.take pos, '}' :: next, ?_, ?_⟩
  · rw [← hcontent, List.take_append_drop]
  · exact List.length_take_of_le hpos

/-! ### Scripts -/

theorem Source.boundaries_ofScript? {text : List Char} {source : Source}
    (h : Source.ofScript? text offset = some source) {n : Node} (hn : n ∈ source.root.walk) :
    Text.Boundary text n.start ∧ Text.Boundary text n.stop ∧ n.start ≤ n.stop ∧
      (n.kind ≠ .program → n.start < n.stop) := by
  obtain ⟨root, hroot, rfl⟩ := Option.map_eq_some_iff.1 h
  obtain ⟨hkind, hstart, hle, hstop, hplaced⟩ := parseProgram?_placed hroot
  rw [Node.walk_eq, List.mem_cons] at hn
  rcases hn with rfl | hn
  · exact ⟨hstart, ⟨text, [], by simp, hstop.symm⟩, hle, fun hne => absurd hkind hne⟩
  · have hn := Node.PlacedIn.of_mem_walkAll hplaced hn
    exact ⟨hn.boundary_start, hn.boundary_stop, hn.start_lt_stop.le, fun _ => hn.start_lt_stop⟩

/-- A script block stands in the template from its start on. -/
theorem Source.stands_ofScript? {content text before after : List Char} {source : Source}
    (h : Source.ofScript? text before.length = some source)
    (hcontent : content = before ++ (text ++ after)) :
    source.Stands content text ∧ source.text = text ∧ source.lead = 0 := by
  obtain ⟨root, -, rfl⟩ := Option.map_eq_some_iff.1 h
  exact ⟨⟨⟨[], [], by simp, rfl⟩, before, after, hcontent, rfl⟩, rfl, rfl⟩

/-- What a node of a script block cuts out of the template. -/
theorem Source.cut_ofScript? {content text before after : List Char} {source : Source}
    (h : Source.ofScript? text before.length = some source)
    (hcontent : content = before ++ (text ++ after)) {n : Node} (hn : n ∈ source.root.walk) :
    ∃ u w v, text = u ++ (w ++ v) ∧ n.stop = n.start + Text.byteLength w ∧
      source.charOffset n.start = before.length + u.length ∧
      Text.byteSlice source.text n.start n.stop = w ∧
      content.extract (source.charOffset n.start) (source.charOffset n.stop) = w := by
  obtain ⟨hstands, htext, hlead⟩ := Source.stands_ofScript? h hcontent
  obtain ⟨hstart, hstop, hle, -⟩ := Source.boundaries_ofScript? h hn
  have hend := hstop.le_byteLength
  have hoffset : source.offset = before.length := by
    obtain ⟨root, -, rfl⟩ := Option.map_eq_some_iff.1 h
    rfl
  obtain ⟨u, w, v, hcut, hsize, hfirst, -, hslice, hextract⟩ :=
    hstands.cut (htext.symm ▸ hstart) (htext.symm ▸ hstop) (by omega) hle (by omega)
  exact ⟨u, w, v, hcut, hsize, by rw [hfirst, hoffset], hslice, hextract⟩

end Script

open Script

/-! ### Reports of circles -/

/-- The script of a template stands in it where it was read. -/
theorem exists_script_of_parse {template filename : String} {d : Document} {s : ScriptBlock}
    (hd : Document.parse template filename = .ok d) (hs : d.script = some s) :
    ∃ before body after, template.toList = before ++ (body ++ after) ∧
      Source.ofScript? body before.length = some s.program := by
  rcases (Document.derives_of_parse hd).content.exists_script hs with hnone | ⟨before, body, after, htext, hread, -⟩
  · cases hnone
  · exact ⟨before, body, after, htext, by simpa using hread⟩

/-- The position of an offset inside the text is not moved. -/
theorem Position.ofOffset_of_le {text : String} {k : Nat} (h : k ≤ text.toList.length) (file : String) :
    Position.ofOffset text k file = ⟨file, Text.lineOf text.toList k, Text.columnOf text.toList k, k⟩ := by
  simp [Position.ofOffset, Nat.min_eq_left h]

/-- A circle that compilation reports: declarations of the script, each of which writes a name that the next
one reads, known by the first names that they write.  The report is placed at the first one. -/
structure ReportedCircle (options : Options) (d : Document) (circle : List ReactiveDeclaration)
    (names : List String) : Prop where
  declared : ∀ c ∈ circle, c ∈ (d.analyze options).1.reactive
  two_le : 2 ≤ circle.length
  around : Cyclically (fun c c' => ∃ name ∈ c.assignees, name ∈ c'.dependencies) circle
  named : ∃ shown : List String, (circle.map fun c => c.assignees.head?) = shown.map some ∧
    names = shown ++ shown.take 1

theorem exists_reportedCircle {options : Options} {template : String} {names : List String}
    {position : Option Position}
    (h : compile options template = .error (.ungenerated (.cyclic names position))) :
    ∃ d s circle first, Document.parse template options.filename = .ok d ∧ d.script = some s ∧
      ReportedCircle options d circle names ∧ circle.head? = some first ∧
      position = some (.ofOffset template (s.program.charOffset first.node.start) options.filename) := by
  obtain ⟨-, d, hd, herror⟩ := compile_eq_ungenerated_iff.1 h
  have hsound := (Session.Sound.start hd).analyze options
  have hderives := Document.derives_of_parse hd
  rcases (hsound.generate_cases (a := (d.analyze options).1) rfl options).2 with
    ⟨g, ordered, hok, -⟩ | ⟨places, hcircle, hcycle, -⟩
  · cases hok.symm.trans herror
  · obtain ⟨circle, hmap⟩ := hcircle.exists_declarations
    have hlength : places.length = circle.length := by simpa using congrArg List.length hmap
    have htwo : 2 ≤ circle.length := hlength ▸ hcircle.two_le_length
    obtain ⟨first, hfirst⟩ : ∃ first, circle.head? = some first :=
      ⟨_, List.head?_eq_some_head (List.length_pos_iff.1 (Nat.lt_of_lt_of_le Nat.zero_lt_two htwo))⟩
    have hdeclared : ∀ c ∈ circle, c ∈ (d.analyze options).1.reactive := by
      intro c hc
      have hmem : some c ∈ places.map fun i => (d.analyze options).1.reactive[i]? := by
        rw [hmap]
        exact List.mem_map_of_mem hc
      obtain ⟨i, -, hi⟩ := List.mem_map.1 hmem
      exact List.mem_of_getElem? hi
    rw [cycleError_eq hmap hfirst] at hcycle
    obtain ⟨rfl, rfl⟩ := GenerationError.cyclic.inj (Except.error.inj (hcycle.symm.trans herror))
    cases hs : d.script with
    | none =>
        -- without a script there is no declaration
        have hmem := hdeclared first (List.mem_of_head? hfirst)
        rw [(collects_analyze options d).reactive, Document.scriptAnalysis, hs] at hmem
        cases hmem
    | some s =>
        refine ⟨d, s, circle, first, hd, hs, ⟨hdeclared, htwo, hcircle.cyclically_declarations hmap, _,
          hcircle.head?_assignees hmap, rfl⟩, hfirst, ?_⟩
        -- neither analysis nor generation changes the program, the name or the text of a template
        have hprogram : ((d.analyze options).2.announced (d.analyze options).1).program? = some s.program := by
          simp only [Document.program?, Document.announced, Document.analyze, hs, Option.map_some]
          rfl
        change ((d.analyze options).2.announced (d.analyze options).1).program?.map _ = _
        rw [hprogram, Option.map_some, ← hderives.source_eq, ← hderives.filename_eq]
        rfl

/-- The assignment of a declaration stands in the script. -/
theorem node_of_mem_reactive {options : Options} {template : String} {d : Document} {s : ScriptBlock}
    {c : ReactiveDeclaration} (hd : Document.parse template options.filename = .ok d)
    (hs : d.script = some s) (hc : c ∈ (d.analyze options).1.reactive) :
    c.node ∈ s.program.root.walk ∧ c.node.kind.isAssignment = true := by
  obtain ⟨text, offset, -, hreactive⟩ := reactive_analyze_of_parse hd hs
  rw [hreactive] at hc
  have hnode := List.mem_map_of_mem (f := ReactiveDeclaration.node) hc
  rw [map_node_reactiveDeclarations, List.mem_filterMap] at hnode
  obtain ⟨statement, hstatement, hassignment⟩ := hnode
  refine ⟨?_, (reactiveAssignment?_eq_some_iff.1 hassignment).assignment⟩
  rw [Node.walk_eq]
  exact List.mem_cons_of_mem _ (Node.mem_walkAll.2 ⟨_, hstatement, mem_walk_of_reactiveAssignment? hassignment⟩)

/-! ### The result -/

/-- **Offsets lead back to the template.**  An expression that is read at a position lies between that position
and the brace that closes it, and the template holds its text between its offsets.  So it does for every node of
a script block.  A circle is reported at the first character of the assignment of its first declaration. -/
theorem offsets_lead_back :
    (∀ (content : List Char) (pos : Nat) (e : Embedded) (stop : Nat),
      parseEmbedded (content.drop pos) pos = .ok (e, stop) →
        pos ≤ e.charOffset e.node.start ∧ e.charOffset e.node.start < e.charOffset e.node.stop ∧
        e.charOffset e.node.stop ≤ stop ∧
        content.extract (e.charOffset e.node.start) (e.charOffset e.node.stop) = e.source.toList) ∧
    (∀ (content : List Char) (start stop : Nat) (source : Source),
      Source.ofScript? (content.extract start stop) start = some source → ∀ n ∈ source.root.walk,
        content.extract (source.charOffset n.start) (source.charOffset n.stop) = (source.slice n).toList) ∧
    ∀ (options : Options) (template : String) (names : List String) (position : Option Position),
      compile options template = .error (.ungenerated (.cyclic names position)) →
      ∃ d s circle first, Document.parse template options.filename = .ok d ∧ d.script = some s ∧
        ReportedCircle options d circle names ∧ first ∈ circle ∧ first.node ∈ s.program.root.walk ∧
        first.node.kind.isAssignment = true ∧ s.program.slice first.node ≠ "" ∧
        ∃ k, k = s.program.charOffset first.node.start ∧
          (s.program.slice first.node).toList <+: template.toList.drop k ∧
          position = some
            ⟨options.filename, Text.lineOf template.toList k, Text.columnOf template.toList k, k⟩ := by
  refine ⟨?_, ?_, ?_⟩
  · intro content pos e stop h
    obtain ⟨slice, next, hcontent, rfl, he⟩ := parseEmbedded_eq_ok h
    obtain ⟨hstart, hstop⟩ := embedded?_bounds he
    have hplaced := placed_embedded? he
    have hlead : e.lead = 1 := by
      obtain ⟨parts, c, inner, -, -, -, rfl⟩ := embedded?_eq_some_iff.1 he
      rfl
    obtain ⟨u, w, v, hcut, hsize, hfirst, hlast, hslice, hextract⟩ :=
      (stands_of_embedded? he hcontent).cut hplaced.boundary_start hplaced.boundary_stop (by omega)
        hplaced.start_lt_stop.le (by omega)
    have hw : w ≠ [] := by
      rintro rfl
      have := hplaced.start_lt_stop
      simp at hsize
      omega
    have hpos := List.length_pos_iff.2 hw
    have hlength : slice.length = u.length + (w.length + v.length) := by simp [hcut]
    have hoffset := offset_embedded? he
    refine ⟨by omega, by omega, by omega, ?_⟩
    rw [hextract, Embedded.source, Source.slice, String.toList_ofList, hslice]
  · intro content start stop source h n hn
    rw [Source.slice, String.toList_ofList]
    by_cases hstart : start ≤ content.length
    · have hbefore : (content.take start).length = start := List.length_take_of_le hstart
      have hcontent : content =
          content.take start ++ (content.extract start stop ++ (content.drop start).drop (stop - start)) := by
        rw [List.extract_eq_take_drop, List.take_append_drop, List.take_append_drop]
      obtain ⟨u, w, v, -, -, -, hslice, hextract⟩ :=
        Source.cut_ofScript? (hbefore.symm ▸ h) hcontent hn
      rw [hextract, hslice]
    · -- behind the end of the text there is nothing to read
      have hnone : content.extract start stop = [] := by
        rw [List.extract_eq_take_drop, List.drop_eq_nil_of_le (by omega), List.take_nil]
      rw [hnone] at h
      obtain ⟨root, -, rfl⟩ := Option.map_eq_some_iff.1 h
      rw [List.extract_eq_take_drop, List.drop_eq_nil_of_le (by simp [Source.charOffset]; omega), List.take_nil]
      rfl
  · intro options template names position h
    obtain ⟨d, s, circle, first, hd, hs, hcircle, hfirst, rfl⟩ := exists_reportedCircle h
    have hmem := List.mem_of_head? hfirst
    obtain ⟨hwalk, hassignment⟩ := node_of_mem_reactive hd hs (hcircle.declared first hmem)
    obtain ⟨before, body, after, htemplate, hread⟩ := exists_script_of_parse hd hs
    obtain ⟨u, w, v, rfl, hsize, hoffset, hslice, -⟩ := Source.cut_ofScript? hread htemplate hwalk
    have hlt : first.node.start < first.node.stop := by
      refine (Source.boundaries_ofScript? hread hwalk).2.2.2 fun hkind => ?_
      rw [hkind] at hassignment
      cases hassignment
    have hdrop : template.toList.drop (s.program.charOffset first.node.start) = w ++ (v ++ after) := by
      rw [htemplate, hoffset]
      simp
    refine ⟨d, s, circle, first, hd, hs, hcircle, hmem, hwalk, hassignment, ?_, _, rfl, ?_, ?_⟩
    · rw [Source.slice, hslice]
      intro hempty
      have hw : w = [] := String.ofList_injective hempty
      rw [hw, Text.byteLength_nil] at hsize
      omega
    · rw [Source.slice, String.toList_ofList, hslice, hdrop]
      exact List.prefix_append w _
    · rw [Position.ofOffset_of_le (by rw [htemplate, hoffset]; simp)]

/-- Letters of two bytes stand in front of an expression, of a name of a script and of a circle. -/
theorem offsets_lead_back_behind_wide_letters :
    (∃ e stop, parseEmbedded ("ä\x7b ö + x \x7d".toList.drop 2) 2 = .ok (e, stop) ∧ e.source = "ö + x" ∧
      "ä\x7b ö + x \x7d".toList.extract (e.charOffset e.node.start) (e.charOffset e.node.stop) = "ö + x".toList) ∧
    (∃ source, Source.ofScript? ("ä let ö = ü;".toList.extract 2 12) 2 = some source ∧
      ∃ n ∈ source.root.walk, source.slice n = "ü" ∧
        "ä let ö = ü;".toList.extract (source.charOffset n.start) (source.charOffset n.stop) = "ü".toList) ∧
    ∃ names k, compile .default "ä<script>$: a = b; $: b = a</script>" =
        .error (.ungenerated (.cyclic names (some ⟨Options.default.filename,
          Text.lineOf "ä<script>$: a = b; $: b = a</script>".toList k,
          Text.columnOf "ä<script>$: a = b; $: b = a</script>".toList k, k⟩))) ∧
      ∃ assignment : List Char, assignment ≠ [] ∧
        assignment <+: "ä<script>$: a = b; $: b = a</script>".toList.drop k := by
  obtain ⟨hexpression, hscript, hcircle⟩ := offsets_lead_back
  refine ⟨?_, ?_, ?_⟩
  · have hrun : ((parseEmbedded ("ä\x7b ö + x \x7d".toList.drop 2) 2).toOption.any fun r =>
        r.1.source == "ö + x") = true := by decide +kernel
    obtain ⟨⟨e, stop⟩, hparse, hsource⟩ := (Option.any_eq_true _ _).1 hrun
    have hparse := toOption_eq_some_iff.1 hparse
    have hsource : e.source = "ö + x" := beq_iff_eq.1 hsource
    exact ⟨e, stop, hparse, hsource, hsource ▸ (hexpression _ _ e stop hparse).2.2.2⟩
  · have hrun : ((Source.ofScript? ("ä let ö = ü;".toList.extract 2 12) 2).any fun source =>
        source.root.walk.any fun n => source.slice n == "ü") = true := by decide +kernel
    obtain ⟨source, hread, hany⟩ := (Option.any_eq_true _ _).1 hrun
    obtain ⟨n, hn, hslice⟩ := List.any_eq_true.1 hany
    have hslice := beq_iff_eq.1 hslice
    exact ⟨source, hread, n, hn, hslice, hslice ▸ hscript _ _ _ source hread n hn⟩
  · have hrun : ((Document.parse "ä<script>$: a = b; $: b = a</script>" Options.default.filename).toOption.any fun d =>
        (runningOrder ((d.analyze .default).1.reactive.map ReactiveDeclaration.toDependent)).toOption.isNone) =
          true := by decide +kernel
    obtain ⟨d, hd, horder⟩ := (Option.any_eq_true _ _).1 hrun
    have hd := toOption_eq_some_iff.1 hd
    have hcyclic : Cyclic ((d.analyze .default).1.reactive.map ReactiveDeclaration.toDependent) := by
      rcases runningOrder_cases ((d.analyze .default).1.reactive.map ReactiveDeclaration.toDependent) with
        ⟨order, hok, -⟩ | ⟨places, -, hplaces⟩
      · rw [hok] at horder
        cases horder
      · exact hplaces.cyclic
    obtain ⟨names, position, herror⟩ := (generate_eq_cyclic_iff hd).2 hcyclic
    have hcompile := compile_eq_ungenerated_iff.2 ⟨rfl, d, hd, herror⟩
    obtain ⟨d, s, -, first, -, -, -, -, -, -, hslice, k, -, hstart, rfl⟩ := hcircle _ _ _ _ hcompile
    refine ⟨names, k, hcompile, (s.program.slice first.node).toList, fun hempty => hslice ?_, hstart⟩
    rw [← String.ofList_toList (s := s.program.slice first.node), hempty]

end ReactiveTemplate

import ChantSearch.Proofs.Rendering.Relocation

/-!
# Queries put together

A text that is a query can stand in front of another, with a blank or a connective between them,
or in parentheses. Each part is read there as it was read alone, and the components of the whole
are those of its parts with the new markers between them.
-/

namespace ChantSearch.Proofs
open Query

variable {raw u w : String} {tree tu tw : Tree} {c d e f : Cursor} {rest : List Char}

lemma not_textContinues_blanks {word : List Char} (hword : ∀ x ∈ word, isBlank x = true)
    (hrest : ¬TextContinues rest) : ¬TextContinues (word ++ rest) := by
  rw [not_textContinues_iff] at *
  constructor
  · exact stops_append (fun x hx => isBlank_apart _ (by decide) (hword x hx)) hrest.1
  · exact stops_append (fun x hx => isBlank_apart (· == '"') (by decide) (hword x hx)) hrest.2

/-- A query is a list of terms between blanks wherever it stands and nothing continues it. -/
lemma DerivesQuery.placed (h : DerivesQuery raw tree) (hc : c.rest = raw.toList ++ rest)
    (hrest : ¬TextContinues rest) :
    ∃ nodes d e f, Blanks c d ∧ Derives d (.termList nodes) e ∧ Blanks e f ∧
      Reads c raw.toList f ∧ f.rest = rest ∧ Node.shape nodes = Node.shape tree := by
  obtain ⟨before, word, after, _, _, hbefore, hafter, hraw, hlist, hword, _⟩ := h.parts
  have hfront : c.rest = before ++ (word ++ (after ++ rest)) := by simp [hc, hraw]
  obtain ⟨d, hd, hdrest⟩ := exists_reads hfront
  obtain ⟨nodes, e, hnodes, herest, hshape⟩ :=
    hlist.moved hword hdrest (not_textContinues_blanks hafter hrest)
  obtain ⟨f, hf, hfrest⟩ := exists_reads herest
  refine ⟨nodes, d, e, f, ⟨before, hbefore, hd⟩, hnodes, ⟨after, hafter, hf⟩, ?_, hfrest, hshape⟩
  obtain ⟨word', hword'⟩ := hnodes.reaches
  have hwhole := hd.append (hword'.append hf)
  have hsame : before ++ (word' ++ after) = raw.toList := by
    have hrest' := hwhole.rest
    rw [hc, hfrest] at hrest'
    exact (List.append_cancel_right hrest').symm
  rwa [hsame] at hwhole

/-- What is put between two queries. -/
def spaced (k? : Option Connective) : String :=
  k?.elim " " fun k => " " ++ k.toString ++ " "

lemma separator_spaced {k? : Option Connective} {g : Cursor} (hbefore : Blanks c d)
    (h : Reads d (spaced k?).toList e) (hafter : Blanks e g) : Separator c k? g := by
  cases k? with
  | none =>
    obtain ⟨before, hbefore, hc⟩ := hbefore
    obtain ⟨after, hafter, he⟩ := hafter
    refine .blanks (by simp [spaced]) (fun x hx => ?_) (hc.append (h.append he))
    simp only [List.mem_append] at hx
    rcases hx with hx | hx | hx
    · exact hbefore x hx
    · obtain rfl : x = ' ' := by simpa [spaced] using hx
      decide
    · exact hafter x hx
  | some k =>
    have hparts : (spaced (some k)).toList = [' '] ++ (k.toString.toList ++ [' ']) := by
      simp [spaced]
    rw [hparts] at h
    obtain ⟨i, hfirst, h⟩ := h.split
    obtain ⟨j, hword, hlast⟩ := h.split
    have hend : ¬WordContinues j.rest :=
      not_wordContinues_iff.mpr (hlast.stops (by decide))
    exact .connective (.trans hbefore (hfirst.blanks (by decide))) (hword.operator hend)
      (.trans (hlast.blanks (by decide)) hafter)

lemma not_textContinues_spaced (k? : Option Connective) (rest : List Char) :
    ¬TextContinues ((spaced k?).toList ++ rest) := by
  cases k? <;> simpa [spaced] using not_textContinues_blank _

/-- Two queries with a blank or a connective between them are a query. -/
lemma DerivesQuery.joined (hu : DerivesQuery u tu) (hw : DerivesQuery w tw)
    (k? : Option Connective) :
    ∃ tree, DerivesQuery (u ++ spaced k? ++ w) tree ∧
      Node.shape tree = Node.shape tu ++ (k?.toList.map .connective ++ Node.shape tw) := by
  have hstart : (Cursor.ofString (u ++ spaced k? ++ w)).rest =
      u.toList ++ ((spaced k?).toList ++ (w.toList ++ [])) := by
    simp [Cursor.ofString]
  obtain ⟨ns, c, d, e, hbefore, hns, hmiddle, _, he, hshape⟩ :=
    hu.placed hstart (not_textContinues_spaced k? _)
  obtain ⟨f, hread, hf⟩ := exists_reads he
  obtain ⟨ms, g, h, i, hmiddle', hms, hafter, _, hi, hshape'⟩ := hw.placed hf not_textContinues_nil
  have hlist := hns.joined (separator_spaced hmiddle hread hmiddle') hms
  refine ⟨_, .query hbefore hlist hafter hi, ?_⟩
  rw [shape_append, shape_append, hshape, hshape']
  cases k? <;> rfl

/-- The text of a term whose value is the query in parentheses. -/
def parenthesised (head : Head Unit) (raw : String) : String :=
  String.ofList (signChars head ++ fieldChars head) ++ "(" ++ raw ++ ")"

lemma DerivesQuery.parenthesised (h : DerivesQuery raw tree) {head : Head Unit}
    (hhead : WellFormedHead head "(") :
    ∃ whole, DerivesQuery (parenthesised head raw) whole ∧
      Node.shape whole = [.group head (Node.shape tree)] := by
  have hstart : (Cursor.ofString (Proofs.parenthesised head raw)).rest =
      (signChars head ++ (fieldChars head ++ ['('])) ++ (raw.toList ++ [')']) := by
    simp [Cursor.ofString, Proofs.parenthesised]
  obtain ⟨c, hread, hc⟩ := exists_reads hstart
  obtain ⟨d, hsign, hread⟩ := hread.split
  obtain ⟨e, hfield, hopen⟩ := hread.split
  obtain ⟨nodes, f, g, h, hbefore, hnodes, hafter, _, hh, hshape⟩ :=
    h.placed hc (not_textContinues_parenthesis [])
  have hclose : Reads h [')'] (h.past [')'] []) := reads_past hh
  have hgroup : Derives e (.group nodes) (h.past [')'] []) :=
    .group hopen hbefore hnodes hafter hclose
  have hterm := derives_term (v := .group nodes) hhead hsign hfield (.groupedTermList hgroup)
  refine ⟨_, .query ⟨[], by simp, .nil _⟩ (.termList hterm (.lastTerm _)) ⟨[], by simp, .nil _⟩ rfl,
    ?_⟩
  simp only [Value.toNode, Node.shape, Node.mapList, Node.map, Head.map] at hshape ⊢
  rw [hshape]

lemma not_isKeyword_parenthesis : ¬IsKeyword "(" := by
  have hparenthesis : ("(" : String).toList = ['('] := rfl
  exact not_isKeyword_of_begins hparenthesis (by decide)

lemma wellFormedHead_of_field {head : Head Unit}
    (hfield : ∀ name ∈ head.field?, FieldName name.toList ∧ ¬IsKeyword name) :
    WellFormedHead head "(" := by
  refine ⟨fun name hname => (hfield name hname).1, fun _ => ?_⟩
  cases hname : head.field? with
  | none => exact not_isKeyword_parenthesis
  | some name => exact (hfield name hname).2

/-- Components between parentheses. -/
def enclosed (cs : List Component) : List Component :=
  .marker .opening :: (cs ++ [.marker .closing])

lemma DerivesQuery.parse_shape {shape : Shape} (h : DerivesQuery raw tree)
    (hshape : Node.shape tree = shape) (hdepth : Node.depthList shape ≤ maxDepth) :
    ∃ tree, parse raw = .ok tree ∧ flatten tree = flatten shape := by
  refine ⟨tree, h.parse_eq ?_, ?_⟩
  · rwa [← hshape, Node.shape, depthList_mapList] at hdepth
  · rw [← hshape, Node.shape, flatten_mapList]

lemma parse_joined (hu : parse u = .ok tu) (hw : parse w = .ok tw) (k? : Option Connective) :
    ∃ tree, parse (u ++ spaced k? ++ w) = .ok tree ∧
      flatten tree = flatten tu ++ k?.toList.map (.marker ∘ .connective) ++ flatten tw := by
  obtain ⟨tree, htree, hshape⟩ := (derivesQuery_of_parse hu).joined (derivesQuery_of_parse hw) k?
  have hdepthU := depth_of_parse hu
  have hdepthW := depth_of_parse hw
  obtain ⟨tree, hparse, hflatten⟩ := htree.parse_shape hshape (by
    rw [depthList_append, depthList_append, depthList_connective, Node.shape, Node.shape,
      depthList_mapList, depthList_mapList]
    omega)
  refine ⟨tree, hparse, ?_⟩
  rw [hflatten, flatten_append, flatten_append, Node.shape, Node.shape, flatten_mapList,
    flatten_mapList]
  cases k? <;> simp [flatten, Node.components]

lemma parse_parenthesised (hu : parse u = .ok tu) (hdepth : Node.depthList tu < maxDepth)
    (head : Head Unit)
    (hfield : ∀ name ∈ head.field?, FieldName name.toList ∧ ¬IsKeyword name) :
    ∃ tree, parse (parenthesised head u) = .ok tree ∧
      flatten tree = head.signMarker ++ head.scope ++ enclosed (flatten tu) := by
  obtain ⟨tree, htree, hshape⟩ :=
    (derivesQuery_of_parse hu).parenthesised (wellFormedHead_of_field hfield)
  obtain ⟨tree, hparse, hflatten⟩ := htree.parse_shape hshape (by
    simpa [Node.depthList, Node.depth, Node.shape, depthList_mapList] using hdepth)
  refine ⟨tree, hparse, ?_⟩
  simp [hflatten, flatten, Node.components, Node.shape, flatten_mapList, enclosed]

/-- Two accepted queries with a connective between blanks, or a blank alone, between them are
accepted, with the components of both in a row and the connective between them. In parentheses, with
or without a sign in front of them, a query whose groups nest at most 31 deep is accepted as a group
with its components; behind a colon and any name that is not a keyword it is the group of that
field. -/
theorem queries_compose (u w : String) (tu tw : Tree) (hu : parse u = .ok tu)
    (hw : parse w = .ok tw) :
    (∀ k : Connective, ∃ tree, parse (u ++ " " ++ k.toString ++ " " ++ w) = .ok tree ∧
      flatten tree = flatten tu ++ .marker (.connective k) :: flatten tw) ∧
    (∃ tree, parse (u ++ " " ++ w) = .ok tree ∧ flatten tree = flatten tu ++ flatten tw) ∧
    (Node.depthList tu ≤ 31 →
      (∃ tree, parse ("(" ++ u ++ ")") = .ok tree ∧ flatten tree = enclosed (flatten tu)) ∧
      (∀ s : Sign, ∃ tree, parse (s.toString ++ "(" ++ u ++ ")") = .ok tree ∧
        flatten tree = .marker (.sign s) :: enclosed (flatten tu)) ∧
      ∀ name : String, name ≠ "" → (∀ x ∈ name.toList, x.isAlpha = true ∨ x = '_') →
        name ≠ "AND" → name ≠ "OR" → name ≠ "NOT" →
        ∃ tree, parse (name ++ ":(" ++ u ++ ")") = .ok tree ∧
          flatten tree = .field name "" :: enclosed (flatten tu)) := by
  refine ⟨fun k => ?_, ?_, fun hdepth => ?_⟩
  · obtain ⟨tree, hparse, hflatten⟩ := parse_joined hu hw (some k)
    exact ⟨tree, by simpa [spaced, String.append_assoc] using hparse, by simpa using hflatten⟩
  · obtain ⟨tree, hparse, hflatten⟩ := parse_joined hu hw none
    exact ⟨tree, by simpa [spaced, String.append_assoc] using hparse, by simpa using hflatten⟩
  have hsmall : Node.depthList tu < maxDepth := Nat.lt_succ_of_le hdepth
  refine ⟨?_, fun s => ?_, fun name hne hletters hand hor hnot => ?_⟩
  · obtain ⟨tree, hparse, hflatten⟩ :=
      parse_parenthesised hu hsmall ⟨none, none, ()⟩ (by simp)
    refine ⟨tree, ?_, by simpa [Head.signMarker, Head.scope] using hflatten⟩
    simpa [parenthesised, signChars, fieldChars] using hparse
  · obtain ⟨tree, hparse, hflatten⟩ :=
      parse_parenthesised hu hsmall ⟨some s, none, ()⟩ (by simp)
    refine ⟨tree, ?_, by simpa [Head.signMarker, Head.scope] using hflatten⟩
    simpa [parenthesised, signChars, fieldChars] using hparse
  · have hname : FieldName name.toList :=
      ⟨by simpa using hne, fun x hx => by simpa [isNameChar] using hletters x hx⟩
    have hkeyword : ¬IsKeyword name := by
      rintro ⟨k, rfl | rfl | rfl, rfl⟩
      · exact hand rfl
      · exact hor rfl
      · exact hnot rfl
    obtain ⟨tree, hparse, hflatten⟩ := parse_parenthesised hu hsmall
      ⟨none, some name, ()⟩ (by simpa using ⟨hname, hkeyword⟩)
    refine ⟨tree, ?_, by simpa [Head.signMarker, Head.scope] using hflatten⟩
    simpa [parenthesised, signChars, fieldChars, String.append_assoc] using hparse

set_option maxRecDepth 10000 in
theorem queries_compose_lists :
    ∃ tu tw tree, parse "a OR b" = .ok tu ∧ parse " -c" = .ok tw ∧
      parse "a OR b NOT  -c" = .ok tree ∧
      flatten tree = [.bare "a", .marker (.connective .or), .bare "b", .marker (.connective .not),
        .marker (.sign .minus), .bare "c"] ∧
      ∃ group, parse "x:(a OR b)" = .ok group ∧
        flatten group = .field "x" "" :: enclosed
          [.bare "a", .marker (.connective .or), .bare "b"] := by
  have hu : parse "a OR b" = .ok [.literal ⟨none, none, ⟨0, 1⟩⟩ "a", .connective .or,
      .literal ⟨none, none, ⟨5, 6⟩⟩ "b"] := by
    cbv
  have hw : parse " -c" = .ok [.literal ⟨some .minus, none, ⟨1, 3⟩⟩ "c"] := by
    cbv
  obtain ⟨hjoined, _, hgroups⟩ := queries_compose _ _ _ _ hu hw
  obtain ⟨tree, htree, hflatten⟩ := hjoined .not
  obtain ⟨_, _, hnamed⟩ := hgroups (by decide)
  obtain ⟨group, hgroup, hmembers⟩ := hnamed "x" (by simp) (by simp) (by simp) (by simp) (by simp)
  have htext : "a OR b" ++ " " ++ Connective.not.toString ++ " " ++ " -c" = "a OR b NOT  -c" := by
    decide
  have hgroupText : "x" ++ ":(" ++ "a OR b" ++ ")" = "x:(a OR b)" := by decide
  rw [htext] at htree
  rw [hgroupText] at hgroup
  exact ⟨_, _, tree, hu, hw, htree, hflatten, group, hgroup, hmembers⟩

end ChantSearch.Proofs

import ChantSearch.Proofs.Components.Flattening
import ChantSearch.Proofs.Resolution.Blocks

/-!
# Looking up a group

What is asked for a group that a cross-referenced field scopes is the text of its components alone. It
is read as the same components again, from the field to the closing marker. The sign in front of the
field is left out, and with it goes what kept a keyword from being read as one, if that is the name of
the field.
-/

namespace ChantSearch.Proofs
open Index Query Resolution

variable {μ : Type} {schema : Schema} {nodes members : List (Node μ)} {head : Head μ}
  {before after inner front back components block : List Component} {name raw : String}
  {tree : Tree} {blocks : List (List Component)} {slots : List Slot} {slot : Slot}

lemma WellFormed.of_mem (h : WellFormed nodes) (hmem : .group head members ∈ nodes) :
    WellFormedHead head "(" ∧ WellFormed members := by
  induction h with
  | literal _ _ => simp at hmem
  | group hhead hmembers =>
    obtain ⟨rfl, rfl⟩ := Node.group.inj (List.mem_singleton.mp hmem)
    exact ⟨hhead, hmembers⟩
  | @joined ts us k? _ _ ihts ihus =>
    have hsides : Node.group head members ∈ ts ∨ Node.group head members ∈ us := by
      simpa using hmem
    exact hsides.elim ihts ihus

lemma WellFormedHead.exists_sign {word : String} (h : WellFormedHead head word)
    (hname : head.field? = some name) (hword : IsKeyword name) : ∃ s, head.sign? = some s := by
  by_contra hnone
  refine h.noKeyword ?_ ?_
  · exact Option.eq_none_iff_forall_ne_some.mpr fun s hs => hnone ⟨s, hs⟩
  · rwa [hname]

lemma GroupAt.wellFormed (h : GroupAt nodes front head members back) (hnodes : WellFormed nodes) :
    WellFormedHead head "(" ∧ WellFormed members := by
  induction h with
  | member ts head members us => exact hnodes.of_mem (by simp)
  | @inside inner _ _ _ _ ts outer us _ ih =>
    have houter : .group outer inner ∈ ts ++ .group outer inner :: us := by simp
    exact ih (hnodes.of_mem houter).2

lemma GroupAt.depth_le (h : GroupAt nodes front head members back) :
    Node.depthList members + 1 ≤ Node.depthList nodes := by
  induction h with
  | member ts head members us =>
    rw [depthList_append, Node.depthList, Node.depth]
    omega
  | inside ts outer us _ ih =>
    rw [depthList_append, Node.depthList, Node.depth]
    omega

lemma flatten_unsigned (hname : head.field? = some name) (members : List (Node μ)) :
    flatten [.group (unsigned head) members] = scopedBy name (flatten members) := by
  simp [flatten, Node.components, unsigned, Head.signMarker, Head.scope, hname, scopedBy]

/-- A group with the field that scopes it stands among the components as a group of the tree. -/
lemma exists_groupAt (hnodes : AllFieldLiteralsNonempty nodes) (hinner : Paired inner)
    (hsplit : flatten nodes = before ++ (scopedBy name inner ++ after)) :
    ∃ front head members, GroupAt nodes front head members after ∧ head.field? = some name ∧
      before = front ++ head.signMarker ∧ flatten members = inner := by
  rw [scopedBy_append] at hsplit
  -- The place tells what stands behind the field; that the group there ends where `inner` does is
  -- left to the count of its markers.
  generalize hbehind : Component.marker .opening :: (inner ++ .marker .closing :: after) = behind
    at hsplit
  cases scopesAt_of_flatten nodes hnodes hsplit with
  | @intro members head front back _ hgroup hname =>
    have hbegins : BeginsGroup _ inner after := ⟨hbehind.symm, hinner⟩
    obtain ⟨hmembers, rfl⟩ := BeginsGroup.unique ⟨rfl, paired_flatten members⟩ hbegins
    exact ⟨front, head, members, hgroup, hname, rfl, hmembers⟩

lemma toList_render_scopedBy (name : String) (inner : List Component) :
    ∃ rest, (render (scopedBy name inner)).toList = name.toList ++ ':' :: rest := by
  refine ⟨textFrom true (.marker .opening :: (inner ++ [.marker .closing])), ?_⟩
  rw [toList_render, scopedBy, textFrom_cons]
  simp [Component.piece, Component.glues]

/-- Without its sign, the group is a query of its own unless its field is named like a keyword. -/
lemma GroupAt.parse_render (h : GroupAt nodes front head members back) (hnodes : WellFormed nodes)
    (hdepth : Node.depthList nodes ≤ maxDepth) (hname : head.field? = some name)
    (hword : ¬IsKeyword name) :
    ∃ sub, parse (render (scopedBy name (flatten members))) = .ok sub ∧
      flatten sub = scopedBy name (flatten members) := by
  obtain ⟨hhead, hmembers⟩ := h.wellFormed hnodes
  have hunsigned : WellFormedHead (unsigned head) "(" := by
    refine ⟨hhead.name, fun _ => ?_⟩
    have hfield : (unsigned head).field? = some name := hname
    rwa [hfield]
  have hterm : WellFormed [.group (unsigned head) members] := .group hunsigned hmembers
  have hterms : Node.depthList [.group (unsigned head) members] ≤ maxDepth := by
    have hmembersDepth := h.depth_le
    rw [Node.depthList, Node.depth, Node.depthList]
    omega
  obtain ⟨sub, hparse, hshape⟩ := hterm.parse_render hterms
  rw [flatten_unsigned hname] at hparse
  exact ⟨sub, hparse, (flatten_eq_of_shape hshape).trans (flatten_unsigned hname members)⟩

/-- No query begins with a keyword. -/
lemma not_derivesQuery_of_keyword {word rest : List Char} (hraw : raw.toList = word ++ rest)
    (hword : IsKeyword (String.ofList word)) (hrest : ¬WordContinues rest) (tree : Tree) :
    ¬DerivesQuery raw tree := by
  rintro ⟨hblanks, hlist, _, _⟩
  have hstart : (Cursor.ofString raw).rest = word ++ rest := hraw
  obtain ⟨k, e, hkeyword⟩ := keyword_of_isKeyword hword (reads_past hstart) hrest
  have hfront := (operator_begins (.inr hkeyword)).stops fun _ => isBlank_apart _ (by decide)
  obtain rfl := Blanks.unique ⟨[], by simp, .nil _⟩ hfront hblanks hlist.termList_stops_blank
  cases hlist with
  | termList hterm _ => exact hterm.no_operator ⟨k, e, .inr hkeyword⟩

lemma not_parse_render_scopedBy (hword : IsKeyword name) (inner : List Component) (sub : Tree) :
    parse (render (scopedBy name inner)) ≠ .ok sub := by
  intro hsub
  obtain ⟨rest, htext⟩ := toList_render_scopedBy name inner
  refine not_derivesQuery_of_keyword htext (by rwa [String.ofList_toList]) ?_ sub
    (derivesQuery_of_parse hsub)
  exact not_wordContinues_iff.mpr (stops_cons.mpr (by decide))

lemma CutUp.of_mem_zip (h : CutUp schema components blocks slots)
    (hmem : (block, slot) ∈ blocks.zip slots) :
    Block schema block slot ∧ ∃ before after, components = before ++ (block ++ after) := by
  refine ⟨List.forall₂_zip h.blocks hmem, ?_⟩
  obtain ⟨earlier, later, rfl⟩ := List.append_of_mem (List.of_mem_zip hmem).1
  exact ⟨earlier.flatten, later.flatten, by simp [← h.flatten_eq]⟩

/-- What is asked for a group among the components of an accepted query is the text of its block,
which goes from the field with the empty value to the marker that closes the group. The text is
accepted in its turn and has exactly the components of the block, unless the field is named like a
keyword. Such a field has a sign in front of it, and what is asked for its group is no query. -/
theorem group_lookup_accepted_iff (schema : Schema) (service : Service) (raw : String) (tree : Tree)
    (hparse : parse raw = .ok tree) :
    ∃ blocks slots, CutUp schema (flatten tree) blocks slots ∧
      (resolve schema service (flatten tree)).requests = slots.filterMap Slot.request? ∧
      ∀ block name text ref, (block, .group name text ref) ∈ blocks.zip slots →
        ∃ before members after, flatten tree = before ++ (block ++ after) ∧
          block = .field name "" :: .marker .opening :: (members ++ [.marker .closing]) ∧
          Paired members ∧ text = render block ∧
          (¬IsKeyword name → ∃ sub, parse text = .ok sub ∧ flatten sub = block) ∧
          (IsKeyword name → (∃ s, before.getLast? = some (.marker (.sign s))) ∧
            ∀ sub, parse text ≠ .ok sub) := by
  have htree := wellFormed_of_parse hparse
  obtain ⟨blocks, slots, hcut⟩ := exists_cutUp_of_parse schema hparse
  refine ⟨blocks, slots, hcut, resolve_requests hcut.slotsOf_eq, fun block name text ref hmem => ?_⟩
  obtain ⟨hblock, before, after, hsplit⟩ := hcut.of_mem_zip hmem
  cases hblock with
  | @group _ _ inner href hinner =>
    obtain ⟨front, head, members, hgroup, hname, rfl, rfl⟩ :=
      exists_groupAt htree.fieldLiteralsNonempty hinner hsplit
    refine ⟨_, _, after, hsplit, rfl, hinner, rfl, fun hword => ?_, fun hword => ⟨?_, ?_⟩⟩
    · exact hgroup.parse_render htree (depth_of_parse hparse) hname hword
    · obtain ⟨s, hsign⟩ := (hgroup.wellFormed htree).1.exists_sign hname hword
      exact ⟨s, by simp [Head.signMarker, hsign]⟩
    · exact not_parse_render_scopedBy hword _

set_option maxRecDepth 10000 in
theorem century_group_lookup_accepted :
    ∃ tree sub, parse "-century:(20th OR (x)) a" = .ok tree ∧
      (resolve .catalogue (fun _ => .error (.unavailable "down")) (flatten tree)).requests =
        [.ofQuery "century:( 20th  OR  ( x  )  ) "] ∧
      parse "century:( 20th  OR  ( x  )  ) " = .ok sub ∧
      flatten sub = [.field "century" "", .marker .opening, .bare "20th",
        .marker (.connective .or), .marker .opening, .bare "x", .marker .closing,
        .marker .closing] := by
  let members : List Component := [.bare "20th", .marker (.connective .or), .marker .opening,
    .bare "x", .marker .closing]
  have hparse : parse "-century:(20th OR (x)) a" = .ok
      [.group ⟨some .minus, some "century", ⟨0, 22⟩⟩ [.literal ⟨none, none, ⟨10, 14⟩⟩ "20th",
        .connective .or, .group ⟨none, none, ⟨18, 21⟩⟩ [.literal ⟨none, none, ⟨19, 20⟩⟩ "x"]],
        .literal ⟨none, none, ⟨23, 24⟩⟩ "a"] := by
    cbv
  have href : Schema.catalogue.crossRef? "century" = some ⟨"century", "century_id"⟩ := rfl
  have hcut : CutUp .catalogue _ [[.marker (.sign .minus)], scopedBy "century" members, [.bare "a"]]
      _ :=
    ⟨rfl, .cons (.keep (by simp [Stays])) <|
      .cons (.group href (by decide)) <|
        .cons (.keep (by simp [Stays])) .nil⟩
  obtain ⟨blocks, slots, hblocks, _, hgroups⟩ :=
    group_lookup_accepted_iff .catalogue (fun _ => .error (.unavailable "down")) _ _ hparse
  obtain ⟨rfl, rfl⟩ := hcut.unique hblocks
  obtain ⟨_, _, _, _, _, _, _, haccepted, _⟩ :=
    hgroups (scopedBy "century" members) "century" _ _ (.tail _ (.head _))
  have hletters : ("century" : String).toList = 'c' :: ['e', 'n', 't', 'u', 'r', 'y'] := rfl
  obtain ⟨sub, hsub⟩ := haccepted (not_isKeyword_of_begins hletters (by decide))
  have htext : render (scopedBy "century" members) = "century:( 20th  OR  ( x  )  ) " := by cbv
  rw [htext] at hsub
  exact ⟨_, sub, hparse, by cbv, hsub⟩

set_option maxRecDepth 10000 in
/-- Without its sign the group begins with a keyword. -/
theorem keyword_group_lookup_rejected :
    let schema : Schema := ⟨[], [("AND", ⟨"genre", "genre_id"⟩)]⟩
    ∃ tree, parse "-AND:(x)" = .ok tree ∧
      flatten tree = [.marker (.sign .minus), .field "AND" "", .marker .opening, .bare "x",
        .marker .closing] ∧
      (resolve schema (fun _ => .error (.unavailable "down")) (flatten tree)).requests =
        [.ofQuery "AND:( x  ) "] ∧
      ∀ sub, parse "AND:( x  ) " ≠ .ok sub := by
  intro schema
  have hparse : parse "-AND:(x)" = .ok
      [.group ⟨some .minus, some "AND", ⟨0, 8⟩⟩ [.literal ⟨none, none, ⟨6, 7⟩⟩ "x"]] := by
    cbv
  have htext : render (scopedBy "AND" [.bare "x"]) = "AND:( x  ) " := by cbv
  refine ⟨_, hparse, rfl, by cbv, ?_⟩
  rw [← htext]
  exact not_parse_render_scopedBy ⟨.and, .inl rfl, rfl⟩ _

end ChantSearch.Proofs

import ChantSearch.Proofs.Components.Pairing

/-!
# What flattening keeps

The components of a query hold all of its structure. No two trees have the same components, save for
their marks, as long as no literal behind a field is empty. An empty value stands for the group that
its field scopes and for nothing else, and the parentheses are those of the groups.
-/

namespace ChantSearch.Proofs
open Query

variable {μ ν : Type} {nodes members ts us : List (Node μ)} {head outer : Head μ} {other : Head ν}
  {before after front back rest rest' xs ys : List Component} {name text word : String}

lemma signMarker_cancel (hxs : ∀ s, xs.head? ≠ some (.marker (.sign s)))
    (hys : ∀ s, ys.head? ≠ some (.marker (.sign s)))
    (h : head.signMarker ++ xs = other.signMarker ++ ys) : head.sign? = other.sign? ∧ xs = ys := by
  obtain ⟨sign?, field?, mark⟩ := head
  obtain ⟨sign?', field?', mark'⟩ := other
  cases sign? with
  | none =>
    cases sign?' with
    | none => exact ⟨rfl, h⟩
    | some s =>
      have hxs' : xs = .marker (.sign s) :: ys := h
      exact absurd (congrArg List.head? hxs') (hxs s)
  | some s =>
    cases sign?' with
    | none =>
      have hys' : .marker (.sign s) :: xs = ys := h
      exact absurd (congrArg List.head? hys'.symm) (hys s)
    | some s' =>
      obtain ⟨hsign, hrest⟩ := List.cons.inj h
      cases hsign
      exact ⟨rfl, hrest⟩

lemma literalComponent_cancel (h : head.literalComponent text = other.literalComponent word) :
    head.field? = other.field? ∧ text = word := by
  obtain ⟨sign?, field?, mark⟩ := head
  obtain ⟨sign?', field?', mark'⟩ := other
  cases field? <;> cases field?' <;> simp_all [Head.literalComponent]

lemma scope_cancel (h : head.scope ++ .marker .opening :: xs = other.scope ++ .marker .opening :: ys) :
    head.field? = other.field? ∧ xs = ys := by
  obtain ⟨sign?, field?, mark⟩ := head
  obtain ⟨sign?', field?', mark'⟩ := other
  cases field? <;> cases field?' <;> simp_all [Head.scope]

lemma literal_not_sign (head : Head μ) (text : String) (rest : List Component) (s : Sign) :
    ([head.literalComponent text] ++ rest).head? ≠ some (.marker (.sign s)) := by
  obtain ⟨sign?, field?, mark⟩ := head
  cases field? <;> simp [Head.literalComponent]

lemma scope_not_sign (head : Head μ) (rest : List Component) (s : Sign) :
    (head.scope ++ .marker .opening :: rest).head? ≠ some (.marker (.sign s)) := by
  obtain ⟨sign?, field?, mark⟩ := head
  cases field? <;> simp [Head.scope]

lemma head_map_unit (hsign : head.sign? = other.sign?) (hfield : head.field? = other.field?) :
    head.map (fun _ => ()) = other.map fun _ => () := by
  rw [Head.map, Head.map, hsign, hfield]

/-- What can stand behind the components of a list: its end, or the end of the group around it. -/
def Ends (rest : List Component) : Prop :=
  ∀ c ∈ rest.head?, c = .marker .closing

lemma ends_closing (rest : List Component) : Ends (.marker .closing :: rest) := by
  simp [Ends]

lemma not_ends_components (node : Node μ) (rest : List Component) :
    ¬Ends (node.components ++ rest) := by
  cases node with
  | connective k => simp [Ends, Node.components]
  | literal head text =>
    obtain ⟨sign?, field?, mark⟩ := head
    cases sign? <;> cases field? <;>
      simp [Ends, Node.components, Head.signMarker, Head.literalComponent]
  | group head members =>
    obtain ⟨sign?, field?, mark⟩ := head
    cases sign? <;> cases field? <;> simp [Ends, Node.components, Head.signMarker, Head.scope]

lemma eq_connective_of_begins {node : Node μ} {k : Connective}
    (h : node.components ++ rest = .marker (.connective k) :: rest') :
    node = .connective k ∧ rest = rest' := by
  cases node with
  | connective k' => simpa [Node.components] using h
  | literal head text =>
    obtain ⟨sign?, field?, mark⟩ := head
    cases sign? <;> cases field? <;>
      simp [Node.components, Head.signMarker, Head.literalComponent] at h
  | group head members =>
    obtain ⟨sign?, field?, mark⟩ := head
    cases sign? <;> cases field? <;> simp [Node.components, Head.signMarker, Head.scope] at h

lemma literal_ne_scope (htext : head.field? ≠ none → text ≠ "") :
    [head.literalComponent text] ++ rest ≠ other.scope ++ .marker .opening :: rest' := by
  obtain ⟨sign?, field?, mark⟩ := head
  obtain ⟨sign?', field?', mark'⟩ := other
  cases field? <;> cases field?' <;> simp_all [Head.literalComponent, Head.scope]

lemma literal_append (head : Head μ) (text : String) (rest : List Component) :
    (Node.literal head text).components ++ rest =
      head.signMarker ++ ([head.literalComponent text] ++ rest) := by
  rw [Node.components, List.append_assoc]

lemma group_append (head : Head μ) (members : List (Node μ)) (rest : List Component) :
    (Node.group head members).components ++ rest =
      head.signMarker ++
        (head.scope ++ .marker .opening :: (flatten members ++ .marker .closing :: rest)) := by
  simp [Node.components]

mutual

/-- The components at the front of a list tell the node that they belong to, and where they end. -/
lemma components_cancel : ∀ (node : Node μ) (node' : Node ν) (rest rest' : List Component),
    FieldLiteralsNonempty node → FieldLiteralsNonempty node' →
      node.components ++ rest = node'.components ++ rest' →
        node.map (fun _ => ()) = node'.map (fun _ => ()) ∧ rest = rest'
  | .connective k, node', rest, rest', _, _, h => by
    obtain ⟨rfl, hrest⟩ := eq_connective_of_begins h.symm
    exact ⟨rfl, hrest.symm⟩
  | .literal head text, node', rest, rest', htext, hnode', h => by
    cases node' with
    | connective k => cases (eq_connective_of_begins h).1
    | literal other word =>
      rw [literal_append, literal_append] at h
      obtain ⟨hsign, hbody⟩ :=
        signMarker_cancel (literal_not_sign head text rest) (literal_not_sign other word rest') h
      obtain ⟨hcomponent, hrest⟩ := List.cons.inj hbody
      obtain ⟨hfield, rfl⟩ := literalComponent_cancel hcomponent
      exact ⟨congrArg (Node.literal · text) (head_map_unit hsign hfield), hrest⟩
    | group other members =>
      rw [literal_append, group_append] at h
      obtain ⟨_, hbody⟩ :=
        signMarker_cancel (literal_not_sign head text rest) (scope_not_sign other _) h
      exact absurd hbody (literal_ne_scope htext)
  | .group head members, node', rest, rest', hmembers, hnode', h => by
    cases node' with
    | connective k => cases (eq_connective_of_begins h).1
    | literal other word =>
      rw [group_append, literal_append] at h
      obtain ⟨_, hbody⟩ :=
        signMarker_cancel (scope_not_sign head _) (literal_not_sign other word rest') h
      exact absurd hbody.symm (literal_ne_scope hnode')
    | group other members' =>
      rw [group_append, group_append] at h
      obtain ⟨hsign, hbody⟩ := signMarker_cancel (scope_not_sign head _) (scope_not_sign other _) h
      obtain ⟨hfield, hinner⟩ := scope_cancel hbody
      -- The members end at the closing marker, as no node begins with one.
      obtain ⟨hshape, hclosing⟩ := flatten_cancel members members' _ _ hmembers hnode'
        (ends_closing rest) (ends_closing rest') hinner
      refine ⟨?_, (List.cons.inj hclosing).2⟩
      rw [Node.map, Node.map, head_map_unit hsign hfield]
      exact congrArg (Node.group _) hshape

lemma flatten_cancel : ∀ (ts : List (Node μ)) (us : List (Node ν)) (rest rest' : List Component),
    AllFieldLiteralsNonempty ts → AllFieldLiteralsNonempty us → Ends rest → Ends rest' →
      flatten ts ++ rest = flatten us ++ rest' → Node.shape ts = Node.shape us ∧ rest = rest'
  | [], [], _, _, _, _, _, _, h => ⟨rfl, h⟩
  | [], node' :: us, rest, rest', _, _, hends, _, h => by
    have hrest : rest = node'.components ++ (flatten us ++ rest') := by
      rw [← List.append_assoc]
      exact h
    exact absurd (hrest ▸ hends) (not_ends_components node' _)
  | node :: ts, [], rest, rest', _, _, _, hends, h => by
    have hrest : rest' = node.components ++ (flatten ts ++ rest) := by
      rw [← List.append_assoc]
      exact h.symm
    exact absurd (hrest ▸ hends) (not_ends_components node _)
  | node :: ts, node' :: us, rest, rest', hts, hus, hends, hends', h => by
    rw [flatten, flatten, List.append_assoc, List.append_assoc] at h
    obtain ⟨hnode, hmore⟩ := components_cancel node node' _ _ hts.1 hus.1 h
    obtain ⟨hshape, hrest⟩ := flatten_cancel ts us rest rest' hts.2 hus.2 hends hends' hmore
    exact ⟨congrArg₂ List.cons hnode hshape, hrest⟩

end

/-! ### Places of groups -/

/-- A group at any depth of the tree, with the components in front of it and behind it. -/
inductive GroupAt : List (Node μ) → List Component → Head μ → List (Node μ) → List Component → Prop
  | member (ts : List (Node μ)) (head : Head μ) (members us : List (Node μ)) :
      GroupAt (ts ++ .group head members :: us) (flatten ts) head members (flatten us)
  | inside {nodes members : List (Node μ)} {head : Head μ} {front back : List Component}
      (ts : List (Node μ)) (outer : Head μ) (us : List (Node μ))
      (h : GroupAt nodes front head members back) :
      GroupAt (ts ++ .group outer nodes :: us)
        (flatten ts ++ (outer.signMarker ++ outer.scope ++ .marker .opening :: front)) head members
        (back ++ .marker .closing :: flatten us)

/-- The field of a group has this place among the components. Behind it are the group's opening
marker, the components of its members and its closing marker. -/
inductive ScopesAt (nodes : List (Node μ)) : List Component → String → List Component → Prop
  | intro {members : List (Node μ)} {head : Head μ} {front back : List Component} {name : String}
      (h : GroupAt nodes front head members back) (hname : head.field? = some name) :
      ScopesAt nodes (front ++ head.signMarker) name
        (.marker .opening :: (flatten members ++ .marker .closing :: back))

lemma GroupAt.flatten_eq (h : GroupAt nodes front head members back) :
    flatten nodes = front ++ ((Node.group head members).components ++ back) := by
  induction h with
  | member ts head members us => rw [flatten_append, flatten]
  | inside ts outer us _ ih =>
    rw [flatten_append, flatten, Node.components, ih]
    simp

lemma GroupAt.around (h : GroupAt nodes front head members back) (ts us : List (Node μ)) :
    GroupAt (ts ++ (nodes ++ us)) (flatten ts ++ front) head members (back ++ flatten us) := by
  cases h with
  | member vs head members ws =>
    have hplace := GroupAt.member (ts ++ vs) head members (ws ++ us)
    simpa [flatten_append] using hplace
  | inside vs outer ws h =>
    have hplace := GroupAt.inside (ts ++ vs) outer (ws ++ us) h
    simpa [flatten_append] using hplace

lemma ScopesAt.flatten_eq (h : ScopesAt nodes before name after) :
    flatten nodes = before ++ .field name "" :: after := by
  cases h with
  | intro h hname =>
    rw [h.flatten_eq]
    simp [Node.components, Head.scope, hname]

lemma ScopesAt.around (h : ScopesAt nodes before name after) (ts us : List (Node μ)) :
    ScopesAt (ts ++ (nodes ++ us)) (flatten ts ++ before) name (after ++ flatten us) := by
  cases h with
  | intro h hname =>
    have hplace := ScopesAt.intro (h.around ts us) hname
    simpa using hplace

lemma ScopesAt.inside (h : ScopesAt nodes before name after) (outer : Head μ) :
    ScopesAt [.group outer nodes] (outer.signMarker ++ outer.scope ++ .marker .opening :: before) name
      (after ++ [.marker .closing]) := by
  cases h with
  | intro h hname =>
    have hplace := ScopesAt.intro (h.inside [] outer []) hname
    simpa [flatten] using hplace

/-- A component in a row of components is in the first part or in the second. -/
lemma append_eq_split {c : Component} (h : xs ++ ys = before ++ c :: after) :
    (∃ more, xs = before ++ c :: more ∧ after = more ++ ys) ∨
      ∃ more, before = xs ++ more ∧ ys = more ++ c :: after := by
  rcases List.append_eq_append_iff.mp h with ⟨more, rfl, rfl⟩ | ⟨more, rfl, hrest⟩
  · exact .inr ⟨more, rfl, rfl⟩
  · cases more with
    | nil => exact .inr ⟨[], by simp, hrest.symm⟩
    | cons d more =>
      obtain ⟨rfl, rfl⟩ := List.cons.inj hrest
      exact .inl ⟨more, rfl, rfl⟩

lemma scope_eq_split (h : head.scope = before ++ .field name "" :: after) :
    head.field? = some name ∧ before = [] ∧ after = [] := by
  obtain ⟨sign?, field?, mark⟩ := head
  cases field? with
  | none => simp [Head.scope] at h
  | some other =>
    cases before with
    | nil =>
      obtain ⟨hsame, hafter⟩ := List.cons.inj h
      obtain ⟨rfl, _⟩ := Component.field.inj hsame
      exact ⟨rfl, rfl, hafter.symm⟩
    | cons first before => simp [Head.scope] at h

mutual

lemma scopesAt_of_components : ∀ (node : Node μ) {before after : List Component} {name : String},
    FieldLiteralsNonempty node → node.components = before ++ .field name "" :: after →
      ScopesAt [node] before name after
  | .connective k, before, after, name, _, h => by
    have hmem : .field name "" ∈ (Node.connective k : Node μ).components := by simp [h]
    simp [Node.components] at hmem
  | .literal head text, before, after, name, htext, h => by
    have hmem : .field name "" ∈ (Node.literal head text).components := by simp [h]
    obtain ⟨sign?, field?, mark⟩ := head
    cases field? with
    | none => simp [Node.components, Head.signMarker, Head.literalComponent] at hmem
    | some other =>
      obtain ⟨_, hempty⟩ : name = other ∧ "" = text := by
        simpa [Node.components, Head.signMarker, Head.literalComponent] using hmem
      exact absurd hempty.symm (htext (by simp))
  | .group head members, before, after, name, hmembers, h => by
    rw [Node.components, List.append_assoc] at h
    rcases append_eq_split h with ⟨more, hsign, _⟩ | ⟨behind, rfl, hbody⟩
    · have hmem : .field name "" ∈ head.signMarker := by simp [hsign]
      simp [Head.signMarker] at hmem
    rcases append_eq_split hbody with ⟨more, hscope, rfl⟩ | ⟨inner, rfl, hgroup⟩
    · obtain ⟨hname, rfl, rfl⟩ := scope_eq_split hscope
      simpa [flatten] using ScopesAt.intro (GroupAt.member [] head members []) hname
    cases inner with
    | nil => simp at hgroup
    | cons opening inner =>
      obtain ⟨rfl, hlist⟩ := List.cons.inj hgroup
      rcases append_eq_split hlist with ⟨after, hinner, rfl⟩ | ⟨more, _, hclosing⟩
      · simpa using (scopesAt_of_flatten members hmembers hinner).inside head
      · have hmem : .field name "" ∈ [Component.marker .closing] := by simp [hclosing]
        simp at hmem

lemma scopesAt_of_flatten :
    ∀ (nodes : List (Node μ)) {before after : List Component} {name : String},
      AllFieldLiteralsNonempty nodes → flatten nodes = before ++ .field name "" :: after →
        ScopesAt nodes before name after
  | [], before, after, name, _, h => by simp [flatten] at h
  | node :: nodes, before, after, name, hnodes, h => by
    rcases append_eq_split h with ⟨more, hnode, rfl⟩ | ⟨more, rfl, hmore⟩
    · exact (scopesAt_of_components node hnodes.1 hnode).around [] nodes
    · have hplace := (scopesAt_of_flatten nodes hnodes.2 hmore).around [node] []
      simpa [flatten] using hplace

end

lemma paired_flatten (nodes : List (Node μ)) : Paired (flatten nodes) :=
  balanced_iff_paired.mp (balanced_flatten nodes)

/-- Two trees whose literals with a field are not empty have the same components if and only if they
are equal but for their marks. No front of the components closes more groups than it opens, and as a
whole they close as many as they open. A field has an empty value exactly where it is the field of a
group, and there the opening marker, the members and the closing marker of the group follow it. -/
theorem flatten_keeps_structure (t : List (Node μ)) (ht : AllFieldLiteralsNonempty t) :
    (∀ {ν : Type} (u : List (Node ν)), AllFieldLiteralsNonempty u →
      (flatten t = flatten u ↔ Node.shape t = Node.shape u)) ∧
    (∀ front, front <+: flatten t →
      front.count (.marker .closing) ≤ front.count (.marker .opening)) ∧
    (flatten t).count (.marker .closing) = (flatten t).count (.marker .opening) ∧
    ∀ before name after,
      flatten t = before ++ .field name "" :: after ↔ ScopesAt t before name after := by
  refine ⟨fun u hu => ⟨fun h => ?_, flatten_eq_of_shape⟩, (paired_flatten t).front,
    (paired_flatten t).whole, fun before name after => ?_⟩
  · have hends : Ends [] := by simp [Ends]
    exact (flatten_cancel t u [] [] ht hu hends hends (by rw [h])).1
  · exact ⟨scopesAt_of_flatten t ht, ScopesAt.flatten_eq⟩

theorem flatten_keeps_nested_scopes :
    let t : Tree := [.group ⟨none, some "x", ⟨0, 13⟩⟩ [.literal ⟨some .plus, some "y", ⟨3, 7⟩⟩ "a",
      .group ⟨some .minus, some "y", ⟨8, 12⟩⟩ []]]
    AllFieldLiteralsNonempty t ∧
      ScopesAt t [.field "x" "", .marker .opening, .marker (.sign .plus), .field "y" "a",
          .marker (.sign .minus)] "y" [.marker .opening, .marker .closing, .marker .closing] ∧
      flatten t ≠ flatten [Node.group ⟨none, some "x", ()⟩ [.literal ⟨some .plus, some "y", ()⟩ "a",
        .group ⟨some .minus, none, ()⟩ []]] := by
  intro t
  have ht : AllFieldLiteralsNonempty t := by simp [t, AllFieldLiteralsNonempty, FieldLiteralsNonempty]
  obtain ⟨hsame, _, _, hscopes⟩ := flatten_keeps_structure t ht
  refine ⟨ht, (hscopes _ _ _).mp rfl, fun h => ?_⟩
  have hshape := (hsame _ (by simp [AllFieldLiteralsNonempty, FieldLiteralsNonempty])).mp h
  simp [t, Node.shape, Node.mapList, Node.map, Head.map] at hshape

/-- An empty literal behind a field would be taken for a field with a group. -/
example : flatten [Node.literal ⟨none, some "x", ()⟩ "", .group ⟨none, none, ()⟩ []] =
    flatten [Node.group ⟨none, some "x", ()⟩ []] :=
  rfl

end ChantSearch.Proofs

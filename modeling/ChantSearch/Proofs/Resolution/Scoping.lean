import ChantSearch.Proofs.Resolution.Planning
import ChantSearch.Proofs.Resolution.Refinement
import ChantSearch.Proofs.Resolution.Replacements

/-!
# Fields with an empty value

An empty value marks a field as the scope of the group behind it. Flattened queries have it nowhere
else, and resolution keeps the fields that it does not look up as they are. A lookup is replaced by
a field with an empty value in one case: the only record that answers it has an empty id.
-/

namespace ChantSearch.Proofs
open Index Query Resolution

variable {μ : Type} {schema : Schema} {service : Service} {slot : Slot} {component : Component}
  {raw name : String} {cs ds : List Component}

/-- Every field with an empty value stands directly in front of a group. -/
def Scoped : List Component → Prop
  | [] => True
  | c :: cs => (∀ name, c = .field name "" → cs.head? = some (.marker .opening)) ∧ Scoped cs

lemma Scoped.append (hcs : Scoped cs) (hds : Scoped ds) : Scoped (cs ++ ds) := by
  induction cs with
  | nil => exact hds
  | cons c cs ih =>
    obtain ⟨hhead, htail⟩ := hcs
    refine ⟨fun name hc => ?_, ih htail⟩
    cases cs with
    | nil => exact absurd (hhead name hc) (by simp)
    | cons d cs => exact hhead name hc

lemma scoped_single (h : ∀ name, component ≠ .field name "") : Scoped [component] :=
  ⟨fun name hc => absurd hc (h name), trivial⟩

lemma Scoped.head?_of_append {after : List Component}
    (h : Scoped (cs ++ .field name "" :: after)) : after.head? = some (.marker .opening) := by
  induction cs with
  | nil => exact h.1 name rfl
  | cons c cs ih => exact ih h.2

lemma scoped_signMarker (head : Head μ) : Scoped head.signMarker := by
  obtain ⟨sign?, field?, mark⟩ := head
  cases sign? with
  | none => trivial
  | some s => exact scoped_single (by simp)

lemma Scoped.scope (head : Head μ) (h : Scoped cs) :
    Scoped (head.scope ++ .marker .opening :: cs) := by
  obtain ⟨sign?, field?, mark⟩ := head
  cases field? with
  | none => exact ⟨by simp, h⟩
  | some name => exact ⟨fun _ _ => rfl, by simp, h⟩

mutual

lemma scoped_components : ∀ node : Node μ, FieldLiteralsNonempty node → Scoped node.components
  | .connective _, _ => scoped_single (by simp)
  | .literal head text, h => by
    apply (scoped_signMarker head).append
    rw [Head.literalComponent]
    split
    · exact scoped_single (by simp)
    · next hfield =>
      refine scoped_single fun name hname => ?_
      obtain ⟨_, rfl⟩ := Component.field.inj hname
      exact h (by simp [hfield]) rfl
  | .group head members, h => by
    have hclosing : Scoped [.marker .closing] := scoped_single (by simp)
    rw [Node.components, List.append_assoc]
    exact (scoped_signMarker head).append (((scoped_flatten members h).append hclosing).scope head)

lemma scoped_flatten :
    ∀ nodes : List (Node μ), AllFieldLiteralsNonempty nodes → Scoped (flatten nodes)
  | [], _ => trivial
  | node :: nodes, h => (scoped_components node h.1).append (scoped_flatten nodes h.2)

end

/-- The only record that answers the lookup of a value has an empty id. The name is that of the
field that holds the ids. -/
inductive FindsEmptyId (service : Service) : Slot → String → Prop
  | value {field text : String} {ref : CrossRef} {results : Results}
      (hanswer : service (.ofQuery (ofType ref.resourceType text)) = .ok results)
      (hids : List.Forall₂ HasId results.docs [""]) :
      FindsEmptyId service (.value field text ref) ref.idField

/-- The field scopes a group of the components, both before and after resolution, and is not a
cross-reference. The slots are its own and those in front of it. -/
structure ScopeKept (schema : Schema) (components : List Component) (first : List Slot)
    (slot : Slot) (name : String) (after : List Component) : Prop where
  slot_eq : slot = .keep (.field name "")
  crossRef?_eq : schema.crossRef? name = none
  head?_eq : after.head? = some (.marker .opening)
  scopes : ∃ front back, components = front ++ .field name "" :: .marker .opening :: back ∧
    slotsOf schema front = .ok first

lemma ranked_eq_field_iff {idField value : String} {ids : List String} :
    ranked idField ids = .field name value ↔ name = idField ∧ ids = [value] := by
  match ids with
  | [] => simp [ranked, alternatives]
  | [id] => simp [ranked, eq_comm]
  | _ :: _ :: _ => simp [ranked, alternatives]

lemma ranked_glues_iff {idField : String} {ids : List String} :
    (ranked idField ids).glues ↔ ids = [""] := by
  match ids with
  | [] => simp [ranked, alternatives, Component.glues]
  | [id] => simp [ranked, Component.glues]
  | _ :: _ :: _ => simp [ranked, alternatives, Component.glues]

lemma Fills.of_empty (h : Fills service slot (.field name "")) :
    slot = .keep (.field name "") ∨ FindsEmptyId service slot name := by
  generalize hcomponent : Component.field name "" = component at h
  cases h with
  | keep component => exact .inl rfl
  | value hfinds =>
    obtain ⟨rfl, rfl⟩ := ranked_eq_field_iff.mp hcomponent.symm
    exact .inr (.value hfinds.answer hfinds.hasIds)
  | group hfinds => simp [unweighted, alternatives] at hcomponent

lemma FindsEmptyId.component_eq (hempty : FindsEmptyId service slot name)
    (h : Fills service slot component) : component = .field name "" := by
  cases hempty with
  | value hanswer hids =>
    cases h with
    | value hfinds =>
      obtain rfl := Except.ok.inj (hanswer.symm.trans hfinds.answer)
      obtain rfl := (told_mapM told_idOf _).unique hids hfinds.hasIds
      rfl

/-- A field with an empty value fills its own slot, in front of a group, or is made of an empty
id. -/
lemma empty_value_cases {before after : List Component} {slots : List Slot}
    (hscoped : Scoped cs) (hslots : slotsOf schema cs = .ok slots)
    (hfills : List.Forall₂ (Fills service) slots (before ++ .field name "" :: after)) :
    ∃ first slot others, slots = first ++ slot :: others ∧ first.length = before.length ∧
      (ScopeKept schema cs first slot name after ∨ FindsEmptyId service slot name) := by
  obtain ⟨first, slot, others, rfl, hlength, hslot, hothers⟩ := forall₂_split hfills
  refine ⟨first, slot, others, rfl, hlength, ?_⟩
  rcases hslot.of_empty with rfl | hempty
  · -- The marker behind the field in the query is kept as well, so it is behind it still.
    obtain ⟨front, back, rfl, _, hfront, hback, hfield⟩ := slotsFrom_split hslots
    have hopening := hscoped.head?_of_append
    cases back with
    | nil => simp at hopening
    | cons opening back =>
      obtain rfl := Option.some.inj hopening
      obtain ⟨_, skip, rest, hkeep, _, rfl⟩ := slotsFrom_cons_eq_ok_iff.mp hback
      cases hkeep
      cases hothers with
      | cons hhead _ =>
        cases hhead
        exact .inl ⟨rfl, hfield name "" rfl, rfl, front, back, rfl, hfront⟩
  · exact .inr hempty

/-- A replacement is glued to what follows it if and only if it is made of an empty id. -/
lemma Fills.glues_iff (h : Fills service slot component) (hrequest : slot.request? ≠ none) :
    component.glues ↔ ∃ name, FindsEmptyId service slot name := by
  cases h with
  | keep component => exact absurd rfl hrequest
  | value hfinds =>
    rw [ranked_glues_iff]
    constructor
    · rintro rfl
      exact ⟨_, .value hfinds.answer hfinds.hasIds⟩
    · rintro ⟨_, hempty⟩
      exact (ranked_eq_field_iff.mp (hempty.component_eq (.value hfinds))).2
  | group hfinds =>
    constructor
    · intro hglues
      cases hglues
    · rintro ⟨_, hempty⟩
      cases hempty

/-- In a resolved query a field with an empty value is kept from the query, where it scopes the
group behind it, or it takes the place of a value that a record with an empty id answers, and no
other. What takes the place of a lookup is glued to what follows it in the latter case alone. -/
theorem empty_values_resolved (raw : String) (schema : Schema) (service : Service) (tree : Tree)
    (resolved : List Component) (hparse : parse raw = .ok tree)
    (hresolve : (resolve schema service (flatten tree)).outcome = .ok resolved) :
    ∃ slots, slotsOf schema (flatten tree) = .ok slots ∧
      (∀ before name after, resolved = before ++ .field name "" :: after →
        ∃ first slot others, slots = first ++ slot :: others ∧ first.length = before.length ∧
          (ScopeKept schema (flatten tree) first slot name after ∨
            FindsEmptyId service slot name)) ∧
      List.Forall₂ (fun slot component => slot.request? ≠ none →
        (component.glues ↔ ∃ name, FindsEmptyId service slot name)) slots resolved := by
  obtain ⟨slots, hslots, hfills⟩ := resolve_eq_ok_iff.mp hresolve
  have hscoped := scoped_flatten tree (wellFormed_of_parse hparse).fieldLiteralsNonempty
  refine ⟨slots, hslots, ?_, hfills.imp fun _ _ hslot => hslot.glues_iff⟩
  rintro before name after rfl
  exact empty_value_cases hscoped hslots hfills

set_option maxRecDepth 10000 in
theorem scope_kept_beside_lookup :
    let service : Service := fun _ => .ok ⟨[[("id", .text "7")]], 1⟩
    let resolved : List Component := [.field "incipit" "", .marker .opening, .bare "Deus",
      .marker .closing, .field "genre_id" "7"]
    ∃ tree, parse "incipit:(Deus) genre:antiphon" = .ok tree ∧
      (resolve .catalogue service (flatten tree)).outcome = .ok resolved ∧
      ∃ slots, slotsOf .catalogue (flatten tree) = .ok slots ∧
        List.Forall₂ (fun slot component => slot.request? ≠ none →
          (component.glues ↔ ∃ name, FindsEmptyId service slot name)) slots resolved := by
  intro service resolved
  have hparse : parse "incipit:(Deus) genre:antiphon" = .ok
      [.group ⟨none, some "incipit", ⟨0, 14⟩⟩ [.literal ⟨none, none, ⟨9, 13⟩⟩ "Deus"],
        .literal ⟨none, some "genre", ⟨15, 29⟩⟩ "antiphon"] := by
    cbv
  refine ⟨_, hparse, by cbv, ?_⟩
  obtain ⟨slots, hslots, _, hglues⟩ :=
    empty_values_resolved _ .catalogue service _ resolved hparse (by cbv)
  exact ⟨slots, hslots, hglues⟩

set_option maxRecDepth 10000 in
/-- The only antiphon has an empty id, so the field of its ids comes to scope the group. -/
theorem empty_id_scopes_group :
    let service : Service := fun _ => .ok ⟨[[("id", .text "")]], 1⟩
    let resolved : List Component := [.field "genre_id" "", .marker .opening, .bare "Deus",
      .marker .closing]
    ∃ tree, parse "genre:antiphon (Deus)" = .ok tree ∧
      .field "genre_id" "" ∉ flatten tree ∧
      resolve .catalogue service (flatten tree) =
        ⟨[.ofQuery "type:genre AND (antiphon)"], .ok resolved⟩ ∧
      render resolved = "genre_id:( Deus  ) " := by
  have hparse : parse "genre:antiphon (Deus)" = .ok
      [.literal ⟨none, some "genre", ⟨0, 14⟩⟩ "antiphon",
        .group ⟨none, none, ⟨15, 21⟩⟩ [.literal ⟨none, none, ⟨16, 20⟩⟩ "Deus"]] := by
    cbv
  exact ⟨_, hparse, by decide, by cbv, by cbv⟩

end ChantSearch.Proofs

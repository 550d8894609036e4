import ChantSearch.Proofs.Resolution.Fanout
import ChantSearch.Proofs.Resolution.Refinement
import ChantSearch.Translation

/-!
# The stages of a translation

A translation ends early if the text is not a query or names a field that the schema does not
know, and has asked nothing by then. Otherwise all lookups are planned on the tree before the
first of them is issued, so what is asked does not depend on any answer.
-/

namespace ChantSearch.Proofs
open Index Query Resolution

variable {μ : Type} {schema : Schema} {service : Service}

mutual

/-- The names of the fields of a term, in the order of the text. -/
def nodeFields : Node μ → List String
  | .connective _ => []
  | .literal head _ => head.field?.toList
  | .group head members => head.field?.toList ++ namedFields members

def namedFields : List (Node μ) → List String
  | [] => []
  | node :: nodes => nodeFields node ++ namedFields nodes

end

/-- The field is listed or cross-referenced. -/
def Knows (schema : Schema) (name : String) : Prop :=
  name ∈ schema.fields ∨ ∃ ref, (name, ref) ∈ schema.crossRefs

/-- The first of the names that the schema does not know. -/
def FirstUnknown (schema : Schema) (names : List String) (name : String) : Prop :=
  ∃ before after, names = before ++ name :: after ∧ (∀ other ∈ before, Knows schema other) ∧
    ¬Knows schema name

lemma isSearchable_iff {name : String} : schema.isSearchable name = true ↔ Knows schema name := by
  have hrefs : (schema.crossRef? name).isSome = true ↔ ∃ ref, (name, ref) ∈ schema.crossRefs := by
    simp [Schema.crossRef?, List.lookup_isSome_iff]
  simp [Schema.isSearchable, Knows, hrefs]

def nameOf? : Component → Option String
  | .field name _ => some name
  | _ => none

lemma unknownField?_eq_find? (cs : List Component) :
    schema.unknownField? cs = (cs.filterMap nameOf?).find? fun name => !schema.isSearchable name := by
  induction cs with
  | nil => rfl
  | cons c cs ih =>
    cases c with
    | bare _ => exact ih
    | marker _ => exact ih
    | field name value =>
      rw [Schema.unknownField?, ih]
      cases hname : schema.isSearchable name <;> simp [nameOf?, hname]

lemma filterMap_signMarker (head : Head μ) : head.signMarker.filterMap nameOf? = [] := by
  obtain ⟨sign?, field?, mark⟩ := head
  cases sign? <;> rfl

mutual

lemma filterMap_components :
    ∀ node : Node μ, node.components.filterMap nameOf? = nodeFields node
  | .connective _ => rfl
  | .literal ⟨sign?, field?, mark⟩ text => by
    rw [Node.components, List.filterMap_append, filterMap_signMarker]
    cases field? <;> rfl
  | .group ⟨sign?, field?, mark⟩ members => by
    have hgroup : (Component.marker .opening :: (flatten members ++ [.marker .closing])).filterMap
        nameOf? = namedFields members := by
      rw [List.filterMap_cons_none rfl, List.filterMap_append, filterMap_flatten members,
        List.filterMap_cons_none rfl, List.filterMap_nil, List.append_nil]
    rw [Node.components, List.filterMap_append, List.filterMap_append, filterMap_signMarker, hgroup]
    cases field? <;> rfl

lemma filterMap_flatten :
    ∀ nodes : List (Node μ), (flatten nodes).filterMap nameOf? = namedFields nodes
  | [] => rfl
  | node :: nodes => by
    rw [flatten, List.filterMap_append, filterMap_components node, filterMap_flatten nodes,
      namedFields]

end

/-- The field that a check of the components refuses is the first unknown one of the tree. -/
lemma unknownField?_eq_some_iff {tree : List (Node μ)} {name : String} :
    schema.unknownField? (flatten tree) = some name ↔
      FirstUnknown schema (namedFields tree) name := by
  rw [unknownField?_eq_find?, filterMap_flatten, List.find?_eq_some_iff_append]
  simp only [Bool.not_eq_true', Bool.not_not, Bool.eq_false_iff, ne_eq, isSearchable_iff]
  constructor
  · rintro ⟨hname, before, after, hsplit, hbefore⟩
    exact ⟨before, after, hsplit, hbefore, hname⟩
  · rintro ⟨before, after, hsplit, hbefore, hname⟩
    exact ⟨hname, before, after, hsplit, hbefore⟩

/-- All that a translation can come to: two early ends, and the resolution of the slots of the
tree. -/
inductive Stage (schema : Schema) (service : Service) (resourceType raw : String) :
    Inquiry QueryError String → Prop
  | illFormed {e : SyntaxError} (hparse : parse raw = .error e) :
      Stage schema service resourceType raw ⟨[], .error (.illFormed e)⟩
  | unknownField {tree : Tree} {name : String} (hparse : parse raw = .ok tree)
      (hname : schema.unknownField? (flatten tree) = some name) :
      Stage schema service resourceType raw ⟨[], .error (.unknownField name)⟩
  | resolved {tree : Tree} (hparse : parse raw = .ok tree)
      (hnames : schema.unknownField? (flatten tree) = none) :
      Stage schema service resourceType raw
        ⟨(inquire service (nodesSlots schema tree)).requests,
          (inquire service (nodesSlots schema tree)).outcome.map fun components =>
            ofType resourceType (Text.trim (render components))⟩

lemma translate_stage (schema : Schema) (service : Service) (resourceType raw : String) :
    Stage schema service resourceType raw (translate schema service resourceType raw) := by
  cases hparse : parse raw with
  | error e =>
    simp only [translate, knownComponents, hparse]
    exact .illFormed hparse
  | ok tree =>
    cases hname : schema.unknownField? (flatten tree) with
    | some name =>
      simp only [translate, knownComponents, hparse, hname]
      exact .unknownField hparse hname
    | none =>
      simp only [translate, knownComponents, hparse, hname,
        resolve_eq_inquire (slotsOf_of_parse hparse)]
      exact .resolved hparse hname

/-- Lookups fail because of the index or because they find nothing. -/
lemma inquire_map_ne {slots : List Slot} {f : List Component → String} {e : QueryError}
    (hservice : ∀ failure, e ≠ .service failure) (hresults : ∀ name, e ≠ .noResults name) :
    (inquire service slots).outcome.map f ≠ .error e := by
  rw [inquire]
  rcases mapM_fill_cases service slots with
    ⟨components, _, hmap⟩ | ⟨_, slot, _, reason, _, _, hfails, hmap⟩
  · simp [hmap, Except.map]
  · simp only [hmap, Except.map, ne_eq, Except.error.injEq]
    cases hfails with
    | unanswered => exact (hservice _).symm
    | noDocument => exact (hresults _).symm
    | noId => exact (hservice _).symm

/-- What a translation asks, told without the index. -/
def asked (schema : Schema) (raw : String) : List Request :=
  match parse raw with
  | .error _ => []
  | .ok tree =>
    if (schema.unknownField? (flatten tree)).isSome then []
    else (nodesSlots schema tree).filterMap Slot.request?

namespace Stage

variable {resourceType raw : String} {inquiry : Inquiry QueryError String}

lemma requests_eq (h : Stage schema service resourceType raw inquiry) :
    inquiry.requests = asked schema raw := by
  cases h with
  | illFormed hparse => simp [asked, hparse]
  | unknownField hparse hname => simp [asked, hparse, hname]
  | resolved hparse hnames => simp [asked, hparse, hnames, inquire]

lemma illFormed_iff (h : Stage schema service resourceType raw inquiry) (e : SyntaxError) :
    inquiry.outcome = .error (.illFormed e) ↔ parse raw = .error e := by
  cases h with
  | illFormed hparse => simp [hparse]
  | unknownField hparse hname => simp [hparse]
  | resolved hparse hnames =>
    rw [hparse]
    exact iff_of_false (inquire_map_ne (by simp) (by simp)) (by simp)

lemma unknownField_iff (h : Stage schema service resourceType raw inquiry) (name : String) :
    inquiry.outcome = .error (.unknownField name) ↔
      ∃ tree, parse raw = .ok tree ∧ FirstUnknown schema (namedFields tree) name := by
  simp only [← unknownField?_eq_some_iff]
  cases h with
  | illFormed hparse => simp [hparse]
  | unknownField hparse hname => simp [hparse, hname]
  | resolved hparse hnames =>
    exact iff_of_false (inquire_map_ne (by simp) (by simp)) (by simp [hparse, hnames])

lemma ne_malformed (h : Stage schema service resourceType raw inquiry) (reason : String) :
    inquiry.outcome ≠ .error (.malformedSubquery reason) := by
  cases h with
  | illFormed hparse => simp
  | unknownField hparse hname => simp
  | resolved hparse hnames => exact inquire_map_ne (by simp) (by simp)

end Stage

lemma unknownField?_eq_none {tree : List (Node μ)}
    (h : ∀ name ∈ namedFields tree, Knows schema name) :
    schema.unknownField? (flatten tree) = none := by
  rw [Option.eq_none_iff_forall_ne_some]
  intro name hname
  obtain ⟨before, after, hsplit, _, hunknown⟩ := unknownField?_eq_some_iff.mp hname
  exact hunknown (h name (by simp [hsplit]))

/-- A translation is refused as ill-formed exactly if the text is no query, and for a field
exactly if that is the first in the text that the schema does not know. Either way nothing is
asked. No group is ever found malformed. What is asked depends on the text and the schema alone:
it is the same for any two services, however their answers arrive. -/
theorem translate_stages (schema : Schema) (raw : String) :
    (∀ service resourceType,
      (∀ e, (translate schema service resourceType raw).outcome = .error (.illFormed e) ↔
        parse raw = .error e) ∧
      (∀ name, (translate schema service resourceType raw).outcome = .error (.unknownField name) ↔
        ∃ tree, parse raw = .ok tree ∧ FirstUnknown schema (namedFields tree) name) ∧
      ∀ reason, (translate schema service resourceType raw).outcome ≠
        .error (.malformedSubquery reason)) ∧
    ∃ requests,
      (∀ service resourceType,
        (translate schema service resourceType raw).requests = requests) ∧
      (∀ e, parse raw = .error e → requests = []) ∧
      (∀ tree name, parse raw = .ok tree → FirstUnknown schema (namedFields tree) name →
        requests = []) ∧
      ∀ tree, parse raw = .ok tree → (∀ name ∈ namedFields tree, Knows schema name) →
        ∃ slots, slotsOf schema (flatten tree) = .ok slots ∧
          ∀ service events s result, Run service (.start slots) events s →
            s.result? = some result → s.issued = requests := by
  constructor
  · intro service resourceType
    have hstage := translate_stage schema service resourceType raw
    exact ⟨hstage.illFormed_iff, hstage.unknownField_iff, hstage.ne_malformed⟩
  refine ⟨asked schema raw, fun service resourceType => ?_, fun e hparse => ?_,
    fun tree name hparse hname => ?_, fun tree hparse hnames => ?_⟩
  · exact (translate_stage schema service resourceType raw).requests_eq
  · simp [asked, hparse]
  · simp [asked, hparse, unknownField?_eq_some_iff.mpr hname]
  · refine ⟨_, slotsOf_of_parse hparse, fun service events s result hrun hresult => ?_⟩
    have hissued := ((hrun.fits (fits_start _)).result_eq hresult).2
    simp [asked, hparse, unknownField?_eq_none hnames, hissued]

set_option maxRecDepth 10000 in
/-- The first unknown field stands in a group that would be looked up as a whole. -/
theorem translate_unknown_in_group :
    translate ⟨[], [("genre", ⟨"genre", "genre_id"⟩)]⟩ (fun _ => .error (.unavailable "down")) "*"
      "genre:(x:a) AND y:b" = ⟨[], .error (.unknownField "x")⟩ := by
  let schema : Schema := ⟨[], [("genre", ⟨"genre", "genre_id"⟩)]⟩
  let service : Service := fun _ => .error (.unavailable "down")
  have hparse : parse "genre:(x:a) AND y:b" = .ok
      [.group ⟨none, some "genre", ⟨0, 11⟩⟩ [.literal ⟨none, some "x", ⟨7, 10⟩⟩ "a"],
        .connective .and, .literal ⟨none, some "y", ⟨16, 19⟩⟩ "b"] := by
    cbv
  have hunknown : FirstUnknown schema ["genre", "x", "y"] "x" :=
    ⟨["genre"], ["y"], rfl, by simp [Knows, schema], by simp [Knows, schema]⟩
  obtain ⟨houtcomes, requests, hasked, _, hearly, _⟩ :=
    translate_stages schema "genre:(x:a) AND y:b"
  have houtcome := ((houtcomes service "*").2.1 "x").mpr ⟨_, hparse, hunknown⟩
  have hrequests := (hasked service "*").trans (hearly _ "x" hparse hunknown)
  change translate schema service "*" _ = _
  rw [← hrequests, ← houtcome]

end ChantSearch.Proofs

import ChantSearch.Proofs.Outcomes
import ChantSearch.Proofs.Translation.Stages

/-!
# Outcomes of translations

A translation succeeds if the text is a query, its fields are known and all its lookups find
records with ids. The text for the index is then made of what fills the slots of the query.
-/

namespace ChantSearch.Proofs
open Index Query Resolution

variable {schema : Schema} {service : Service} {resourceType raw : String}

/-- The text for the index that a query means. -/
inductive Translates (schema : Schema) (service : Service) (resourceType raw : String) :
    String → Prop
  | filled {tree : Tree} {components : List Component} (hparse : parse raw = .ok tree)
      (hknown : ∀ name ∈ namedFields tree, Knows schema name)
      (hfills : List.Forall₂ (Fills service) (nodesSlots schema tree) components) :
      Translates schema service resourceType raw
        (ofType resourceType (Text.trim (render components)))

/-- Why there is no text for the index. -/
inductive Untranslated (schema : Schema) (service : Service) (raw : String) : QueryError → Prop
  | illFormed {e : SyntaxError} (hparse : parse raw = .error e) :
      Untranslated schema service raw (.illFormed e)
  | unknownField {tree : Tree} {name : String} (hparse : parse raw = .ok tree)
      (hname : FirstUnknown schema (namedFields tree) name) :
      Untranslated schema service raw (.unknownField name)
  | lookup {tree : Tree} {e : QueryError} (hparse : parse raw = .ok tree)
      (hknown : ∀ name ∈ namedFields tree, Knows schema name)
      (hfails : FirstFailure (Fills service) (Fails service) (nodesSlots schema tree) e) :
      Untranslated schema service raw e

lemma unknownField?_eq_none_iff {tree : Tree} :
    schema.unknownField? (flatten tree) = none ↔
      ∀ name ∈ namedFields tree, Knows schema name := by
  refine ⟨fun h name hname => ?_, unknownField?_eq_none⟩
  rw [unknownField?_eq_find?, filterMap_flatten, List.find?_eq_none] at h
  exact isSearchable_iff.mp (by simpa using h name hname)

lemma translate_of_parse_error {e : SyntaxError} (hparse : parse raw = .error e) :
    translate schema service resourceType raw = ⟨[], .error (.illFormed e)⟩ := by
  simp only [translate, knownComponents, hparse]

lemma translate_of_unknown {tree : Tree} {name : String} (hparse : parse raw = .ok tree)
    (hname : FirstUnknown schema (namedFields tree) name) :
    translate schema service resourceType raw = ⟨[], .error (.unknownField name)⟩ := by
  simp only [translate, knownComponents, hparse, unknownField?_eq_some_iff.mpr hname]

lemma translate_of_known {tree : Tree} (hparse : parse raw = .ok tree)
    (hknown : ∀ name ∈ namedFields tree, Knows schema name) :
    translate schema service resourceType raw =
      ⟨(nodesSlots schema tree).filterMap Slot.request?,
        ((nodesSlots schema tree).mapM (Slot.fill service)).map fun components =>
          ofType resourceType (Text.trim (render components))⟩ := by
  simp only [translate, knownComponents, hparse, unknownField?_eq_none hknown,
    resolve_eq_inquire (slotsOf_of_parse hparse), inquire]

lemma known_or_firstUnknown (schema : Schema) (tree : Tree) :
    (∀ name ∈ namedFields tree, Knows schema name) ∨
      ∃ name, FirstUnknown schema (namedFields tree) name := by
  cases h : schema.unknownField? (flatten tree) with
  | none => exact .inl (unknownField?_eq_none_iff.mp h)
  | some name => exact .inr ⟨name, unknownField?_eq_some_iff.mp h⟩

lemma told_translate (schema : Schema) (service : Service) (resourceType raw : String) :
    Told (translate schema service resourceType raw).outcome
      (Translates schema service resourceType raw) (Untranslated schema service raw) := by
  have hslots := fun tree : Tree => told_mapM (told_fill service) (nodesSlots schema tree)
  refine told_of_total (fun text h => ?_) (fun e h => ?_) ?_
  · obtain ⟨hparse, hknown, hfills⟩ := h
    rw [translate_of_known hparse hknown, ((hslots _).ok_iff _).mpr hfills]
    rfl
  · cases h with
    | illFormed hparse => rw [translate_of_parse_error hparse]
    | unknownField hparse hname => rw [translate_of_unknown hparse hname]
    | lookup hparse hknown hfails =>
      rw [translate_of_known hparse hknown, ((hslots _).error_iff _).mpr hfails]
      rfl
  · cases hparse : parse raw with
    | error e => exact .inr ⟨_, .illFormed hparse⟩
    | ok tree =>
      rcases known_or_firstUnknown schema tree with hknown | ⟨name, hname⟩
      · rcases (hslots tree).total with ⟨components, hfills⟩ | ⟨e, hfails⟩
        · exact .inl ⟨_, .filled hparse hknown hfills⟩
        · exact .inr ⟨e, .lookup hparse hknown hfails⟩
      · exact .inr ⟨_, .unknownField hparse hname⟩

end ChantSearch.Proofs

import ChantSearch.Proofs.Outcomes
import ChantSearch.Proofs.Resolution.Filling

/-!
# Records and their ids

Which records have an id. A lookup succeeds if the index answers it with records that all have
one, and at least one of them.
-/

namespace ChantSearch.Proofs
open Index Json Resolution

/-- The id of a record is a text, or a number as it is written. -/
inductive HasId (doc : Document) : String → Prop
  | text {id : String} (h : doc.lookup "id" = some (.text id)) : HasId doc id
  | number {n : Number} (h : doc.lookup "id" = some (.number n)) : HasId doc n.write

/-- Why a record has no id. -/
inductive LacksId (doc : Document) : ServiceError → Prop
  | absent (h : doc.lookup "id" = none) :
      LacksId doc (.invalidResponse "id expected on document")
  | other {value : Value} (h : doc.lookup "id" = some value) (htext : ∀ id, value ≠ .text id)
      (hnumber : ∀ n, value ≠ .number n) :
      LacksId doc (.invalidResponse "id expected to be a string or a number")

lemma told_idOf (doc : Document) : Told (idOf doc) (HasId doc) (LacksId doc) := by
  refine told_of_total (fun id h => ?_) (fun e h => ?_) ?_
  · cases h with
    | text h => simp [idOf, h]
    | number h => simp [idOf, h]
  · cases h with
    | absent h => simp [idOf, h]
    | @other value h htext hnumber => cases value <;> simp_all [idOf]
  · cases h : doc.lookup "id" with
    | none => exact .inr ⟨_, .absent h⟩
    | some value =>
      cases value with
      | text id => exact .inl ⟨id, .text h⟩
      | number n => exact .inl ⟨n.write, .number h⟩
      | null => exact .inr ⟨_, .other h (by simp) (by simp)⟩
      | bool b => exact .inr ⟨_, .other h (by simp) (by simp)⟩
      | array items => exact .inr ⟨_, .other h (by simp) (by simp)⟩
      | object members => exact .inr ⟨_, .other h (by simp) (by simp)⟩

lemma Finds.hasIds {service : Service} {request : Request} {results : Results} {ids : List String}
    (h : Finds service request results ids) : List.Forall₂ HasId results.docs ids :=
  ((told_mapM told_idOf results.docs).ok_iff ids).mp h.ids

/-- The index answers a request with records that all have an id, and with at least one. -/
def Succeeds (service : Service) (request : Request) : Prop :=
  ∃ results, service request = .ok results ∧ results.docs ≠ [] ∧
    ∀ doc ∈ results.docs, ∃ id, HasId doc id

variable {service : Service} {slot : Slot} {slots : List Slot}

lemma succeeds_iff {request : Request} :
    Succeeds service request ↔ ∃ results ids, Finds service request results ids := by
  have hids := fun results : Results => told_mapM told_idOf results.docs
  constructor
  · rintro ⟨results, hanswer, hnonempty, hdocs⟩
    obtain ⟨ids, hall⟩ := exists_forall₂_iff.mpr hdocs
    exact ⟨results, ids, hanswer, hnonempty, ((hids results).ok_iff ids).mpr hall⟩
  · rintro ⟨results, ids, hanswer, hnonempty, hall⟩
    exact ⟨results, hanswer, hnonempty,
      exists_forall₂_iff.mp ⟨ids, ((hids results).ok_iff ids).mp hall⟩⟩

lemma exists_fills_iff :
    (∃ component, Fills service slot component) ↔
      ∀ request, slot.request? = some request → Succeeds service request := by
  simp only [succeeds_iff]
  constructor
  · rintro ⟨component, hfills⟩ request hrequest
    cases hfills with
    | keep component => cases hrequest
    | value h =>
      cases hrequest
      exact ⟨_, _, h⟩
    | group h =>
      cases hrequest
      exact ⟨_, _, h⟩
  · intro h
    cases slot with
    | keep component => exact ⟨component, .keep component⟩
    | value field text ref =>
      obtain ⟨results, ids, hfinds⟩ := h _ rfl
      exact ⟨_, .value hfinds⟩
    | group field subquery ref =>
      obtain ⟨results, ids, hfinds⟩ := h _ rfl
      exact ⟨_, .group hfinds⟩

/-- All slots are filled if and only if all that is asked for them succeeds. -/
lemma exists_forall₂_fills_iff :
    (∃ components, List.Forall₂ (Fills service) slots components) ↔
      ∀ request ∈ slots.filterMap Slot.request?, Succeeds service request := by
  rw [exists_forall₂_iff]
  simp only [exists_fills_iff, List.mem_filterMap]
  exact ⟨fun h request ⟨slot, hslot, hrequest⟩ => h slot hslot request hrequest,
    fun h slot hslot request hrequest => h request ⟨slot, hslot, hrequest⟩⟩

end ChantSearch.Proofs

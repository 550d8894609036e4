import ChantSearch.Proofs.Outcomes
import ChantSearch.Resolution.Replacement

/-!
# Filling slots

What fills a slot depends on the answer to its own request and on nothing else. The answer
fails the slot in one of three ways: the index failed, it found no records, or one of the
records has no id.
-/

namespace ChantSearch.Proofs
open Index Query Resolution

variable {service : Service} {slot : Slot} {request : Request}

def answeredIds (field : String) : Except ServiceError Results → Except QueryError (List String)
  | .error e => .error (.service e)
  | .ok results => foundIds field results

/-- What the answer to the request of a slot makes of it. A component that is kept has no
request and waits for no answer. -/
def answered : Slot → Except ServiceError Results → Except QueryError Component
  | .keep component, _ => .ok component
  | .value field _ ref, answer => (answeredIds field answer).map (ranked ref.idField)
  | .group field _ ref, answer => (answeredIds field answer).map (unweighted ref.idField)

lemma answeredIds_service (field query : String) :
    answeredIds field (service (.ofQuery query)) = idsFor service field query := by
  rw [idsFor]
  cases service (.ofQuery query) <;> rfl

lemma answered_service (h : slot.request? = some request) :
    answered slot (service request) = slot.fill service := by
  cases slot with
  | keep component => exact absurd h (by simp [Slot.request?])
  | value field text ref =>
    obtain rfl := Option.some.inj h
    rw [answered, answeredIds_service, Slot.fill]
  | group field subquery ref =>
    obtain rfl := Option.some.inj h
    rw [answered, answeredIds_service, Slot.fill]

/-- A lookup does not say how many records it asks for, or from where on. -/
lemma lookup_unpaged (h : slot.request? = some request) :
    request.start? = none ∧ request.rows? = none := by
  cases slot with
  | keep component => cases h
  | value field text ref =>
    cases h
    exact ⟨rfl, rfl⟩
  | group field subquery ref =>
    cases h
    exact ⟨rfl, rfl⟩

/-- The ids of some records that answer a request. -/
structure Finds (service : Service) (request : Request) (results : Results) (ids : List String) :
    Prop where
  answer : service request = .ok results
  nonempty : results.docs ≠ []
  ids : results.ids = .ok ids

/-- The component that fills a slot. -/
inductive Fills (service : Service) : Slot → Component → Prop
  | keep (component : Component) : Fills service (.keep component) component
  | value {field text : String} {ref : CrossRef} {results : Results} {ids : List String}
      (h : Finds service (.ofQuery (ofType ref.resourceType text)) results ids) :
      Fills service (.value field text ref) (ranked ref.idField ids)
  | group {field subquery : String} {ref : CrossRef} {results : Results} {ids : List String}
      (h : Finds service (.ofQuery subquery) results ids) :
      Fills service (.group field subquery ref) (unweighted ref.idField ids)

def lookupField? : Slot → Option String
  | .keep _ => none
  | .value field _ _ => some field
  | .group field _ _ => some field

/-- Why a slot is not filled. -/
inductive Fails (service : Service) : Slot → QueryError → Prop
  | unanswered {slot : Slot} {request : Request} {e : ServiceError}
      (hrequest : slot.request? = some request) (hanswer : service request = .error e) :
      Fails service slot (.service e)
  | noDocument {slot : Slot} {request : Request} {results : Results} {field : String}
      (hrequest : slot.request? = some request) (hfield : lookupField? slot = some field)
      (hanswer : service request = .ok results) (hempty : results.docs = []) :
      Fails service slot (.noResults field)
  | noId {slot : Slot} {request : Request} {results : Results} {e : ServiceError}
      (hrequest : slot.request? = some request) (hanswer : service request = .ok results)
      (hnonempty : results.docs ≠ []) (hids : results.ids = .error e) :
      Fails service slot (.service e)

lemma answeredIds_cases (slot : Slot) {field : String} (hrequest : slot.request? = some request)
    (hfield : lookupField? slot = some field) :
    (∃ results ids, Finds service request results ids ∧
        answeredIds field (service request) = .ok ids) ∨
      ∃ e, Fails service slot e ∧ answeredIds field (service request) = .error e := by
  cases hanswer : service request with
  | error e => exact .inr ⟨_, .unanswered hrequest hanswer, rfl⟩
  | ok results =>
    by_cases hdocs : results.docs = []
    · refine .inr ⟨_, .noDocument hrequest hfield hanswer hdocs, ?_⟩
      simp [answeredIds, foundIds, hdocs]
    · cases hids : results.ids with
      | error e =>
        refine .inr ⟨_, .noId hrequest hanswer hdocs hids, ?_⟩
        simp [answeredIds, foundIds, hdocs, hids, Except.mapError]
      | ok ids =>
        refine .inl ⟨results, ids, ⟨hanswer, hdocs, hids⟩, ?_⟩
        simp [answeredIds, foundIds, hdocs, hids, Except.mapError]

lemma fill_cases (service : Service) (slot : Slot) :
    (∃ component, Fills service slot component ∧ slot.fill service = .ok component) ∨
      ∃ e, Fails service slot e ∧ slot.fill service = .error e := by
  cases slot with
  | keep component => exact .inl ⟨component, .keep component, rfl⟩
  | value field text ref =>
    rw [Slot.fill, ← answeredIds_service]
    rcases answeredIds_cases (.value field text ref) rfl rfl with
      ⟨results, ids, hfinds, hids⟩ | ⟨e, hfails, hids⟩
    · exact .inl ⟨_, .value hfinds, by rw [hids]; rfl⟩
    · exact .inr ⟨e, hfails, by rw [hids]; rfl⟩
  | group field subquery ref =>
    rw [Slot.fill, ← answeredIds_service]
    rcases answeredIds_cases (.group field subquery ref) rfl rfl with
      ⟨results, ids, hfinds, hids⟩ | ⟨e, hfails, hids⟩
    · exact .inl ⟨_, .group hfinds, by rw [hids]; rfl⟩
    · exact .inr ⟨e, hfails, by rw [hids]; rfl⟩

lemma Finds.answeredIds_eq {request : Request} {results : Results} {ids : List String}
    (h : Finds service request results ids) (field : String) :
    answeredIds field (service request) = .ok ids := by
  simp [answeredIds, foundIds, h.answer, h.nonempty, h.ids, Except.mapError]

lemma Fills.fill_eq {slot : Slot} {component : Component} (h : Fills service slot component) :
    slot.fill service = .ok component := by
  cases h with
  | keep component => rfl
  | value hfinds =>
    rw [Slot.fill, ← answeredIds_service, hfinds.answeredIds_eq]
    rfl
  | group hfinds =>
    rw [Slot.fill, ← answeredIds_service, hfinds.answeredIds_eq]
    rfl

lemma fill_eq_error {slot : Slot} {request : Request} {e : QueryError}
    (hrequest : slot.request? = some request)
    (h : ∀ field, lookupField? slot = some field →
      answeredIds field (service request) = .error e) :
    slot.fill service = .error e := by
  rw [← answered_service hrequest]
  cases slot with
  | keep component => exact absurd hrequest (by simp [Slot.request?])
  | value field text ref =>
    rw [answered, h field rfl]
    rfl
  | group field subquery ref =>
    rw [answered, h field rfl]
    rfl

lemma Fails.fill_eq {slot : Slot} {e : QueryError} (h : Fails service slot e) :
    slot.fill service = .error e := by
  cases h with
  | unanswered hrequest hanswer =>
    exact fill_eq_error hrequest fun field _ => by simp [answeredIds, hanswer]
  | noDocument hrequest hfield hanswer hempty =>
    refine fill_eq_error hrequest fun other hother => ?_
    obtain rfl := Option.some.inj (hfield.symm.trans hother)
    simp [answeredIds, hanswer, foundIds, hempty]
  | noId hrequest hanswer hnonempty hids =>
    exact fill_eq_error hrequest fun field _ => by
      simp [answeredIds, hanswer, foundIds, hnonempty, hids, Except.mapError]

lemma told_fill (service : Service) (slot : Slot) :
    Told (slot.fill service) (Fills service slot) (Fails service slot) := by
  refine told_of_total (fun _ => Fills.fill_eq) (fun _ => Fails.fill_eq) ?_
  rcases fill_cases service slot with ⟨component, hfills, _⟩ | ⟨e, hfails, _⟩
  · exact .inl ⟨component, hfills⟩
  · exact .inr ⟨e, hfails⟩

/-- Slots are all filled, each by its own component, or the leftmost that fails decides. -/
lemma mapM_fill_cases (service : Service) (slots : List Slot) :
    (∃ components, List.Forall₂ (Fills service) slots components ∧
        slots.mapM (Slot.fill service) = .ok components) ∨
      ∃ before slot after e, slots = before ++ slot :: after ∧
        (∀ other ∈ before, ∃ component, Fills service other component) ∧
        Fails service slot e ∧ slots.mapM (Slot.fill service) = .error e := by
  have hslots := told_mapM (told_fill service) slots
  rcases hslots.total with ⟨components, hall⟩ | ⟨e, hfails⟩
  · exact .inl ⟨components, hall, (hslots.ok_iff components).mpr hall⟩
  · have hmap := (hslots.error_iff e).mpr hfails
    obtain ⟨before, slot, after, hsplit, hbefore, hslot⟩ := hfails
    exact .inr ⟨before, slot, after, e, hsplit, hbefore, hslot, hmap⟩

end ChantSearch.Proofs

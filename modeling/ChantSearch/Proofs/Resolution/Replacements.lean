import ChantSearch.Proofs.Index.Documents
import ChantSearch.Schema.Catalogue

/-!
# The ids that stand for a lookup

A lookup is replaced by the ids of the records that answered it, every one of them and in their
order. No request says how many records are wanted, so the index may return some of many that
match; the replacement has no place for the others, and nothing tells that they are missing.
-/

namespace ChantSearch.Proofs
open Index Query Resolution

variable {schema : Schema} {service : Service} {slot : Slot} {component : Component}
  {components resolved : List Component} {request : Request} {results other : Results}
  {ids more : List String}

/-- Resolution succeeds if and only if every slot is filled, and gives what fills them. -/
lemma resolve_eq_ok_iff :
    (resolve schema service components).outcome = .ok resolved ↔
      ∃ slots, slotsOf schema components = .ok slots ∧
        List.Forall₂ (Fills service) slots resolved := by
  unfold resolve
  cases hslots : slotsOf schema components with
  | error fault => simp
  | ok slots => simpa using (told_mapM (told_fill service) slots).ok_iff resolved

lemma resolve_requests {slots : List Slot} (h : slotsOf schema components = .ok slots) :
    (resolve schema service components).requests = slots.filterMap Slot.request? := by
  unfold resolve
  rw [h]

/-- The component that ids make in place of a slot. -/
def replacement : Slot → List String → Component
  | .keep component, _ => component
  | .value _ _ ref, ids => ranked ref.idField ids
  | .group _ _ ref, ids => unweighted ref.idField ids

/-- The component is made of the ids of the records that answered the lookup of the slot. -/
structure ListsIds (service : Service) (slot : Slot) (component : Component) (results : Results)
    (ids : List String) : Prop where
  answer : ∃ request, slot.request? = some request ∧ service request = .ok results
  hasIds : List.Forall₂ HasId results.docs ids
  component_eq : component = replacement slot ids

/-- If there is a lookup for the slot, the component lists as many ids as there are matches. -/
def ListsAll (service : Service) (slot : Slot) (component : Component) : Prop :=
  slot.request? ≠ none →
    ∃ results ids, ListsIds service slot component results ids ∧ ids.length = results.hits

lemma Finds.listsIds (h : Finds service request results ids)
    (hrequest : slot.request? = some request) :
    ListsIds service slot (replacement slot ids) results ids :=
  ⟨⟨request, hrequest, h.answer⟩, h.hasIds, rfl⟩

lemma Fills.listsIds (h : Fills service slot component) (hrequest : slot.request? ≠ none) :
    ∃ results ids, ListsIds service slot component results ids := by
  cases h with
  | keep component => exact absurd rfl hrequest
  | value h => exact ⟨_, _, h.listsIds rfl⟩
  | group h => exact ⟨_, _, h.listsIds rfl⟩

namespace ListsIds

lemma length_eq (h : ListsIds service slot component results ids) :
    ids.length = results.docs.length :=
  h.hasIds.length_eq.symm

lemma results_eq (h : ListsIds service slot component results ids)
    (h' : ListsIds service slot component other more) : results = other := by
  obtain ⟨request, hrequest, hanswer⟩ := h.answer
  obtain ⟨_, hrequest', hanswer'⟩ := h'.answer
  obtain rfl := Option.some.inj (hrequest.symm.trans hrequest')
  exact Except.ok.inj (hanswer.symm.trans hanswer')

/-- Whether all matches are listed is a matter of the answer alone. -/
lemma listsAll_iff (h : ListsIds service slot component results ids) :
    ListsAll service slot component ↔ results.docs.length = results.hits := by
  rw [← h.length_eq]
  constructor
  · intro hall
    obtain ⟨request, hrequest, _⟩ := h.answer
    obtain ⟨other, more, hmore, hlength⟩ := hall (by simp [hrequest])
    obtain rfl := h.results_eq hmore
    rw [h.length_eq, ← hmore.length_eq, hlength]
  · exact fun hlength _ => ⟨results, ids, h, hlength⟩

end ListsIds

lemma Fills.listsAll_iff (h : Fills service slot component) :
    ListsAll service slot component ↔ ∀ request, slot.request? = some request →
      ∀ results, service request = .ok results → results.docs.length = results.hits := by
  cases hrequest : slot.request? with
  | none => simp [ListsAll, hrequest]
  | some request =>
    obtain ⟨results, ids, hlists⟩ := h.listsIds (by simp [hrequest])
    obtain ⟨_, hrequest', hanswer⟩ := hlists.answer
    obtain rfl := Option.some.inj (hrequest.symm.trans hrequest')
    rw [hlists.listsAll_iff]
    simp [hanswer]

lemma forall₂_listsAll_iff {slots : List Slot} (h : List.Forall₂ (Fills service) slots resolved) :
    List.Forall₂ (ListsAll service) slots resolved ↔
      ∀ request ∈ slots.filterMap Slot.request?, ∀ results, service request = .ok results →
        results.docs.length = results.hits := by
  induction h with
  | nil => simp
  | @cons slot component slots components hhead _ ih =>
    rw [List.forall₂_cons, hhead.listsAll_iff, ih]
    cases hrequest : slot.request? <;> simp [hrequest]

/-- Where resolution succeeds, the replacement of every lookup lists the ids of all records of its
answer, in their order. It lists as many as there are matches, for every lookup, if and only if
every answer holds all of its matches. No request says how many it should hold. -/
theorem lookups_listed_iff (schema : Schema) (service : Service)
    (components resolved : List Component)
    (h : (resolve schema service components).outcome = .ok resolved) :
    ∃ slots, slotsOf schema components = .ok slots ∧
      (resolve schema service components).requests = slots.filterMap Slot.request? ∧
      (∀ request ∈ (resolve schema service components).requests,
        request.start? = none ∧ request.rows? = none) ∧
      List.Forall₂ (fun slot component => slot.request? ≠ none → ∃ results ids,
        ListsIds service slot component results ids ∧ ids.length = results.docs.length)
        slots resolved ∧
      (List.Forall₂ (ListsAll service) slots resolved ↔
        ∀ request ∈ (resolve schema service components).requests, ∀ results,
          service request = .ok results → results.docs.length = results.hits) := by
  obtain ⟨slots, hslots, hfills⟩ := resolve_eq_ok_iff.mp h
  rw [resolve_requests hslots]
  refine ⟨slots, hslots, rfl, fun request hrequest => ?_, hfills.imp ?_,
    forall₂_listsAll_iff hfills⟩
  · obtain ⟨slot, _, hslot⟩ := List.mem_filterMap.mp hrequest
    exact lookup_unpaged hslot
  · intro slot component hslot hrequest
    obtain ⟨results, ids, hlists⟩ := hslot.listsIds hrequest
    exact ⟨results, ids, hlists, hlists.length_eq⟩

/-- A value and a group, both with two matches. -/
theorem complete_answers_listed :
    let docs : List Document := [[("id", .text "7")], [("id", .number (.integer 3))]]
    let service : Service := fun _ => .ok ⟨docs, 2⟩
    let components : List Component := [.field "genre" "antiphon", .field "century" "",
      .marker .opening, .bare "20th", .marker .closing]
    let resolved : List Component := [.bare "(genre_id:7^2 OR genre_id:3^1)",
      .bare "(century_id:7 OR century_id:3)"]
    (resolve .catalogue service components).outcome = .ok resolved ∧
      ∃ slots, slotsOf .catalogue components = .ok slots ∧
        List.Forall₂ (ListsAll service) slots resolved := by
  intro docs service components resolved
  have hresolve : (resolve .catalogue service components).outcome = .ok resolved := by
    cbv
  obtain ⟨slots, hslots, _, _, _, hall⟩ := lookups_listed_iff _ _ _ _ hresolve
  refine ⟨hresolve, slots, hslots, hall.mpr fun request _ results hanswer => ?_⟩
  obtain rfl := Except.ok.inj hanswer
  rfl

/-- Of three matches the index returns two. -/
theorem cut_answer_listed_in_part :
    let docs : List Document := [[("id", .text "1")], [("id", .text "2")]]
    let service : Service := fun _ => .ok ⟨docs, 3⟩
    let slot : Slot := .value "genre" "antiphon" ⟨"genre", "genre_id"⟩
    resolve .catalogue service [.field "genre" "antiphon"] =
        ⟨[.ofQuery "type:genre AND (antiphon)"], .ok [.bare "(genre_id:1^2 OR genre_id:2^1)"]⟩ ∧
      slotsOf .catalogue [.field "genre" "antiphon"] = .ok [slot] ∧
      ¬ListsAll service slot (.bare "(genre_id:1^2 OR genre_id:2^1)") := by
  intro docs service slot
  have hlists : ListsIds service slot (.bare "(genre_id:1^2 OR genre_id:2^1)") ⟨docs, 3⟩
      ["1", "2"] :=
    ⟨⟨_, rfl, rfl⟩, .cons (.text rfl) (.cons (.text rfl) .nil), by cbv⟩
  refine ⟨by cbv, rfl, ?_⟩
  rw [hlists.listsAll_iff]
  simp [docs]

end ChantSearch.Proofs

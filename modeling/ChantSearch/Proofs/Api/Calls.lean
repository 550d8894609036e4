import ChantSearch.Proofs.Api.Addressing
import ChantSearch.Proofs.Api.Granting
import ChantSearch.Proofs.Index.Documents
import ChantSearch.Proofs.Translation.Outcome

/-!
# Search calls

What a call has to be for an order to be made of it, what the index is then asked for last, and
which answers of the index can be listed.
-/

namespace ChantSearch.Proofs
open Api Index Resolution

/-- The page size that a call asks for. The body wins over the header. -/
def sizeAsked (call : Call) (body : SearchBody) : Option PageValue :=
  body.perPage?.or (headerValue? call.headers perPageHeader)

/-- The page number that a call asks for. The body wins over the header. -/
def numberAsked (call : Call) (body : SearchBody) : Option PageValue :=
  body.page?.or (headerValue? call.headers pageHeader)

/-- The order that a call makes. -/
inductive Orders (paging : Paging) (call : Call) : SearchOrder → Prop
  | intro {resource : Resource} {body : SearchBody} {page perPage : Nat}
      (hresource : Designates call.path resource) (hmethod : call.method = "SEARCH")
      (hbody : SearchBody.parse call.body = .ok body)
      (hsize : GrantsSize paging (sizeAsked call body) perPage)
      (hnumber : GrantsNumber (numberAsked call body) page) :
      Orders paging call ⟨resource.typeName, body.query, ⟨page, perPage⟩⟩

/-- The record has an id, and a type. -/
structure Identified (doc : Document) (id : String) : Prop where
  id : HasId doc id
  type : (doc.lookup "type").isSome

/-- Why a record cannot be listed. -/
inductive Unidentified (doc : Document) : Refusal → Prop
  | noId (h : ∀ id, ¬HasId doc id) : Unidentified doc .missingId
  | noType {id : String} (hid : HasId doc id) (h : doc.lookup "type" = none) :
      Unidentified doc .missingType

variable {paging : Paging} {site : Site} {call : Call} {order : SearchOrder}

lemma told_recordId (doc : Document) :
    Told (recordId doc) (Identified doc) (Unidentified doc) := by
  have hid := told_idOf doc
  refine told_of_total (fun id h => ?_) (fun refusal h => ?_) ?_
  · simp [recordId, (hid.ok_iff id).mpr h.id, h.type]
  · cases h with
    | noId h =>
      rcases hid.total with ⟨id, hhas⟩ | ⟨e, hlacks⟩
      · exact absurd hhas (h id)
      · simp [recordId, (hid.error_iff e).mpr hlacks]
    | noType hhas h => simp [recordId, (hid.ok_iff _).mpr hhas, h]
  · rcases hid.total with ⟨id, hhas⟩ | ⟨e, hlacks⟩
    · cases htype : doc.lookup "type" with
      | none => exact .inr ⟨_, .noType hhas htype⟩
      | some value => exact .inl ⟨id, hhas, by simp [htype]⟩
    · exact .inr ⟨_, .noId fun id hhas => hid.disjoint hhas hlacks⟩

/-- What is ordered hangs on the page that is granted. -/
lemma orderOf_of_body {resource : Resource} {body : SearchBody}
    (hbody : SearchBody.parse call.body = .ok body) :
    Api.orderOf paging resource call =
      (paging.page (numberAsked call body) (sizeAsked call body)).map
        (⟨resource.typeName, body.query, ·⟩) := by
  simp only [Api.orderOf, hbody, numberAsked, sizeAsked, bind, Except.bind]
  cases paging.page _ _ <;> rfl

lemma orderOf_eq {resource : Resource} {body : SearchBody} {page perPage : Nat}
    (hbody : SearchBody.parse call.body = .ok body)
    (hsize : GrantsSize paging (sizeAsked call body) perPage)
    (hnumber : GrantsNumber (numberAsked call body) page) :
    Api.orderOf paging resource call =
      .ok ⟨resource.typeName, body.query, ⟨page, perPage⟩⟩ := by
  have hpage := ((told_page paging _ _).ok_iff ⟨page, perPage⟩).mpr ⟨hnumber, hsize⟩
  rw [orderOf_of_body hbody, hpage]
  rfl

lemma Orders.callOutcome_eq (h : Orders site.paging call order) :
    callOutcome site call = fulfil site order := by
  obtain ⟨hresource, hmethod, hbody, hsize, hnumber⟩ := h
  have hpath := ((told_resourceAt _).ok_iff _).mpr hresource
  simp [callOutcome, hpath, hmethod, orderOf_eq hbody hsize hnumber]

lemma Orders.unique {other : SearchOrder} (h : Orders paging call order)
    (hother : Orders paging call other) : order = other := by
  obtain ⟨hresource, hmethod, hbody, hsize, hnumber⟩ := h
  obtain ⟨hresource', _, hbody', hsize', hnumber'⟩ := hother
  obtain rfl := Except.ok.inj (hbody.symm.trans hbody')
  obtain rfl := (told_resourceAt _).unique hresource hresource'
  rw [(told_perPage _ _).unique hsize hsize', (told_pageNumber _).unique hnumber hnumber']

lemma Orders.exists_body (h : Orders paging call order) :
    ∃ body, SearchBody.parse call.body = .ok body ∧ order.query = body.query := by
  obtain ⟨_, _, hbody, _, _⟩ := h
  exact ⟨_, hbody, rfl⟩

lemma parse_body_cases (bytes : List UInt8) :
    (∃ body, SearchBody.parse bytes = .ok body) ∨
      SearchBody.parse bytes = .error .invalidBody := by
  unfold SearchBody.parse
  cases readSearchBody.run? bytes with
  | some body => exact .inl ⟨body, rfl⟩
  | none => exact .inr rfl

end ChantSearch.Proofs

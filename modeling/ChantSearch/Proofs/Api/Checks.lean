import ChantSearch.Proofs.Api.Calls

/-!
# Checks of a call

The checks that stand between a call and the records, in their order, and the faults that they
find. A fault is told of the call alone, whatever faults come before it, as far as there are the
data that it is a fault of: the page size of a body that cannot be read has none.
-/

namespace ChantSearch.Proofs
open Api Index Query Resolution

inductive Check where
  | resource
  | method
  | body
  | perPage
  | page
  | grammar
  | fields
  | lookups
  | index
  | results
  | records
  deriving DecidableEq

/-- The checks in their order. -/
def Check.all : List Check :=
  [.resource, .method, .body, .perPage, .page, .grammar, .fields, .lookups, .index, .results,
   .records]

/-- The checks that need no answer of the index. -/
def Check.early : List Check :=
  [.resource, .method, .body, .perPage, .page, .grammar, .fields]

/-- The status code for a refusal at a check. -/
def Check.code : Check → Refusal → Nat
  | .resource, _ => 404
  | .method, _ => 405
  | .body, _ => 400
  | .perPage, .excessivePerPage _ => 507
  | .perPage, _ => 400
  | .page, _ => 400
  | .grammar, _ => 400
  | .fields, _ => 400
  | .lookups, .query (.noResults _) => 404
  | .lookups, _ => 502
  | .index, _ => 502
  | .results, .pageBeyondEnd => 409
  | .results, _ => 404
  | .records, _ => 502

/-- The request for the records of a page, made once all lookups have succeeded. -/
inductive Sends (site : Site) (call : Call) : SearchOrder → Request → Prop
  | intro {order : SearchOrder} {text : String} (horder : Orders site.paging call order)
      (htext : Translates site.schema site.service order.typeName order.query text) :
      Sends site call order (pageRequest order.page text)

/-- The records that the index returns for a page can be listed by these ids. -/
structure Lists (site : Site) (call : Call) (order : SearchOrder) (results : Results)
    (ids : List String) : Prop where
  answer : ∃ request, Sends site call order request ∧ site.service request = .ok results
  nonempty : results.docs ≠ []
  ids : List.Forall₂ Identified results.docs ids

/-- The fault of a call at a check. -/
inductive Fault (site : Site) (call : Call) : Check → Refusal → Prop
  | resource {refusal : Refusal} (hpath : Unaddressed call.path refusal) :
      Fault site call .resource refusal
  | method (hsearch : call.method ≠ "SEARCH") (hoptions : call.method ≠ "OPTIONS") :
      Fault site call .method (.methodNotAllowed call.method)
  | body (hbody : ∀ body, SearchBody.parse call.body ≠ .ok body) :
      Fault site call .body .invalidBody
  | perPage {body : SearchBody} {refusal : Refusal} (hbody : SearchBody.parse call.body = .ok body)
      (hsize : DeniesSize site.paging (sizeAsked call body) refusal) :
      Fault site call .perPage refusal
  | page {body : SearchBody} {refusal : Refusal} (hbody : SearchBody.parse call.body = .ok body)
      (hnumber : DeniesNumber (numberAsked call body) refusal) : Fault site call .page refusal
  | grammar {body : SearchBody} {e : SyntaxError} (hbody : SearchBody.parse call.body = .ok body)
      (hparse : parse body.query = .error e) : Fault site call .grammar (.query (.illFormed e))
  | fields {body : SearchBody} {tree : Tree} {name : String}
      (hbody : SearchBody.parse call.body = .ok body) (hparse : parse body.query = .ok tree)
      (hname : FirstUnknown site.schema (namedFields tree) name) :
      Fault site call .fields (.query (.unknownField name))
  | lookups {body : SearchBody} {tree : Tree} {e : QueryError}
      (hbody : SearchBody.parse call.body = .ok body) (hparse : parse body.query = .ok tree)
      (hfails : FirstFailure (Fills site.service) (Fails site.service)
        (nodesSlots site.schema tree) e) : Fault site call .lookups (.query e)
  | index {order : SearchOrder} {request : Request} {e : ServiceError}
      (hsends : Sends site call order request) (hanswer : site.service request = .error e) :
      Fault site call .index (.query (.service e))
  | beyondEnd {order : SearchOrder} {request : Request} {results : Results}
      (hsends : Sends site call order request) (hanswer : site.service request = .ok results)
      (hempty : results.docs = []) (hhits : 0 < results.hits) :
      Fault site call .results .pageBeyondEnd
  | noResults {order : SearchOrder} {request : Request} {results : Results}
      (hsends : Sends site call order request) (hanswer : site.service request = .ok results)
      (hempty : results.docs = []) (hhits : results.hits = 0) :
      Fault site call .results .noResults
  | records {order : SearchOrder} {request : Request} {results : Results} {refusal : Refusal}
      (hsends : Sends site call order request) (hanswer : site.service request = .ok results)
      (hfirst : FirstFailure Identified Unidentified results.docs refusal) :
      Fault site call .records refusal

/-- The refusal is for the first check that has a fault. -/
def FirstFault (site : Site) (call : Call) (check : Check) (refusal : Refusal) : Prop :=
  ∃ before after, Check.all = before ++ check :: after ∧
    (∀ earlier ∈ before, ∀ other, ¬Fault site call earlier other) ∧ Fault site call check refusal

variable {site : Site} {call : Call} {check : Check} {checks : List Check} {refusal : Refusal}
  {body : SearchBody} {tree : Tree} {order : SearchOrder} {request : Request} {results : Results}

lemma DeniesSize.status_eq {paging : Paging} {value? : Option PageValue}
    (h : DeniesSize paging value? refusal) : refusal.status = Check.perPage.code refusal := by
  cases h <;> rfl

lemma DeniesNumber.status_eq {value? : Option PageValue} (h : DeniesNumber value? refusal) :
    refusal.status = 400 := by
  cases h <;> rfl

lemma Fault.status_eq (h : Fault site call check refusal) :
    refusal.status = check.code refusal := by
  cases h with
  | resource hpath => cases hpath <;> rfl
  | method => rfl
  | body => rfl
  | perPage _ hsize => exact hsize.status_eq
  | page _ hnumber => exact hnumber.status_eq
  | grammar => rfl
  | fields => rfl
  | lookups _ _ hfails =>
    obtain ⟨before, slot, after, _, _, hfails⟩ := hfails
    cases hfails <;> rfl
  | index => rfl
  | beyondEnd => rfl
  | noResults => rfl
  | records _ _ hfirst =>
    obtain ⟨before, doc, after, _, _, hdoc⟩ := hfirst
    cases hdoc <;> rfl

/-! ### Faults and steps -/

lemma fault_resource_iff :
    Fault site call .resource refusal ↔ resourceAt call.path = .error refusal := by
  rw [(told_resourceAt _).error_iff]
  constructor
  · rintro (hpath | _)
    exact hpath
  · exact .resource

/-- The methods that are answered with records. -/
def searchable (call : Call) : Except Refusal Unit :=
  if call.method = "SEARCH" then .ok () else .error (.methodNotAllowed call.method)

lemma fault_method_iff (hoptions : call.method ≠ "OPTIONS") :
    Fault site call .method refusal ↔ searchable call = .error refusal := by
  constructor
  · rintro (_ | ⟨hsearch, _⟩)
    simp [searchable, hsearch]
  · intro h
    by_cases hsearch : call.method = "SEARCH"
    · simp [searchable, hsearch] at h
    · simp only [searchable, hsearch, if_false, Except.error.injEq] at h
      exact h ▸ .method hsearch hoptions

lemma fault_body_iff :
    Fault site call .body refusal ↔ SearchBody.parse call.body = .error refusal := by
  constructor
  · intro h
    cases h with
    | body hbody =>
      rcases parse_body_cases call.body with ⟨body, hparse⟩ | hnone
      · exact absurd hparse (hbody body)
      · exact hnone
  · intro h
    rcases parse_body_cases call.body with ⟨body, hparse⟩ | hnone
    · rw [hparse] at h
      cases h
    · rw [hnone] at h
      cases h
      exact .body (by simp [hnone])

lemma fault_perPage_iff (hbody : SearchBody.parse call.body = .ok body) :
    Fault site call .perPage refusal ↔
      site.paging.perPage (sizeAsked call body) = .error refusal := by
  rw [(told_perPage _ _).error_iff]
  constructor
  · intro h
    cases h with
    | perPage hother hsize =>
      obtain rfl := Except.ok.inj (hbody.symm.trans hother)
      exact hsize
  · exact .perPage hbody

lemma fault_page_iff (hbody : SearchBody.parse call.body = .ok body) :
    Fault site call .page refusal ↔
      Paging.pageNumber (numberAsked call body) = .error refusal := by
  rw [(told_pageNumber _).error_iff]
  constructor
  · intro h
    cases h with
    | page hother hnumber =>
      obtain rfl := Except.ok.inj (hbody.symm.trans hother)
      exact hnumber
  · exact .page hbody

lemma fault_grammar_iff (hbody : SearchBody.parse call.body = .ok body) :
    Fault site call .grammar refusal ↔
      (parse body.query).mapError (fun e => .query (.illFormed e)) = .error refusal := by
  rw [mapError_eq_error_iff]
  constructor
  · intro h
    cases h with
    | grammar hother hparse =>
      obtain rfl := Except.ok.inj (hbody.symm.trans hother)
      exact ⟨_, hparse, rfl⟩
  · rintro ⟨e, hparse, rfl⟩
    exact .grammar hbody hparse

/-- The fields of a query are all known, or the first that is not is refused. -/
def knownFields (schema : Schema) (tree : Tree) : Except Refusal Unit :=
  match schema.unknownField? (flatten tree) with
  | some name => .error (.query (.unknownField name))
  | none => .ok ()

lemma fault_fields_iff (hbody : SearchBody.parse call.body = .ok body)
    (hparse : parse body.query = .ok tree) :
    Fault site call .fields refusal ↔ knownFields site.schema tree = .error refusal := by
  constructor
  · intro h
    cases h with
    | fields hother hparse' hname =>
      obtain rfl := Except.ok.inj (hbody.symm.trans hother)
      obtain rfl := Except.ok.inj (hparse.symm.trans hparse')
      simp [knownFields, unknownField?_eq_some_iff.mpr hname]
  · intro h
    cases hname : site.schema.unknownField? (flatten tree) with
    | none => simp [knownFields, hname] at h
    | some name =>
      simp only [knownFields, hname, Except.error.injEq] at h
      exact h ▸ .fields hbody hparse (unknownField?_eq_some_iff.mp hname)

lemma fault_lookups_iff (hbody : SearchBody.parse call.body = .ok body)
    (hparse : parse body.query = .ok tree) :
    Fault site call .lookups refusal ↔
      ((nodesSlots site.schema tree).mapM (Slot.fill site.service)).mapError .query =
        .error refusal := by
  simp only [mapError_eq_error_iff, (told_mapM (told_fill site.service) _).error_iff]
  constructor
  · intro h
    cases h with
    | lookups hother hparse' hfails =>
      obtain rfl := Except.ok.inj (hbody.symm.trans hother)
      obtain rfl := Except.ok.inj (hparse.symm.trans hparse')
      exact ⟨_, hfails, rfl⟩
  · rintro ⟨e, hfails, rfl⟩
    exact .lookups hbody hparse hfails

lemma Sends.unique {other : SearchOrder} {request' : Request} (h : Sends site call order request)
    (hother : Sends site call other request') : order = other ∧ request = request' := by
  obtain ⟨horder, htext⟩ := h
  obtain ⟨horder', htext'⟩ := hother
  obtain rfl := horder.unique horder'
  rw [(told_translate _ _ _ _).unique htext htext']
  exact ⟨rfl, rfl⟩

lemma fault_index_iff (hsends : Sends site call order request) :
    Fault site call .index refusal ↔
      (site.service request).mapError (fun e => .query (.service e)) = .error refusal := by
  rw [mapError_eq_error_iff]
  constructor
  · intro h
    cases h with
    | index hother hanswer =>
      obtain ⟨_, rfl⟩ := hsends.unique hother
      exact ⟨_, hanswer, rfl⟩
  · rintro ⟨e, hanswer, rfl⟩
    exact .index hsends hanswer

/-- The index returned records, or the page is beyond the end, or nothing matches. -/
def returned (results : Results) : Except Refusal Unit :=
  if results.docs.isEmpty then
    .error (if 0 < results.hits then .pageBeyondEnd else .noResults)
  else
    .ok ()

lemma fault_results_iff (hsends : Sends site call order request)
    (hanswer : site.service request = .ok results) :
    Fault site call .results refusal ↔ returned results = .error refusal := by
  constructor
  · intro h
    cases h with
    | beyondEnd hother hanswer' hempty hhits =>
      obtain ⟨_, rfl⟩ := hsends.unique hother
      obtain rfl := Except.ok.inj (hanswer.symm.trans hanswer')
      simp [returned, hempty, hhits]
    | noResults hother hanswer' hempty hhits =>
      obtain ⟨_, rfl⟩ := hsends.unique hother
      obtain rfl := Except.ok.inj (hanswer.symm.trans hanswer')
      simp [returned, hempty, hhits]
  · intro h
    by_cases hempty : results.docs = []
    · rcases Nat.eq_zero_or_pos results.hits with hhits | hhits
      · simp only [returned, hempty, List.isEmpty_nil, if_true, hhits, lt_irrefl, if_false,
          Except.error.injEq] at h
        exact h ▸ .noResults hsends hanswer hempty hhits
      · simp only [returned, hempty, List.isEmpty_nil, if_true, hhits, Except.error.injEq] at h
        exact h ▸ .beyondEnd hsends hanswer hempty hhits
    · simp [returned, hempty] at h

lemma fault_records_iff (hsends : Sends site call order request)
    (hanswer : site.service request = .ok results) :
    Fault site call .records refusal ↔ results.docs.mapM recordId = .error refusal := by
  rw [(told_mapM told_recordId _).error_iff]
  constructor
  · intro h
    cases h with
    | records hother hanswer' hfirst =>
      obtain ⟨_, rfl⟩ := hsends.unique hother
      obtain rfl := Except.ok.inj (hanswer.symm.trans hanswer')
      exact hfirst
  · exact .records hsends hanswer

end ChantSearch.Proofs

import ChantSearch.Proofs.Api.Passage

/-!
# Answers to calls

A call is answered with records if and only if none of its checks finds a fault. Otherwise the
first check that finds one decides the answer, which is the text of its refusal and nothing else.
-/

namespace ChantSearch.Proofs
open Api Index Query Resolution

variable {site : Site} {call : Call} {check : Check} {refusal : Refusal} {order : SearchOrder}
  {tree : Tree} {request : Request} {results : Results} {ids : List String}

/-- The checks that need an answer, as a row of steps. -/
def listed (site : Site) (order : SearchOrder) (tree : Tree) : Except Refusal Response := do
  let components ← ((nodesSlots site.schema tree).mapM (Slot.fill site.service)).mapError .query
  let text := ofType order.typeName (Text.trim (render components))
  let results ← (site.service (pageRequest order.page text)).mapError fun e =>
    .query (.service e)
  returned results
  let ids ← results.docs.mapM recordId
  pure (recordsResponse order.page results ids)

/-- The call is answered with the records of its page. -/
def Listing (site : Site) (call : Call) (response : Response) : Prop :=
  ∃ order results ids, Lists site call order results ids ∧
    response = recordsResponse order.page results ids

lemma returned_eq_ok_iff : returned results = .ok () ↔ results.docs ≠ [] := by
  rw [returned]
  split <;> simp_all

lemma settles_listed (h : Accepts site call order tree) :
    Settles site call (Listing site call) [.lookups, .index, .results, .records]
      (listed site order tree) := by
  obtain ⟨horder, hparse, hknown⟩ := h
  obtain ⟨body, hbody, hquery⟩ := horder.exists_body
  refine .bind (fun _ => fault_lookups_iff hbody (hquery ▸ hparse)) fun components hfills => ?_
  rw [mapError_eq_ok_iff, (told_mapM (told_fill site.service) _).ok_iff] at hfills
  have hsends := Sends.intro horder (.filled hparse hknown hfills)
  refine .bind (fun _ => fault_index_iff hsends) fun results hanswer => ?_
  rw [mapError_eq_ok_iff] at hanswer
  refine .bind (fun _ => fault_results_iff hsends hanswer) fun _ hreturned => ?_
  rw [returned_eq_ok_iff] at hreturned
  refine .bind (fun _ => fault_records_iff hsends hanswer) fun ids hids => ?_
  rw [(told_mapM told_recordId _).ok_iff] at hids
  exact .done ⟨_, _, _, ⟨⟨_, hsends, hanswer⟩, hreturned, hids⟩, rfl⟩

lemma respond_eq (page : Page) (results : Results) :
    respond page results = (do
      returned results
      let ids ← results.docs.mapM recordId
      pure (recordsResponse page results ids)) := by
  rw [respond, returned]
  split
  · rfl
  · cases results.docs.mapM recordId <;> rfl

lemma Accepts.outcome_eq (h : Accepts site call order tree) :
    (callOutcome site call).outcome = listed site order tree := by
  rw [h.orders.callOutcome_eq, fulfil, translate_of_known h.parses h.known, listed]
  cases (nodesSlots site.schema tree).mapM (Slot.fill site.service) with
  | error e => rfl
  | ok components =>
    simp only [Except.map, Except.mapError, bind, Except.bind]
    cases site.service (pageRequest order.page
        (ofType order.typeName (Text.trim (render components)))) with
    | error e => rfl
    | ok results => exact respond_eq order.page results

/-- The outcome of a call is that of all its checks in a row. -/
lemma settles_callOutcome (hcall : ¬AsksMethods call) :
    Settles site call (Listing site call) Check.all (callOutcome site call).outcome := by
  have haccepted : Settles site call _ _ (accepted site call) := settles_accepted hcall
  have hsteps : (callOutcome site call).outcome =
      accepted site call >>= fun p => listed site p.1 p.2 := by
    rcases haccepted.cases with ⟨p, hp, hok, _⟩ | ⟨_, _, _, refusal, _, _, _, herror⟩
    · rw [hok, hp.outcome_eq]
      rfl
    · rw [herror, callOutcome_of_refused hcall herror]
      rfl
  rw [hsteps]
  exact haccepted.append fun p => settles_listed

lemma search_of_ok {response : Response} (h : (callOutcome site call).outcome = .ok response) :
    search site call = ((callOutcome site call).requests, response) := by
  rw [search]
  split <;> simp_all

lemma search_of_error (h : (callOutcome site call).outcome = .error refusal) :
    search site call = ((callOutcome site call).requests, refusal.toResponse) := by
  rw [search]
  split <;> simp_all

variable {order : SearchOrder} {request : Request} {results : Results} {ids : List String}

lemma Sends.requests_eq (h : Sends site call order request) :
    (callOutcome site call).requests =
      (translate site.schema site.service order.typeName order.query).requests ++ [request] := by
  obtain ⟨horder, htext⟩ := h
  simp only [horder.callOutcome_eq, fulfil, ((told_translate _ _ _ _).ok_iff _).mpr htext]

lemma Sends.outcome_eq (h : Sends site call order request)
    (hanswer : site.service request = .ok results) :
    (callOutcome site call).outcome = respond order.page results := by
  obtain ⟨horder, htext⟩ := h
  simp only [horder.callOutcome_eq, fulfil, ((told_translate _ _ _ _).ok_iff _).mpr htext, hanswer]

lemma Lists.search_eq (h : Lists site call order results ids) :
    (search site call).2 = recordsResponse order.page results ids := by
  obtain ⟨⟨request, hsends, hanswer⟩, hnonempty, hids⟩ := h
  have houtcome : (callOutcome site call).outcome =
      .ok (recordsResponse order.page results ids) := by
    rw [hsends.outcome_eq hanswer]
    simp [respond, hnonempty, ((told_mapM told_recordId _).ok_iff _).mpr hids, Except.map]
  rw [search_of_ok houtcome]

lemma FirstFault.fault (h : FirstFault site call check refusal) :
    Fault site call check refusal := by
  obtain ⟨_, _, _, _, hfault⟩ := h
  exact hfault

lemma FirstFault.search_eq (hcall : ¬AsksMethods call)
    (h : FirstFault site call check refusal) : (search site call).2 = refusal.toResponse := by
  obtain ⟨before, after, hall, hbefore, hfault⟩ := h
  rw [search_of_error ((settles_callOutcome hcall).eq_error hall hbefore hfault)]

end ChantSearch.Proofs

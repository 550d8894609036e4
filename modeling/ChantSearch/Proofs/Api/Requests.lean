import ChantSearch.Proofs.Api.Answer

/-!
# Requests of a call

What a call asks of the index. Nothing is asked before the call has passed all checks that need
no answer. Then all lookups are asked, and the page only if every one of them succeeds.
-/

namespace ChantSearch.Proofs
open Api Index Query Resolution

variable {site : Site} {call : Call} {order : SearchOrder} {tree : Tree}

lemma search_requests_eq (site : Site) (call : Call) :
    (search site call).1 = (callOutcome site call).requests := by
  cases houtcome : (callOutcome site call).outcome with
  | ok response => rw [search_of_ok houtcome]
  | error refusal => rw [search_of_error houtcome]

lemma requests_of_method (site : Site) (hmethod : call.method ≠ "SEARCH") :
    (callOutcome site call).requests = [] := by
  rw [callOutcome]
  cases resourceAt call.path with
  | error refusal => rfl
  | ok resource => by_cases hoptions : call.method = "OPTIONS" <;> simp [hmethod, hoptions]

/-- The lookups of a call are all asked. The page is asked behind them if they all succeed. -/
lemma Accepts.requests_cases (h : Accepts site call order tree) :
    let lookups := (nodesSlots site.schema tree).filterMap Slot.request?
    (∃ request ∈ lookups, ¬Succeeds site.service request) ∧
        (callOutcome site call).requests = lookups ∨
      (∀ request ∈ lookups, Succeeds site.service request) ∧
        ∃ text, Translates site.schema site.service order.typeName order.query text ∧
          (callOutcome site call).requests = lookups ++ [pageRequest order.page text] := by
  intro lookups
  obtain ⟨horder, hparse, hknown⟩ := h
  have hrequests : (translate site.schema site.service order.typeName order.query).requests =
      lookups := by rw [translate_of_known hparse hknown]
  have htold := told_translate site.schema site.service order.typeName order.query
  rcases htold.total with ⟨text, htext⟩ | ⟨e, he⟩
  · have hall : ∀ request ∈ lookups, Succeeds site.service request := by
      obtain ⟨hparse', _, hfills⟩ := htext
      obtain rfl := Except.ok.inj (hparse.symm.trans hparse')
      exact exists_forall₂_fills_iff.mp ⟨_, hfills⟩
    refine .inr ⟨hall, text, htext, ?_⟩
    rw [(Sends.intro horder htext).requests_eq, hrequests]
  · have hnone : ¬∀ request ∈ lookups, Succeeds site.service request := by
      intro hall
      obtain ⟨components, hfills⟩ := exists_forall₂_fills_iff.mpr hall
      exact htold.disjoint (.filled hparse hknown hfills) he
    refine .inl ⟨by simpa using hnone, ?_⟩
    rw [horder.callOutcome_eq, fulfil, (htold.error_iff e).mpr he]
    exact hrequests

/-- A call that is no search, or that has a fault for which no answer is needed, asks nothing.
Every other call asks the lookups of its query in their order, for all records at once. If one of
them does not succeed, that is all; if they all do, one request follows: the translation of the
query, from the position where the page starts and for as many records as it holds. -/
theorem search_requests (site : Site) (call : Call) :
    (call.method ≠ "SEARCH" → (search site call).1 = []) ∧
    (∀ check ∈ Check.early, ∀ refusal, Fault site call check refusal →
      (search site call).1 = []) ∧
    (call.method = "SEARCH" →
      (∀ check ∈ Check.early, ∀ refusal, ¬Fault site call check refusal) →
      ∃ order tree lookups, Orders site.paging call order ∧ parse order.query = .ok tree ∧
        lookups = (nodesSlots site.schema tree).filterMap Slot.request? ∧
        lookups = (translate site.schema site.service order.typeName order.query).requests ∧
        (∀ request ∈ lookups, request.start? = none ∧ request.rows? = none) ∧
        ((∃ request ∈ lookups, ¬Succeeds site.service request) →
          (search site call).1 = lookups) ∧
        ((∀ request ∈ lookups, Succeeds site.service request) →
          ∃ text, (translate site.schema site.service order.typeName order.query).outcome =
              .ok text ∧
            (search site call).1 = lookups ++
              [⟨text, some (min ((order.page.page - 1) * order.page.perPage) (2 ^ 64 - 1)),
                some order.page.perPage, none⟩])) := by
  rw [search_requests_eq]
  by_cases hmethod : call.method = "SEARCH"
  swap
  · have hnothing := requests_of_method site hmethod
    exact ⟨fun _ => hnothing, fun _ _ _ _ => hnothing, fun h => absurd h hmethod⟩
  have hcall : ¬AsksMethods call := fun h => absurd (hmethod.symm.trans h.1) (by decide)
  refine ⟨fun h => absurd hmethod h, ?_⟩
  rcases (settles_accepted hcall).cases with
    ⟨⟨order, tree⟩, haccepts, _, hclear⟩ | ⟨before, check, after, refusal, hall, _, hfault, herror⟩
  swap
  · have hearly : check ∈ Check.early := by simp [hall]
    refine ⟨fun _ _ _ _ => ?_, fun _ hclear => absurd hfault (hclear check hearly refusal)⟩
    rw [callOutcome_of_refused hcall herror]
  refine ⟨fun check hcheck refusal h => absurd h (hclear check hcheck refusal), fun _ _ => ?_⟩
  refine ⟨order, tree, _, haccepts.orders, haccepts.parses, rfl, ?_, ?_, ?_, ?_⟩
  · rw [translate_of_known haccepts.parses haccepts.known]
  · intro request hrequest
    obtain ⟨slot, _, hslot⟩ := List.mem_filterMap.mp hrequest
    exact lookup_unpaged hslot
  · rintro ⟨request, hrequest, hfails⟩
    rcases haccepts.requests_cases with ⟨_, heq⟩ | ⟨hall, _⟩
    · exact heq
    · exact absurd (hall request hrequest) hfails
  · intro hall
    rcases haccepts.requests_cases with ⟨⟨request, hrequest, hfails⟩, _⟩ | ⟨_, text, htext, heq⟩
    · exact absurd (hall request hrequest) hfails
    · exact ⟨text, ((told_translate _ _ _ _).ok_iff text).mpr htext, heq⟩

end ChantSearch.Proofs

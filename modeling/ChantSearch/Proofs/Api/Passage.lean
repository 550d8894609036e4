import ChantSearch.Proofs.Api.Checks

/-!
# Checks in a row

A call goes through its checks one after the other, up to the first that finds a fault. Those that
need no answer of the index come first, and what passes them is an order for a query with known
fields.
-/

namespace ChantSearch.Proofs
open Api Index Query Resolution

variable {α β : Type} {site : Site} {call : Call} {check : Check} {checks : List Check}
  {refusal : Refusal} {P : α → Prop} {Q : β → Prop}

/-- The checks in a row come to an outcome: the first that has a fault refuses, and if there is
none, the result has the property. -/
inductive Settles (site : Site) (call : Call) (P : α → Prop) :
    List Check → Except Refusal α → Prop
  | done {a : α} (h : P a) : Settles site call P [] (.ok a)
  | passed {check : Check} {checks : List Check} {outcome : Except Refusal α}
      (h : ∀ refusal, ¬Fault site call check refusal) (hrest : Settles site call P checks outcome) :
      Settles site call P (check :: checks) outcome
  | refused {check : Check} {refusal : Refusal} (checks : List Check)
      (h : ∀ other, Fault site call check other ↔ refusal = other) :
      Settles site call P (check :: checks) (.error refusal)

lemma Settles.bind {step : Except Refusal β} {rest : β → Except Refusal α}
    (hfault : ∀ refusal, Fault site call check refusal ↔ step = .error refusal)
    (hrest : ∀ b, step = .ok b → Settles site call P checks (rest b)) :
    Settles site call P (check :: checks) (step >>= rest) := by
  cases hstep : step with
  | ok b => exact .passed (fun refusal => by simp [hfault, hstep]) (hrest b hstep)
  | error refusal => exact .refused checks fun other => by simp [hfault, hstep]

lemma Settles.append {outcome : Except Refusal α} {rest : α → Except Refusal β}
    {further : List Check} (h : Settles site call P checks outcome)
    (hrest : ∀ a, P a → Settles site call Q further (rest a)) :
    Settles site call Q (checks ++ further) (outcome >>= rest) := by
  induction h with
  | done h => exact hrest _ h
  | passed hclear _ ih => exact .passed hclear ih
  | refused checks h => exact .refused (checks ++ further) h

/-- A row of checks either comes to a result and no check has a fault, or one has the first. -/
lemma Settles.cases {outcome : Except Refusal α} (h : Settles site call P checks outcome) :
    (∃ a, P a ∧ outcome = .ok a ∧ ∀ check ∈ checks, ∀ refusal, ¬Fault site call check refusal) ∨
      ∃ before check after refusal, checks = before ++ check :: after ∧
        (∀ earlier ∈ before, ∀ other, ¬Fault site call earlier other) ∧
        Fault site call check refusal ∧ outcome = .error refusal := by
  induction h with
  | done h => exact .inl ⟨_, h, rfl, by simp⟩
  | @passed check checks outcome hclear _ ih =>
    rcases ih with ⟨a, ha, rfl, hrest⟩ | ⟨before, failing, after, refusal, rfl, hbefore, hfault⟩
    · exact .inl ⟨a, ha, rfl, List.forall_mem_cons.mpr ⟨hclear, hrest⟩⟩
    · exact .inr ⟨check :: before, failing, after, refusal, rfl,
        List.forall_mem_cons.mpr ⟨hclear, hbefore⟩, hfault⟩
  | @refused check refusal checks h =>
    exact .inr ⟨[], check, checks, refusal, rfl, by simp, (h refusal).mpr rfl, rfl⟩

lemma Settles.eq_error {outcome : Except Refusal α} (h : Settles site call P checks outcome)
    {before after : List Check} (hchecks : checks = before ++ check :: after)
    (hbefore : ∀ earlier ∈ before, ∀ other, ¬Fault site call earlier other)
    (hfault : Fault site call check refusal) : outcome = .error refusal := by
  -- The checks passed so far leave the front of the row, and of the checks before the fault.
  induction h generalizing before with
  | done => simp at hchecks
  | passed hclear _ ih =>
    cases before with
    | nil =>
      obtain ⟨rfl, _⟩ := List.cons.inj hchecks
      exact absurd hfault (hclear refusal)
    | cons earlier before =>
      obtain ⟨rfl, htail⟩ := List.cons.inj hchecks
      exact ih htail fun other hother => hbefore other (List.mem_cons_of_mem _ hother)
  | refused checks h =>
    cases before with
    | nil =>
      obtain ⟨rfl, _⟩ := List.cons.inj hchecks
      rw [(h refusal).mp hfault]
    | cons earlier before =>
      obtain ⟨rfl, _⟩ := List.cons.inj hchecks
      exact absurd ((h _).mpr rfl) (hbefore _ List.mem_cons_self _)

/-- The call asks which methods a resource has. -/
def AsksMethods (call : Call) : Prop :=
  call.method = "OPTIONS" ∧ ∃ resource, Designates call.path resource

/-- The call makes an order for a query with known fields. -/
structure Accepts (site : Site) (call : Call) (order : SearchOrder) (tree : Tree) : Prop where
  orders : Orders site.paging call order
  parses : parse order.query = .ok tree
  known : ∀ name ∈ namedFields tree, Knows site.schema name

/-- The checks that need no answer, as a row of steps. -/
def accepted (site : Site) (call : Call) : Except Refusal (SearchOrder × Tree) := do
  let resource ← resourceAt call.path
  searchable call
  let body ← SearchBody.parse call.body
  let perPage ← site.paging.perPage (sizeAsked call body)
  let page ← Paging.pageNumber (numberAsked call body)
  let tree ← (parse body.query).mapError fun e => .query (.illFormed e)
  knownFields site.schema tree
  pure (⟨resource.typeName, body.query, ⟨page, perPage⟩⟩, tree)

lemma searchable_eq_ok_iff : searchable call = .ok () ↔ call.method = "SEARCH" := by
  rw [searchable]
  split <;> simp_all

lemma knownFields_eq_ok_iff {schema : Schema} {tree : Tree} :
    knownFields schema tree = .ok () ↔ ∀ name ∈ namedFields tree, Knows schema name := by
  rw [← unknownField?_eq_none_iff, knownFields]
  cases schema.unknownField? (flatten tree) <;> simp

lemma settles_accepted (hcall : ¬AsksMethods call) :
    Settles site call (fun p => Accepts site call p.1 p.2) Check.early (accepted site call) := by
  -- What a step gives is what the fault at a later check is told of.
  refine .bind (fun _ => fault_resource_iff) fun resource hresource => ?_
  rw [(told_resourceAt _).ok_iff] at hresource
  have hoptions : call.method ≠ "OPTIONS" := fun h => hcall ⟨h, resource, hresource⟩
  refine .bind (fun _ => fault_method_iff hoptions) fun _ hmethod => ?_
  rw [searchable_eq_ok_iff] at hmethod
  refine .bind (fun _ => fault_body_iff) fun body hbody => ?_
  refine .bind (fun _ => fault_perPage_iff hbody) fun perPage hsize => ?_
  rw [(told_perPage _ _).ok_iff] at hsize
  refine .bind (fun _ => fault_page_iff hbody) fun page hnumber => ?_
  rw [(told_pageNumber _).ok_iff] at hnumber
  refine .bind (fun _ => fault_grammar_iff hbody) fun tree hparse => ?_
  rw [mapError_eq_ok_iff] at hparse
  refine .bind (fun _ => fault_fields_iff hbody hparse) fun _ hknown => ?_
  rw [knownFields_eq_ok_iff] at hknown
  exact .done ⟨.intro hresource hmethod hbody hsize hnumber, hparse, hknown⟩

/-- What is refused by one of these checks is refused before anything is asked. -/
lemma callOutcome_of_refused (hcall : ¬AsksMethods call)
    (h : accepted site call = .error refusal) : callOutcome site call = ⟨[], .error refusal⟩ := by
  revert h
  rw [accepted, callOutcome]
  -- Both sides check in the same order, so each step refuses on both or on neither.
  rcases hresource : resourceAt call.path with other | resource
  · simp [bind, Except.bind]
  have hoptions : call.method ≠ "OPTIONS" :=
    fun h => hcall ⟨h, resource, ((told_resourceAt _).ok_iff _).mp hresource⟩
  by_cases hsearch : call.method = "SEARCH"
  swap
  · simp [searchable, hsearch, hoptions, bind, Except.bind]
  have hsearchable : searchable call = .ok () := searchable_eq_ok_iff.mpr hsearch
  simp only [hsearch, hsearchable, if_true, Api.orderOf, Paging.page, sizeAsked, numberAsked,
    bind, Except.bind]
  rcases SearchBody.parse call.body with other | body
  · simp
  simp only
  rcases site.paging.perPage (body.perPage?.or (headerValue? call.headers perPageHeader)) with
    other | perPage
  · simp
  simp only
  rcases Paging.pageNumber (body.page?.or (headerValue? call.headers pageHeader)) with
    other | page
  · simp
  simp only [pure, Except.pure, fulfil]
  rcases hparse : parse body.query with e | tree
  · simp [translate_of_parse_error hparse, Except.mapError]
  rcases known_or_firstUnknown site.schema tree with hknown | ⟨name, hname⟩
  · simp [Except.mapError, knownFields_eq_ok_iff.mpr hknown]
  · simp [Except.mapError, knownFields, unknownField?_eq_some_iff.mpr hname,
      translate_of_unknown hparse hname]

end ChantSearch.Proofs

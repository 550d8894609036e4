import ChantSearch.Proofs.Text.Trimming
import ChantSearch.Proofs.Translation.Containment
import ChantSearch.Proofs.Translation.Stages
import ChantSearch.Proofs.Translation.ValueLookup

/-!
# Confinement to a type

No query gets out of the parentheses of its filter. The grammar lets neither a parenthesis nor
an odd quote into a literal, a name or a separator; what the schema and the index put in is
assumed to hold none. So the text of each list of terms is contained, and what is made of it.
-/

namespace ChantSearch.Proofs
open Index Query Resolution

variable {μ : Type} {schema : Schema} {service : Service} {glued : Bool}

/-- The text holds no parenthesis and no double quote. -/
def Clean (s : String) : Prop :=
  ∀ x ∈ s.toList, isUncounted x = true

/-- The types and the fields for ids that the schema refers to are clean. -/
def CleanRefs (schema : Schema) : Prop :=
  ∀ name ref, (name, ref) ∈ schema.crossRefs → Clean ref.resourceType ∧ Clean ref.idField

/-- The ids of all records that the index gives are clean. -/
def CleanIds (service : Service) : Prop :=
  ∀ request results doc id, service request = .ok results → doc ∈ results.docs →
    idOf doc = .ok id → Clean id

lemma Clean.contained {s : String} (h : Clean s) : Contained s.toList :=
  contained_uncounted h

lemma Clean.append {s t : String} (hs : Clean s) (ht : Clean t) : Clean (s ++ t) := by
  intro x hx
  rw [String.toList_append, List.mem_append] at hx
  exact hx.elim (hs x) (ht x)

lemma clean_of_all {s : String} (h : s.toList.all isUncounted = true) : Clean s :=
  List.all_eq_true.mp h

lemma clean_toString (n : Nat) : Clean (toString n) := by
  intro x hx
  have hdigits : x ∈ Nat.toDigits 10 n := by rwa [← Nat.toList_repr]
  exact isUncounted_of_apart Char.isDigit (by decide)
    (Nat.isDigit_of_mem_toDigits (by decide) (by decide) hdigits)

lemma clean_intercalate {sep : String} {terms : List String} (hsep : Clean sep)
    (hterms : ∀ term ∈ terms, Clean term) : Clean (sep.intercalate terms) := by
  induction terms with
  | nil => simp [Clean]
  | cons term terms ih =>
    have hterm := hterms term (by simp)
    cases terms with
    | nil => simpa using hterm
    | cons next terms =>
      rw [String.intercalate_cons_cons]
      exact (hterm.append hsep).append (ih fun other hother => hterms other (by simp [hother]))

lemma exists_of_mapM_ok {α β ε : Type} {f : α → Except ε β} {xs : List α} {ys : List β}
    (h : xs.mapM f = .ok ys) {y : β} (hy : y ∈ ys) : ∃ x ∈ xs, f x = .ok y := by
  induction xs generalizing ys with
  | nil =>
    obtain rfl := Except.ok.inj h
    exact absurd hy (by simp)
  | cons x xs ih =>
    rw [List.mapM_cons] at h
    cases hx : f x with
    | error e => simp [hx, bind, Except.bind] at h
    | ok first =>
      cases hxs : xs.mapM f with
      | error e => simp [hx, hxs, bind, Except.bind] at h
      | ok others =>
        rw [hx, hxs] at h
        obtain rfl := Except.ok.inj h
        rcases List.mem_cons.mp hy with rfl | hy
        · exact ⟨x, by simp, hx⟩
        · obtain ⟨other, hother, heq⟩ := ih hxs hy
          exact ⟨other, by simp [hother], heq⟩

lemma CleanIds.idsFor (h : CleanIds service) {field query : String} {ids : List String}
    (hids : idsFor service field query = .ok ids) : ∀ id ∈ ids, Clean id := by
  intro id hid
  rw [Resolution.idsFor] at hids
  cases hanswer : service (.ofQuery query) with
  | error e => simp [hanswer] at hids
  | ok results =>
    simp only [hanswer, foundIds] at hids
    split at hids
    · exact absurd hids (by simp)
    · cases hresults : results.ids with
      | error e => simp [hresults, Except.mapError] at hids
      | ok found =>
        rw [hresults] at hids
        obtain rfl := Except.ok.inj hids
        obtain ⟨doc, hdoc, hfound⟩ := exists_of_mapM_ok hresults hid
        exact h _ results doc id hanswer hdoc hfound

lemma LiteralText.contained {text : String} (h : LiteralText text) : Contained text.toList := by
  rcases h with h | h
  · exact contained_uncounted h.uncounted
  · obtain ⟨body, hbody, huncounted⟩ := h.uncounted
    rw [hbody]
    exact contained_quoted huncounted

lemma contained_bare {text : String} (h : Contained text.toList) :
    Contained (textFrom glued [.bare text]) := by
  have hblank : Contained [' '] := contained_of_all (by decide)
  simpa [Component.piece] using h.append hblank

lemma contained_field {name text : String} (hname : Clean name) (h : Contained text.toList) :
    Contained (textFrom glued [.field name text]) := by
  have hcolon : Contained [':'] := contained_of_all (by decide)
  have hblank : Contained [' '] := contained_of_all (by decide)
  simp only [textFrom_cons, textFrom_nil, List.append_nil, Component.piece]
  split
  · simpa using hname.contained.append hcolon
  · simpa using ((hname.contained.append hcolon).append h).append hblank

lemma contained_marker {m : Marker} (hopen : m ≠ .opening) (hclose : m ≠ .closing) :
    Contained (textFrom glued [.marker m]) := by
  cases m with
  | connective k => cases k <;> cases glued <;> exact contained_of_all (by decide)
  | sign s => cases s <;> cases glued <;> exact contained_of_all (by decide)
  | opening => exact absurd rfl hopen
  | closing => exact absurd rfl hclose

lemma contained_signMarker (head : Head μ) : Contained (textFrom glued head.signMarker) := by
  obtain ⟨sign?, field?, mark⟩ := head
  cases sign? with
  | none => exact contained_nil
  | some s => exact contained_marker (by simp) (by simp)

lemma contained_scope {head : Head μ} (h : ∀ name ∈ head.field?, FieldName name.toList) :
    Contained (textFrom glued head.scope) := by
  obtain ⟨sign?, field?, mark⟩ := head
  cases field? with
  | none => exact contained_nil
  | some name => exact contained_field (h name rfl).uncounted contained_nil

lemma contained_literalComponent {head : Head μ} {text : String}
    (h : ∀ name ∈ head.field?, FieldName name.toList) (htext : LiteralText text) :
    Contained (textFrom glued [head.literalComponent text]) := by
  obtain ⟨sign?, field?, mark⟩ := head
  cases field? with
  | none => exact contained_bare htext.contained
  | some name => exact contained_field (h name rfl).uncounted htext.contained

lemma contained_alternatives {terms : List String} (h : ∀ term ∈ terms, Clean term) :
    Contained (textFrom glued [alternatives terms]) := by
  have hclean : Clean (" OR ".intercalate terms) := clean_intercalate (clean_of_all (by decide)) h
  have hparenthesis := hclean.contained.parenthesised
  apply contained_bare
  simpa using hparenthesis

lemma clean_weightedTerms {idField : String} (hfield : Clean idField) {ids : List String}
    (h : ∀ id ∈ ids, Clean id) : ∀ term ∈ weightedTerms idField ids, Clean term := by
  induction ids with
  | nil => simp [weightedTerms]
  | cons id ids ih =>
    have hid := h id (by simp)
    intro term hterm
    rcases List.mem_cons.mp hterm with rfl | hterm
    · have hcolon : Clean ":" := clean_of_all (by decide)
      have hcaret : Clean "^" := clean_of_all (by decide)
      have hterm := ((hfield.append hcolon).append hid).append hcaret
      exact hterm.append (clean_toString (ids.length + 1))
    · exact ih (fun other hother => h other (by simp [hother])) term hterm

lemma contained_ranked {idField : String} (hfield : Clean idField) {ids : List String}
    (h : ∀ id ∈ ids, Clean id) : Contained (textFrom glued [ranked idField ids]) := by
  unfold ranked
  split
  · exact contained_field hfield (h _ (by simp)).contained
  · exact contained_alternatives (clean_weightedTerms hfield h)

lemma contained_unweighted {idField : String} (hfield : Clean idField) {ids : List String}
    (h : ∀ id ∈ ids, Clean id) : Contained (textFrom glued [unweighted idField ids]) := by
  apply contained_alternatives
  intro term hterm
  obtain ⟨id, hid, rfl⟩ := List.mem_map.mp hterm
  have hcolon : Clean ":" := clean_of_all (by decide)
  exact (hfield.append hcolon).append (h id hid)

/-- The text of the components that the inquiry comes to is contained. -/
def Confined (inquiry : Inquiry QueryError (List Component)) : Prop :=
  ∀ cs, inquiry.outcome = .ok cs → ∀ glued, Contained (textFrom glued cs)

lemma confined_settled {cs : List Component} (h : ∀ glued, Contained (textFrom glued cs)) :
    Confined (settled cs) := by
  intro found hfound
  obtain rfl := Except.ok.inj hfound
  exact h

lemma followedBy_ok {first second : Inquiry QueryError (List Component)} {cs : List Component}
    (h : (followedBy first second).outcome = .ok cs) :
    ∃ ds es, first.outcome = .ok ds ∧ second.outcome = .ok es ∧ cs = ds ++ es := by
  cases hfirst : first.outcome with
  | error e => simp [followedBy, hfirst, bind, Except.bind] at h
  | ok ds =>
    cases hsecond : second.outcome with
    | error e => simp [followedBy, hfirst, hsecond, bind, Except.bind] at h
    | ok es =>
      simp only [followedBy, hfirst, hsecond] at h
      exact ⟨ds, es, rfl, rfl, (Except.ok.inj h).symm⟩

lemma Confined.followedBy {first second : Inquiry QueryError (List Component)}
    (hfirst : Confined first) (hsecond : Confined second) :
    Confined (followedBy first second) := by
  intro cs hcs glued
  obtain ⟨ds, es, hds, hes, rfl⟩ := followedBy_ok hcs
  rw [textFrom_append]
  exact (hfirst ds hds glued).append (hsecond es hes _)

/-- A group is contained if its members are. -/
lemma Confined.group {inquiry : Inquiry QueryError (List Component)} (h : Confined inquiry)
    {scope : List Component} (hscope : ∀ glued, Contained (textFrom glued scope)) :
    Confined (ChantSearch.Proofs.followedBy (settled (scope ++ [.marker .opening]))
      (ChantSearch.Proofs.followedBy inquiry (settled [.marker .closing]))) := by
  intro cs hcs glued
  obtain ⟨_, rest, hds, hrest, rfl⟩ := followedBy_ok hcs
  obtain rfl := Except.ok.inj hds
  obtain ⟨members, _, hmembers, hes, rfl⟩ := followedBy_ok hrest
  obtain rfl := Except.ok.inj hes
  have hblank : Contained [' '] := contained_of_all (by decide)
  have hinside := (hblank.append (h members hmembers false)).append hblank
  have hgroup := hinside.parenthesised.append hblank
  rw [List.append_assoc, textFrom_append]
  apply (hscope glued).append
  cases gluesAfter glued scope with
  | true => simpa [textFrom_append, Component.piece, Component.glues, Marker.toString] using hgroup
  | false =>
    simpa [textFrom_append, Component.piece, Component.glues, Marker.toString] using
      hblank.append hgroup

lemma confined_lookedUp {field query : String} {make : List String → Component}
    (hids : CleanIds service)
    (hmake : ∀ ids, (∀ id ∈ ids, Clean id) → ∀ glued, Contained (textFrom glued [make ids])) :
    Confined (lookedUp service field query make) := by
  intro cs hcs
  rw [lookedUp] at hcs
  cases hfound : idsFor service field query with
  | error e => simp [hfound, Except.map] at hcs
  | ok ids =>
    simp only [hfound, Except.map] at hcs
    obtain rfl := Except.ok.inj hcs
    exact hmake ids (hids.idsFor hfound)

/-- A well-formed list of terms is confined, whatever of it is replaced. -/
lemma WellFormed.confined {ts : List (Node μ)} (h : WellFormed ts) (hrefs : CleanRefs schema)
    (hids : CleanIds service) : Confined (resolveNodes schema service ts) := by
  have hnil : Confined (settled []) := confined_settled fun _ => contained_nil
  induction h with
  | @literal head text hhead htext =>
    rw [resolveNodes, resolveNode, resolveNodes]
    refine Confined.followedBy (.followedBy (confined_settled fun _ => contained_signMarker head) ?_)
      hnil
    cases hcross : crossRefOf schema head with
    | none => exact confined_settled fun _ => contained_literalComponent hhead.name htext
    | some found =>
      obtain ⟨name, ref⟩ := found
      have hfield := (hrefs name ref (mem_of_crossRef? (crossRefOf_eq_some_iff.mp hcross).2)).2
      exact confined_lookedUp hids fun ids hclean _ => contained_ranked hfield hclean
  | @group head members hhead _ ih =>
    rw [resolveNodes, resolveNode, resolveNodes]
    refine Confined.followedBy (.followedBy (confined_settled fun _ => contained_signMarker head) ?_)
      hnil
    cases hcross : crossRefOf schema head with
    | none => exact ih.group fun _ => contained_scope hhead.name
    | some found =>
      obtain ⟨name, ref⟩ := found
      have hfield := (hrefs name ref (mem_of_crossRef? (crossRefOf_eq_some_iff.mp hcross).2)).2
      exact confined_lookedUp hids fun ids hclean _ => contained_unweighted hfield hclean
  | @joined ts us k? _ _ ihts ihus =>
    rw [resolveNodes_append, resolveNodes_append]
    refine ihts.followedBy (Confined.followedBy ?_ ihus)
    cases k? with
    | none => exact hnil
    | some k =>
      exact Confined.followedBy
        (confined_settled fun _ => contained_marker (by simp) (by simp)) hnil

/-! ### The filter -/

/-- The text is the filter of a type around another, which stays within the parentheses. -/
structure Filtered (resourceType body text : String) : Prop where
  text : text = "type:" ++ resourceType ++ " AND (" ++ body ++ ")"
  /-- The parenthesis of the filter stands neither in quotes nor in another parenthesis. -/
  front : Place.behind ⟨false, 0⟩ ("type:" ++ resourceType ++ " AND ").toList = some ⟨false, 0⟩
  even_quotes : Even (body.toList.count '"')
  unquoted : ∀ before x after, body.toList = before ++ x :: after → x = '(' ∨ x = ')' →
    Even (before.count '"')
  nested : ∀ before after, body.toList = before ++ after → before.count ')' ≤ before.count '('
  balanced : body.toList.count '(' = body.toList.count ')'
  /-- It is closed by the last character. -/
  closed : Place.closing? ⟨false, 1⟩ (body.toList ++ [')']) = some body.toList.length

lemma filtered_ofType {resourceType body : String} (htype : Clean resourceType)
    (h : Contained body.toList) : Filtered resourceType body (ofType resourceType body) where
  text := ofType_eq resourceType body
  front := by
    have hlabel : Clean "type:" := clean_of_all (by decide)
    have hand : Clean " AND " := clean_of_all (by decide)
    exact ((hlabel.append htype).append hand).contained 0
  even_quotes := h.even_quotes
  unquoted before x after hbody hx := by
    rw [hbody] at h
    exact h.unquoted hx
  nested before after hbody := by
    rw [hbody] at h
    exact h.nested
  balanced := h.balanced
  closed := h.closing?_eq []

lemma Contained.trim {text : String} (h : Contained text.toList) :
    Contained (Text.trim text).toList := by
  obtain ⟨before, after, htext, hbefore, hafter⟩ := trim_split text
  have huncounted {x : Char} (hx : Text.isBlank x = true) : isUncounted x = true :=
    isUncounted_of_apart _ (by decide) hx
  rw [htext] at h
  exact h.middle (fun x hx => huncounted (hbefore x hx)) fun x hx => huncounted (hafter x hx)

namespace Stage

variable {resourceType raw : String} {inquiry : Inquiry QueryError String}

lemma filtered (h : Stage schema service resourceType raw inquiry) (htype : Clean resourceType)
    (hrefs : CleanRefs schema) (hids : CleanIds service) {q : String}
    (hq : inquiry.outcome = .ok q) : ∃ body, Filtered resourceType body q := by
  cases h with
  | illFormed => exact absurd hq (by simp)
  | unknownField => exact absurd hq (by simp)
  | @resolved tree hparse _ =>
    have hconfined := (wellFormed_of_parse hparse).confined hrefs hids
    rw [← inquire_nodesSlots] at hconfined
    cases hfound : (inquire service (nodesSlots schema tree)).outcome with
    | error e => simp [hfound, Except.map] at hq
    | ok components =>
      simp only [hfound, Except.map] at hq
      obtain rfl := Except.ok.inj hq
      have hrender : Contained (render components).toList := by
        rw [toList_render]
        exact hconfined components hfound false
      exact ⟨_, filtered_ofType htype hrender.trim⟩

lemma request_filtered (h : Stage schema service resourceType raw inquiry)
    (hrefs : CleanRefs schema) {request : Request} (hrequest : request ∈ inquiry.requests) :
    ∃ tree slots slot, parse raw = .ok tree ∧ slotsOf schema (flatten tree) = .ok slots ∧
      slot ∈ slots ∧ slot.request? = some request ∧
      ∀ name text ref, slot = .value name text ref →
        .field name text ∈ flatten tree ∧ schema.crossRef? name = some ref ∧
        Filtered ref.resourceType text request.query := by
  cases h with
  | illFormed => exact absurd hrequest (by simp)
  | unknownField => exact absurd hrequest (by simp)
  | @resolved tree hparse _ =>
    obtain ⟨slot, hslot, hissued⟩ := List.mem_filterMap.mp hrequest
    refine ⟨tree, _, slot, hparse, slotsOf_of_parse hparse, hslot, hissued, ?_⟩
    rintro name text ref rfl
    obtain ⟨hfield, href, htext⟩ := (wellFormed_of_parse hparse).value_slot hslot
    obtain rfl := Option.some.inj hissued
    have htype := (hrefs name ref (mem_of_crossRef? href)).1
    exact ⟨hfield, href, filtered_ofType htype htext.contained⟩

end Stage

/-- If the schema, the type and the ids of the index are clean, then no query gets out of the
parentheses of the filter: the last character of the translation closes the one behind AND. So
it is with what is asked for a value, within the filter of its own type. -/
theorem translate_confined (schema : Schema) (service : Service) (resourceType raw : String)
    (htype : Clean resourceType) (hrefs : CleanRefs schema) (hids : CleanIds service) :
    (∀ q, (translate schema service resourceType raw).outcome = .ok q →
      ∃ body, Filtered resourceType body q) ∧
    ∀ request ∈ (translate schema service resourceType raw).requests,
      ∃ tree slots slot, parse raw = .ok tree ∧ slotsOf schema (flatten tree) = .ok slots ∧
        slot ∈ slots ∧ slot.request? = some request ∧
        ∀ name text ref, slot = .value name text ref →
          .field name text ∈ flatten tree ∧ schema.crossRef? name = some ref ∧
          Filtered ref.resourceType text request.query := by
  have hstage := translate_stage schema service resourceType raw
  exact ⟨fun _ => hstage.filtered htype hrefs hids, fun _ => hstage.request_filtered hrefs⟩

set_option maxRecDepth 10000 in
theorem translate_confined_lookup :
    ∃ schema service,
      translate schema service "*" "-genre:mass OR incipit:\"a b\"" =
        ⟨[.ofQuery "type:genre AND (mass)"],
          .ok "type:* AND (-(genre_id:7^2 OR genre_id:12^1)  OR incipit:\"a b\")"⟩ ∧
      (∃ body, Filtered "*" body
        "type:* AND (-(genre_id:7^2 OR genre_id:12^1)  OR incipit:\"a b\")") ∧
      Filtered "genre" "mass" "type:genre AND (mass)" := by
  let schema : Schema := ⟨["incipit"], [("genre", ⟨"genre", "genre_id"⟩)]⟩
  let service : Service := fun _ => .ok ⟨[[("id", .text "7")], [("id", .text "12")]], 2⟩
  have hrefs : CleanRefs schema := by
    intro name ref href
    obtain ⟨rfl, rfl⟩ : name = "genre" ∧ ref = ⟨"genre", "genre_id"⟩ := by simpa [schema] using href
    exact ⟨clean_of_all (by decide), clean_of_all (by decide)⟩
  have hids : CleanIds service := by
    intro request results doc id hanswer hdoc hid
    obtain rfl := Except.ok.inj hanswer
    rcases (by simpa using hdoc : doc = [("id", .text "7")] ∨ doc = [("id", .text "12")]) with
      rfl | rfl
    all_goals
      obtain rfl := Except.ok.inj hid
      exact clean_of_all (by decide)
  have htranslate : translate schema service "*" "-genre:mass OR incipit:\"a b\"" =
      ⟨[.ofQuery "type:genre AND (mass)"],
        .ok "type:* AND (-(genre_id:7^2 OR genre_id:12^1)  OR incipit:\"a b\")"⟩ := by
    cbv
  have hparse : parse "-genre:mass OR incipit:\"a b\"" = .ok
      [.literal ⟨some .minus, some "genre", ⟨0, 11⟩⟩ "mass", .connective .or,
        .literal ⟨none, some "incipit", ⟨15, 28⟩⟩ "\"a b\""] := by
    cbv
  obtain ⟨houtcome, hrequests⟩ := translate_confined schema service "*"
    "-genre:mass OR incipit:\"a b\"" (clean_of_all (by decide)) hrefs hids
  rw [htranslate] at houtcome hrequests
  obtain ⟨tree, slots, slot, htree, hslots, hslot, hissued, hvalue⟩ :=
    hrequests _ (List.mem_singleton.mpr rfl)
  obtain rfl := Except.ok.inj (hparse.symm.trans htree)
  have hplan : (.ok [.keep (.marker (.sign .minus)), .value "genre" "mass" ⟨"genre", "genre_id"⟩,
      .keep (.marker (.connective .or)), .keep (.field "incipit" "\"a b\"")] :
      Except GroupFault (List Slot)) = .ok slots := hslots
  obtain rfl := Except.ok.inj hplan
  simp only [List.mem_cons, List.not_mem_nil, or_false] at hslot
  rcases hslot with rfl | rfl | rfl | rfl
  · exact absurd hissued (by simp [Slot.request?])
  · exact ⟨schema, service, htranslate, houtcome _ rfl, (hvalue _ _ _ rfl).2.2⟩
  · exact absurd hissued (by simp [Slot.request?])
  · exact absurd hissued (by simp [Slot.request?])

end ChantSearch.Proofs

import ChantSearch.Index.Select
import ChantSearch.Proofs.Index.Documents
import ChantSearch.Proofs.Json.Reading

/-!
# Replies of the index

A reply gives the number of matches and all records that it lists, as they are, or it is refused as
a whole, for the first thing that it lacks. What else it holds does not matter.
-/

namespace ChantSearch.Proofs
open Index Json

/-- The value is an object with this member. -/
inductive HasMember (name : String) : Value → Value → Prop
  | intro {members : List (String × Value)} {value : Value}
      (h : members.lookup name = some value) : HasMember name (.object members) value

/-- The results that a reply holds. -/
inductive Replies (reply : Value) : Results → Prop
  | intro {response : Value} {hits : Nat} {docs : List Document}
      (hresponse : HasMember "response" reply response)
      (hcount : HasMember "numFound" response (.number (.integer hits)))
      (hdocs : HasMember "docs" response (.array (docs.map .object))) : Replies reply ⟨docs, hits⟩

/-- What a reply lacks first. -/
inductive Lacks (reply : Value) : ReplyFault → Prop
  | noResponse (h : ∀ response, ¬HasMember "response" reply response) : Lacks reply .noResponse
  | noCount {response : Value} (hresponse : HasMember "response" reply response)
      (h : ∀ count, ¬HasMember "numFound" response count) : Lacks reply .noCount
  | countNoNumber {response count : Value} (hresponse : HasMember "response" reply response)
      (hcount : HasMember "numFound" response count)
      (h : ∀ n : Nat, count ≠ .number (.integer n)) : Lacks reply .countNoNumber
  | noDocs {response : Value} {hits : Nat} (hresponse : HasMember "response" reply response)
      (hcount : HasMember "numFound" response (.number (.integer hits)))
      (h : ∀ docs, ¬HasMember "docs" response docs) : Lacks reply .noDocs
  | docsNoArray {response docs : Value} {hits : Nat}
      (hresponse : HasMember "response" reply response)
      (hcount : HasMember "numFound" response (.number (.integer hits)))
      (hdocs : HasMember "docs" response docs) (h : ∀ items, docs ≠ .array items) :
      Lacks reply .docsNoArray
  | docNoObject {response item : Value} {hits : Nat} {items : List Value}
      (hresponse : HasMember "response" reply response)
      (hcount : HasMember "numFound" response (.number (.integer hits)))
      (hdocs : HasMember "docs" response (.array items)) (hitem : item ∈ items)
      (h : ∀ doc, item ≠ .object doc) : Lacks reply .docNoObject

variable {name text : String} {value other reply : Value} {results : Results} {items : List Value}
  {docs : List Document}

lemma member?_eq_some_iff : value.member? name = some other ↔ HasMember name value other := by
  constructor
  · intro h
    cases value with
    | object members => exact .intro h
    | _ => cases h
  · rintro ⟨h⟩
    exact h

lemma HasMember.unique {first second : Value} (h : HasMember name value first)
    (hother : HasMember name value second) : first = second :=
  Option.some.inj ((member?_eq_some_iff.mpr h).symm.trans (member?_eq_some_iff.mpr hother))

lemma toNat?_eq_some_iff {n : Nat} : value.toNat? = some n ↔ value = .number (.integer n) := by
  cases value with
  | number m =>
    cases m with
    | integer m => cases m <;> simp [Value.toNat?, Int.toNat?]
    | real x => simp [Value.toNat?]
  | _ => simp [Value.toNat?]

lemma toMembers?_eq_some_iff {doc : Document} :
    value.toMembers? = some doc ↔ value = .object doc := by
  cases value <;> simp [Value.toMembers?]

lemma toItems?_eq_some_iff : value.toItems? = some items ↔ value = .array items := by
  cases value <;> simp [Value.toItems?]

/-- A part is demanded with one fault, whatever else there is instead of it. -/
lemma told_demand {α : Type} (fault : ReplyFault) (part? : Option α) {Part : α → Prop}
    (h : ∀ a, part? = some a ↔ Part a) :
    Told (demand fault part?) Part (fun e => e = fault ∧ ∀ a, ¬Part a) := by
  cases part? with
  | none => exact ⟨by simp [demand, ← h], by simp [demand, ← h, eq_comm]⟩
  | some a => exact ⟨by simp [demand, ← h], by simp [demand, ← h]⟩

lemma forall₂_object_iff :
    List.Forall₂ (fun item doc => item = Value.object doc) items docs ↔
      items = docs.map .object := by
  rw [← List.forall₂_eq_eq_eq, List.forall₂_map_right_iff]

lemma exists_records_iff :
    (∃ docs : List Document, items = docs.map .object) ↔
      ∀ item ∈ items, ∃ doc, item = .object doc := by
  simp only [← forall₂_object_iff, exists_forall₂_iff]

/-- Items are all taken for records, or none of them is. -/
lemma told_readItems (items : List Value) :
    Told (items.mapM fun item => demand .docNoObject item.toMembers?)
      (fun docs => items = docs.map .object)
      (fun fault => fault = .docNoObject ∧ ∃ item ∈ items, ∀ doc, item ≠ .object doc) := by
  have htold := told_mapM (fun item : Value =>
    told_demand .docNoObject item.toMembers? fun _ => toMembers?_eq_some_iff) items
  refine told_of_total (fun docs h => (htold.ok_iff docs).mpr (forall₂_object_iff.mpr h))
    (fun fault h => ?_) ?_
  · -- Whichever item is the first that is no record, the fault is the same.
    obtain ⟨rfl, item, hitem, hother⟩ := h
    rcases htold.total with ⟨docs, hdocs⟩ | ⟨fault, hfirst⟩
    · obtain ⟨doc, hdoc⟩ := exists_forall₂_iff.mp ⟨docs, hdocs⟩ item hitem
      exact absurd hdoc (hother doc)
    · have hfault := (htold.error_iff fault).mpr hfirst
      obtain ⟨_, _, _, _, _, rfl, _⟩ := hfirst
      exact hfault
  · by_cases h : ∀ item ∈ items, ∃ doc, item = .object doc
    · exact .inl (exists_records_iff.mpr h)
    · push Not at h
      exact .inr ⟨_, rfl, h⟩

lemma told_readReply (reply : Value) : Told (readReply reply) (Replies reply) (Lacks reply) := by
  have hsteps :=
    (told_demand .noResponse (reply.member? "response") fun _ => member?_eq_some_iff).bind
      fun response _ =>
    (told_demand .noCount (response.member? "numFound") fun _ => member?_eq_some_iff).bind
      fun count _ =>
    (told_demand .countNoNumber count.toNat? fun _ => toNat?_eq_some_iff).bind fun hits _ =>
    (told_demand .noDocs (response.member? "docs") fun _ => member?_eq_some_iff).bind fun docs _ =>
    (told_demand .docsNoArray docs.toItems? fun _ => toItems?_eq_some_iff).bind fun items _ =>
    (told_readItems items).bind fun docs _ => told_pure (Results.mk docs hits)
  -- The steps fail in the order in which the faults are listed.
  refine ⟨fun results => (hsteps.ok_iff results).trans ⟨?_, ?_⟩,
    fun fault => (hsteps.error_iff fault).trans ⟨?_, ?_⟩⟩
  · rintro ⟨response, hresponse, _, hcount, hits, rfl, _, hdocs, _, rfl, docs, rfl, rfl⟩
    exact .intro hresponse hcount hdocs
  · rintro ⟨hresponse, hcount, hdocs⟩
    exact ⟨_, hresponse, _, hcount, _, rfl, _, hdocs, _, rfl, _, rfl, rfl⟩
  · rintro (⟨rfl, h⟩ | ⟨response, hresponse, ⟨rfl, h⟩ | ⟨count, hcount, ⟨rfl, h⟩ | ⟨hits, rfl,
      ⟨rfl, h⟩ | ⟨docs, hdocs, ⟨rfl, h⟩ | ⟨items, rfl, ⟨rfl, item, hitem, h⟩ | ⟨_, _, ⟨⟩⟩⟩⟩⟩⟩⟩)
    · exact .noResponse h
    · exact .noCount hresponse h
    · exact .countNoNumber hresponse hcount h
    · exact .noDocs hresponse hcount h
    · exact .docsNoArray hresponse hcount hdocs h
    · exact .docNoObject hresponse hcount hdocs hitem h
  · intro h
    cases h with
    | noResponse h => exact .inl ⟨rfl, h⟩
    | noCount hresponse h => exact .inr ⟨_, hresponse, .inl ⟨rfl, h⟩⟩
    | countNoNumber hresponse hcount h =>
      exact .inr ⟨_, hresponse, .inr ⟨_, hcount, .inl ⟨rfl, h⟩⟩⟩
    | noDocs hresponse hcount h =>
      exact .inr ⟨_, hresponse, .inr ⟨_, hcount, .inr ⟨_, rfl, .inl ⟨rfl, h⟩⟩⟩⟩
    | docsNoArray hresponse hcount hdocs h =>
      exact .inr ⟨_, hresponse, .inr ⟨_, hcount, .inr ⟨_, rfl, .inr ⟨_, hdocs, .inl ⟨rfl, h⟩⟩⟩⟩⟩
    | docNoObject hresponse hcount hdocs hitem h =>
      exact .inr ⟨_, hresponse, .inr ⟨_, hcount, .inr ⟨_, rfl, .inr ⟨_, hdocs, .inr ⟨_, rfl,
        .inl ⟨rfl, _, hitem, h⟩⟩⟩⟩⟩⟩

lemma told_parseReply (hparse : Json.parse text = some value) (reason : String) :
    Told (parseReply text reason) (Replies value)
      (fun e => ∃ fault, Lacks value fault ∧ e = .invalidReply fault) := by
  rw [parseReply, hparse]
  refine ⟨fun results => ?_, fun e => ?_⟩
  · rw [mapError_eq_ok_iff, (told_readReply value).ok_iff]
  · simp only [mapError_eq_error_iff, (told_readReply value).error_iff]
    exact exists_congr fun fault => and_congr_right fun _ => eq_comm

lemma Canonical.member (h : Canonical value) (hmember : HasMember name value other) :
    Canonical other := by
  obtain ⟨hlookup⟩ := hmember
  obtain ⟨before, after, rfl, _⟩ := List.lookup_eq_some_iff.mp hlookup
  cases h with
  | object _ hmembers => exact hmembers name other (by simp)

lemma Canonical.integer_lt {n : Int} (h : Canonical (.number (.integer n))) : n < 2 ^ 64 := by
  cases h with
  | integer hrange => exact hrange.2

/-- A reply holds results if it has a count of 64 bits and lists records only. -/
lemma exists_replies_iff (h : Canonical value) :
    (∃ results, Replies value results) ↔
      ∃ response items, ∃ n : Int, HasMember "response" value response ∧
        HasMember "numFound" response (.number (.integer n)) ∧ 0 ≤ n ∧ n ≤ 2 ^ 64 - 1 ∧
        HasMember "docs" response (.array items) ∧ ∀ item ∈ items, ∃ doc, item = .object doc := by
  constructor
  · rintro ⟨_, hresponse, hcount, hdocs⟩
    have hlt := ((h.member hresponse).member hcount).integer_lt
    exact ⟨_, _, _, hresponse, hcount, by omega, by omega, hdocs, exists_records_iff.mp ⟨_, rfl⟩⟩
  · rintro ⟨response, items, n, hresponse, hcount, hnonneg, _, hdocs, hitems⟩
    obtain ⟨hits, rfl⟩ := Int.eq_ofNat_of_zero_le hnonneg
    obtain ⟨docs, rfl⟩ := exists_records_iff.mpr hitems
    exact ⟨_, .intro hresponse hcount hdocs⟩

lemma Replies.names_nodup (h : Canonical value) (hreplies : Replies value results) :
    ∀ doc ∈ results.docs, (doc.map Prod.fst).Nodup := by
  obtain ⟨hresponse, _, hdocs⟩ := hreplies
  intro doc hdoc
  cases (h.member hresponse).member hdocs with
  | array hitems =>
    cases hitems _ (List.mem_map_of_mem hdoc) with
    | object hnames _ => exact hnames.nodup

/-- A reply is read if and only if it is an object with a response that has a count from 0 to
2^64 - 1 and a list of records only. The results are then that count and those records, which hold
each of their names once. Otherwise the reply is refused for the first thing that it lacks, and one
item that is no record is enough for that. The ids of the results are those of the records in their
order, or there is the error of the first record without one. -/
theorem reply_read_whole (text reason : String) (value : Value)
    (hparse : Json.parse text = some value) :
    ((∃ results, parseReply text reason = .ok results) ↔
      ∃ response items, ∃ n : Int, HasMember "response" value response ∧
        HasMember "numFound" response (.number (.integer n)) ∧ 0 ≤ n ∧ n ≤ 2 ^ 64 - 1 ∧
        HasMember "docs" response (.array items) ∧ ∀ item ∈ items, ∃ doc, item = .object doc) ∧
    (∀ results, parseReply text reason = .ok results ↔ Replies value results) ∧
    (∀ e, parseReply text reason = .error e ↔
      ∃ fault, Lacks value fault ∧ e = .invalidReply fault) ∧
    (∀ response items item, HasMember "response" value response →
      HasMember "docs" response (.array items) → item ∈ items → (∀ doc, item ≠ .object doc) →
      ∃ fault, parseReply text reason = .error (.invalidReply fault)) ∧
    ∀ results, parseReply text reason = .ok results →
      (∀ doc ∈ results.docs, (doc.map Prod.fst).Nodup) ∧
      (∀ ids, results.ids = .ok ids ↔ List.Forall₂ HasId results.docs ids) ∧
      ∀ e, results.ids = .error e ↔ FirstFailure HasId LacksId results.docs e := by
  have hcanonical := canonical_of_parse hparse
  have htold := told_parseReply hparse reason
  refine ⟨?_, htold.ok_iff, htold.error_iff, fun response items item hresponse hdocs hitem h => ?_,
    fun results hok => ⟨?_, ?_, ?_⟩⟩
  · simp only [htold.ok_iff, exists_replies_iff hcanonical]
  · rcases htold.total with ⟨results, hresponse', _, hdocs'⟩ | ⟨e, fault, hlacks, rfl⟩
    · obtain rfl := hresponse.unique hresponse'
      obtain rfl := Value.array.inj (hdocs.unique hdocs')
      obtain ⟨doc, hdoc⟩ := exists_records_iff.mp ⟨_, rfl⟩ item hitem
      exact absurd hdoc (h doc)
    · exact ⟨fault, (htold.error_iff _).mpr ⟨fault, hlacks, rfl⟩⟩
  · exact ((htold.ok_iff results).mp hok).names_nodup hcanonical
  · exact (told_mapM told_idOf results.docs).ok_iff
  · exact (told_mapM told_idOf results.docs).error_iff

/-- More members than are needed, and ids of both kinds. -/
theorem two_record_reply_read :
    let text := "\x7b\"responseHeader\": \x7b\"status\": 0\x7d, \"response\": " ++
      "\x7b\"numFound\": 42, \"docs\": [\x7b\"id\": \"162\", \"type\": \"genre\"\x7d, " ++
      "\x7b\"id\": 163\x7d]\x7d\x7d"
    ∃ value results, Json.parse text = some value ∧ parseReply text = .ok results ∧
      Replies value results ∧ results.hits = 42 ∧
      List.Forall₂ HasId results.docs ["162", "163"] := by
  intro text
  obtain ⟨value, hparse⟩ :=
    Option.isSome_iff_exists.mp (show (Json.parse text).isSome by decide +kernel)
  have hread : ((parseReply text).toOption.map fun results =>
      (results.hits, results.ids.toOption)) = some (42, some ["162", "163"]) := by decide +kernel
  obtain ⟨results, hsome, hfields⟩ := Option.map_eq_some_iff.mp hread
  obtain ⟨hhits, hids⟩ := Prod.mk.inj hfields
  have hok := eq_ok_of_toOption hsome
  obtain ⟨_, hreplies, _, _, hresults⟩ := reply_read_whole text "" value hparse
  obtain ⟨_, hall, _⟩ := hresults results hok
  exact ⟨value, results, hparse, hok, (hreplies results).mp hok, hhits,
    (hall _).mp (eq_ok_of_toOption hids)⟩

end ChantSearch.Proofs

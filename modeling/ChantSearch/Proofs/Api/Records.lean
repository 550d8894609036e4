import ChantSearch.Proofs.Api.Answer
import ChantSearch.Proofs.Json.Members

/-!
# Listed records

The object that a call is answered with: the records under their ids, and the ids in the order of
the records. The name of that order is no id that a record can be found by.
-/

namespace ChantSearch.Proofs
open Api Index Json

variable {site : Site} {call : Call} {order : SearchOrder} {results : Results} {ids : List String}

/-- The records by their ids. -/
def recordMembers (ids : List String) (docs : List Document) : List (String × Value) :=
  ids.zip (docs.map .object)

variable {docs : List Document}

lemma recordMembers_names (hlength : ids.length = docs.length) :
    (recordMembers ids docs).map Prod.fst = ids :=
  List.map_fst_zip (by simp [hlength])

lemma mem_recordMembers {i : Nat} {id : String} {doc : Document} (hid : ids[i]? = some id)
    (hdoc : docs[i]? = some doc) : (id, .object doc) ∈ recordMembers ids docs := by
  apply List.mem_of_getElem? (i := i)
  simp [recordMembers, List.getElem?_zip_eq_some, hid, hdoc]

/-- If the ids differ, each record is found by its own. -/
lemma lookup_sorted_records (hlength : ids.length = docs.length) (hnodup : ids.Nodup) {i : Nat}
    {id : String} {doc : Document} (hid : ids[i]? = some id) (hdoc : docs[i]? = some doc) :
    (sortMembers (recordMembers ids docs)).lookup id = some (.object doc) := by
  rw [lookup_sortMembers]
  apply lookup_eq_some_of_mem
  · rw [List.map_reverse, List.nodup_reverse, recordMembers_names hlength]
    exact hnodup
  · exact List.mem_reverse.mpr (mem_recordMembers hid hdoc)

/-- A search call for a word of the chants. Its headers tell which page it asks for. -/
def wordCall (headers : Headers) : Call :=
  ⟨"SEARCH", "/chants/", headers, "\x7b\"query\":\"Deus\"\x7d".toUTF8.toList⟩

lemma designates_chants : Designates "/chants/" ⟨"chants", "chant"⟩ :=
  ((told_resourceAt _).ok_iff _).mp (eq_ok_of_toOption (by decide +kernel))

lemma parse_wordCall (headers : Headers) :
    SearchBody.parse (wordCall headers).body = .ok ⟨"Deus", none, none⟩ := by
  change SearchBody.parse (wordCall .empty).body = _
  exact eq_ok_of_toOption (by decide +kernel)

lemma orders_wordCall {paging : Paging} {headers : Headers} {page perPage : Nat}
    (hsize : GrantsSize paging (headerValue? headers perPageHeader) perPage)
    (hnumber : GrantsNumber (headerValue? headers pageHeader) page) :
    Orders paging (wordCall headers) ⟨"chant", "Deus", ⟨page, perPage⟩⟩ :=
  .intro designates_chants rfl (parse_wordCall headers) hsize hnumber

lemma translates_word (schema : Schema) (service : Service) :
    Translates schema service "chant" "Deus" "type:chant AND (Deus)" := by
  have hparse : Query.parse "Deus" = .ok [.literal ⟨none, none, ⟨0, 4⟩⟩ "Deus"] := by cbv
  have htext : Resolution.ofType "chant" (Text.trim (Query.render [.bare "Deus"])) =
      "type:chant AND (Deus)" := by decide +kernel
  rw [← htext]
  exact .filled hparse (by simp [namedFields, nodeFields]) (.cons (.keep _) .nil)

/-- The answer to a call holds the order of the records and, if their ids differ, every record
under its id, but for a record whose id is the name of the order. It holds nothing else. -/
theorem response_holds_records (site : Site) (call : Call) (order : SearchOrder)
    (results : Results) (ids : List String) (h : Lists site call order results ids)
    (hnodup : ids.Nodup) :
    ∃ members, (search site call).2.status = 200 ∧
      (search site call).2.body = (Value.object members).write ∧
      (members.map Prod.fst).Nodup ∧
      (∀ name, name ∈ members.map Prod.fst ↔ name = "sort_order" ∨ name ∈ ids) ∧
      members.lookup "sort_order" = some (.array (ids.map .text)) ∧
      ∀ (i : Nat) id doc, ids[i]? = some id → results.docs[i]? = some doc →
        (members.lookup id = some (.object doc) ↔ id ≠ "sort_order") := by
  have hlength : ids.length = results.docs.length := h.ids.length_eq.symm
  have hsorted := sortedNames_sortMembers (recordMembers ids results.docs)
  refine ⟨insertMember "sort_order" (.array (ids.map .text))
    (sortMembers (recordMembers ids results.docs)), by rw [h.search_eq]; rfl,
    by rw [h.search_eq]; rfl, (hsorted.insertMember _ _).nodup, fun name => ?_, ?_,
    fun i id doc hid hdoc => ?_⟩
  · rw [mem_insertMember_names, mem_sortMembers_names, recordMembers_names hlength]
  · rw [lookup_insertMember, if_pos rfl]
  · rw [lookup_insertMember]
    split
    · next hname => simp [hname]
    · next hname => simp [hname, lookup_sorted_records hlength hnodup hid hdoc]

/-- A text and a number as ids, in the order of the index. -/
theorem text_and_number_ids_held :
    let docs : List Document :=
      [[("id", .text "7"), ("type", .text "chant")],
        [("id", .number (.integer 3)), ("type", .text "chant")]]
    let site : Site := ⟨⟨[], []⟩, fun _ => .ok ⟨docs, 2⟩, ⟨10, 100⟩⟩
    Lists site (wordCall .empty) ⟨"chant", "Deus", ⟨1, 10⟩⟩ ⟨docs, 2⟩ ["7", "3"] ∧
      ["7", "3"].Nodup ∧
      ∃ members, (search site (wordCall .empty)).2.body = (Value.object members).write ∧
        members.lookup "sort_order" = some (.array [.text "7", .text "3"]) ∧
        members.lookup "7" = (docs[0]?).map .object ∧
        members.lookup "3" = (docs[1]?).map .object := by
  intro docs site
  have hlists : Lists site (wordCall .empty) ⟨"chant", "Deus", ⟨1, 10⟩⟩ ⟨docs, 2⟩ ["7", "3"] :=
    ⟨⟨_, .intro (orders_wordCall .absent .absent) (translates_word _ _), rfl⟩, by simp [docs],
      .cons ⟨.text rfl, rfl⟩ (.cons ⟨.number (n := .integer 3) rfl, rfl⟩ .nil)⟩
  obtain ⟨members, _, hwritten, _, _, hsorted, hrecord⟩ :=
    response_holds_records site _ _ _ _ hlists (by decide)
  exact ⟨hlists, by decide, members, hwritten, hsorted,
    (hrecord 0 "7" _ rfl rfl).mpr (by decide), (hrecord 1 "3" _ rfl rfl).mpr (by decide)⟩

/-- A record whose id is the name of the order gives way to it. -/
theorem sort_order_record_lost :
    let doc : Document := [("id", .text "sort_order"), ("type", .text "chant")]
    let members : List (String × Value) := [("sort_order", .array [.text "sort_order"])]
    let site : Site := ⟨⟨[], []⟩, fun _ => .ok ⟨[doc], 1⟩, ⟨10, 100⟩⟩
    Lists site (wordCall .empty) ⟨"chant", "Deus", ⟨1, 10⟩⟩ ⟨[doc], 1⟩ ["sort_order"] ∧
      ["sort_order"].Nodup ∧ (search site (wordCall .empty)).2.status = 200 ∧
      (search site (wordCall .empty)).2.body = (Value.object members).write ∧
      members.lookup "sort_order" ≠ some (.object doc) := by
  intro doc members site
  have hlists : Lists site (wordCall .empty) ⟨"chant", "Deus", ⟨1, 10⟩⟩ ⟨[doc], 1⟩ ["sort_order"] :=
    ⟨⟨_, .intro (orders_wordCall .absent .absent) (translates_word _ _), rfl⟩, by simp,
      .cons ⟨.text rfl, rfl⟩ .nil⟩
  refine ⟨hlists, by decide, by rw [hlists.search_eq]; rfl, by rw [hlists.search_eq]; rfl, ?_⟩
  simp [members]

end ChantSearch.Proofs

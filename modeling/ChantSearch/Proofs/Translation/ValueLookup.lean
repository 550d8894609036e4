import ChantSearch.Proofs.Grammar.Parentheses
import ChantSearch.Proofs.Resolution.Refinement
import ChantSearch.Proofs.Translation.TypeFilter
import ChantSearch.Schema.Catalogue

/-!
# Looking up a value

The value of a cross-referenced field is looked up behind the filter of its type, where it is
the front of a group. A term there must not begin with a keyword, as it may behind a colon. So
the request is a query for the value, unless the value is a keyword; then it is no query.
-/

namespace ChantSearch.Proofs
open Index Query Resolution

variable {μ : Type} {schema : Schema}

/-- The values that are looked up are literals of cross-referenced fields. -/
lemma WellFormed.value_slot {ts : List (Node μ)} (h : WellFormed ts) {name text : String}
    {ref : CrossRef} (hslot : .value name text ref ∈ nodesSlots schema ts) :
    .field name text ∈ flatten ts ∧ schema.crossRef? name = some ref ∧ LiteralText text := by
  induction h with
  | @literal head word _ hword =>
    rw [nodesSlots, nodesSlots, List.append_nil, nodeSlots] at hslot
    cases hcross : crossRefOf schema head with
    | none => simp [hcross] at hslot
    | some found =>
      obtain ⟨field, found⟩ := found
      obtain ⟨hfield, href⟩ := crossRefOf_eq_some_iff.mp hcross
      obtain ⟨rfl, rfl, rfl⟩ : name = field ∧ text = word ∧ ref = found := by
        simpa [hcross] using hslot
      refine ⟨?_, href, hword⟩
      simp [flatten, Node.components, Head.literalComponent, hfield]
  | @group head members _ _ ih =>
    rw [nodesSlots, nodesSlots, List.append_nil, nodeSlots] at hslot
    cases hcross : crossRefOf schema head with
    | none =>
      obtain ⟨hfield, href, hword⟩ := ih (by simpa [hcross] using hslot)
      exact ⟨by simp [flatten, Node.components, hfield], href, hword⟩
    | some found => simp [hcross] at hslot
  | @joined ts us k? _ _ ihts ihus =>
    rw [nodesSlots_append, nodesSlots_append, nodesSlots_connective] at hslot
    have hsides : .value name text ref ∈ nodesSlots schema ts ∨
        .value name text ref ∈ nodesSlots schema us := by simpa using hslot
    rcases hsides with hslot | hslot
    · obtain ⟨hfield, hrest⟩ := ihts hslot
      exact ⟨by simp [flatten_append, hfield], hrest⟩
    · obtain ⟨hfield, hrest⟩ := ihus hslot
      exact ⟨by simp [flatten_append, hfield], hrest⟩

variable {resourceType text : String}

/-- Behind the filter, the literals that are no keywords have the meaning that they have behind
a colon. -/
lemma parse_ofType_literal (htype : PlainText resourceType.toList) (htext : LiteralText text)
    (hword : ¬IsKeyword text) :
    ∃ tree, parse (ofType resourceType text) = .ok tree ∧
      flatten tree = [.field "type" resourceType, .marker (.connective .and), .marker .opening,
        .bare text, .marker .closing] := by
  have hlist (c : Cursor) (hc : c.rest = text.toList ++ [')']) :
      ∃ nodes d, Derives c (.termList nodes) d ∧ d.rest = [')'] ∧
        Node.shape nodes = [.literal (bareHead ()) text] := by
    have hvalue := derives_literal htext hc (not_textContinues_parenthesis [])
    have hhead : WellFormedHead (bareHead ()) (firstWord (.literal text)) :=
      wellFormedHead_bareHead () hword
    have hterm := derives_term hhead (.nil c) (.nil c) hvalue
    exact ⟨_, _, .termList hterm (.lastTerm _), rfl, rfl⟩
  exact parse_ofType htype (by simp [Node.depthList, Node.depth, maxDepth]) hlist

/-- With a keyword behind its opening parenthesis, the filter is no query. -/
lemma not_derivesQuery_keyword (htype : PlainText resourceType.toList) (hword : IsKeyword text)
    (tree : Tree) : ¬DerivesQuery (ofType resourceType text) tree := by
  intro h
  have hraw : (ofType resourceType text).toList =
      ("type:".toList ++ resourceType.toList ++ " AND ".toList) ++
        '(' :: (text.toList ++ [')']) := by
    simp [toList_ofType]
  have hquote : '"' ∉ "type:".toList ++ resourceType.toList ++ " AND ".toList := by
    have htypeQuote : '"' ∉ resourceType.toList := fun hmem =>
      absurd (htype.uncounted _ hmem) (by decide)
    simp [htypeQuote]
  obtain ⟨c, _, _, hfront, hgroup⟩ := h.groupBehind hquote hraw
  have hc : c.rest = '(' :: (text.toList ++ [')']) := by
    have hrest := hfront.rest
    rw [Cursor.ofString, hraw] at hrest
    exact (List.append_cancel_left hrest).symm
  have hstart : Stops isBlank (text.toList ++ [')']) := by
    obtain ⟨k, hk, rfl⟩ := hword
    rcases hk with rfl | rfl | rfl <;> exact stops_cons.mpr (by decide)
  obtain ⟨d, hd, hnone⟩ := hgroup.group_front hc hstart
  have hend : ¬WordContinues [')'] := not_wordContinues_iff.mpr (stops_cons.mpr (by decide))
  exact hnone (keyword_of_isKeyword (by rwa [String.ofList_toList]) (reads_past hd) hend)

lemma plainText_of_all {word : List Char} (hne : word ≠ []) (h : word.all isTextChar = true) :
    PlainText word :=
  ⟨hne, .plain (List.all_eq_true.mp h)⟩

lemma catalogue_plainText {name : String} {ref : CrossRef}
    (h : Schema.catalogue.crossRef? name = some ref) : PlainText ref.resourceType.toList := by
  have hmem : (name, ref) ∈ catalogueCrossRefs := mem_of_crossRef? h
  have hall : catalogueCrossRefs.all fun entry =>
      entry.2.resourceType.toList != [] && entry.2.resourceType.toList.all isTextChar := by
    decide
  have href := List.all_eq_true.mp hall _ hmem
  simp only [Bool.and_eq_true, bne_iff_ne] at href
  exact plainText_of_all href.1 href.2

/-- The values that are looked up for an accepted query are literals of it. The request for one
is a query in its turn, for that value alone behind the filter, if and only if the value is no
keyword. -/
theorem value_lookup_accepted_iff (schema : Schema)
    (htypes : ∀ name ref, schema.crossRef? name = some ref → PlainText ref.resourceType.toList)
    (service : Service) (raw : String) (tree : Tree) (hparse : parse raw = .ok tree) :
    ∃ slots, slotsOf schema (flatten tree) = .ok slots ∧
      (resolve schema service (flatten tree)).requests = slots.filterMap Slot.request? ∧
      ∀ name text ref, .value name text ref ∈ slots →
        .field name text ∈ flatten tree ∧ schema.crossRef? name = some ref ∧
        (¬IsKeyword text → ∃ sub, parse (ofType ref.resourceType text) = .ok sub ∧
          flatten sub = [.field "type" ref.resourceType, .marker (.connective .and),
            .marker .opening, .bare text, .marker .closing]) ∧
        (IsKeyword text → ∀ sub, parse (ofType ref.resourceType text) ≠ .ok sub) := by
  have htree := wellFormed_of_parse hparse
  have hslots : slotsOf schema (flatten tree) = .ok _ := slotsOf_of_parse hparse
  refine ⟨_, hslots, by rw [resolve_eq_inquire hslots]; rfl, fun name text ref hslot => ?_⟩
  obtain ⟨hfield, href, htext⟩ := htree.value_slot hslot
  have htype := htypes name ref href
  exact ⟨hfield, href, parse_ofType_literal htype htext, fun hword sub hsub =>
    not_derivesQuery_keyword htype hword sub (derivesQuery_of_parse hsub)⟩

set_option maxRecDepth 10000 in
theorem antiphon_lookup_accepted :
    ∃ tree sub, parse "genre:antiphon" = .ok tree ∧
      parse "type:genre AND (antiphon)" = .ok sub ∧
      flatten sub = [.field "type" "genre", .marker (.connective .and), .marker .opening,
        .bare "antiphon", .marker .closing] := by
  have hparse : parse "genre:antiphon" =
      .ok [.literal ⟨none, some "genre", ⟨0, 14⟩⟩ "antiphon"] := by
    cbv
  obtain ⟨slots, hslots, _, hvalues⟩ := value_lookup_accepted_iff .catalogue
    (fun _ _ => catalogue_plainText) (fun _ => .error (.unavailable "down")) _ _ hparse
  have hplan : (.ok [.value "genre" "antiphon" ⟨"genre", "genre_id"⟩] :
      Except GroupFault (List Slot)) = .ok slots := hslots
  obtain rfl := Except.ok.inj hplan
  obtain ⟨_, _, haccepted, _⟩ := hvalues _ _ _ (List.mem_singleton.mpr rfl)
  have hletters : ("antiphon" : String).toList = 'a' :: ['n', 't', 'i', 'p', 'h', 'o', 'n'] := rfl
  obtain ⟨sub, hsub⟩ := haccepted (not_isKeyword_of_begins hletters (by decide))
  exact ⟨_, sub, hparse, hsub⟩

set_option maxRecDepth 10000 in
theorem keyword_lookup_rejected :
    ∃ tree, parse "genre:AND" = .ok tree ∧ flatten tree = [.field "genre" "AND"] ∧
      (resolve .catalogue (fun _ => .error (.unavailable "down")) (flatten tree)).requests =
        [.ofQuery "type:genre AND (AND)"] ∧
      ∀ sub, parse "type:genre AND (AND)" ≠ .ok sub := by
  have hparse : parse "genre:AND" = .ok [.literal ⟨none, some "genre", ⟨0, 9⟩⟩ "AND"] := by
    cbv
  have hplain : PlainText ("genre" : String).toList := plainText_of_all (by decide) (by decide)
  refine ⟨_, hparse, rfl, rfl, fun sub hsub => ?_⟩
  exact not_derivesQuery_keyword hplain ⟨.and, .inl rfl, rfl⟩ sub (derivesQuery_of_parse hsub)

end ChantSearch.Proofs

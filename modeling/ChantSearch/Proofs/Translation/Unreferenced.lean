import ChantSearch.Proofs.Resolution.Refinement
import ChantSearch.Proofs.Text.Trimming
import ChantSearch.Proofs.Translation.TypeFilter

/-!
# Queries without cross-references

Where no field of a query is cross-referenced, its translation is the query itself behind the
filter. The text of its components loses the blanks around it and is put between parentheses,
where it is read as it was read alone.
-/

namespace ChantSearch.Proofs
open Index Query Resolution

lemma textIsBlank_of_isBlank {x : Char} (h : isBlank x = true) : Text.isBlank x = true := by
  have hnone := isBlank_apart (fun x => !Text.isBlank x) (by decide) h
  simpa using hnone

lemma not_blank_of_isTextChar {x : Char} (h : isTextChar x = true) : Text.isBlank x = false := by
  simp only [isTextChar, Bool.or_eq_true] at h
  rcases h with (h | h) | h
  · simp only [Char.isAlphanum, Char.isAlpha, Char.isUpper, Char.isLower, Char.isDigit,
      Bool.or_eq_true, Bool.and_eq_true, decide_eq_true_eq, ge_iff_le, UInt32.le_iff_toNat_le] at h
    rw [← Bool.not_eq_true]
    intro hblank
    simp [Text.isBlank, Text.blankRanges] at hblank
    simp at h
    omega
  · rw [beq_iff_eq.mp h]
    decide
  · have hall : accentedLetters.all fun y => !Text.isBlank y := by decide
    simpa using List.all_eq_true.mp hall x (List.contains_iff_mem.mp h)

lemma not_blank_of_isWildedChar {x : Char} (h : isWildedChar isTextChar x = true) :
    Text.isBlank x = false := by
  simp only [isWildedChar, Bool.or_eq_true, beq_iff_eq] at h
  rcases h with (h | rfl) | rfl
  · exact not_blank_of_isTextChar h
  · decide
  · decide

lemma not_blank_of_isTermStart {x : Char} (h : isTermStart x = true) : Text.isBlank x = false := by
  simp only [isTermStart, isValueStart, Bool.or_eq_true, beq_iff_eq] at h
  rcases h with ((((h | rfl) | rfl) | rfl) | rfl) | rfl
  · exact not_blank_of_isWildedChar h
  all_goals decide

lemma not_blank_of_isTermEnd {x : Char} (h : isTermEnd x = true) : Text.isBlank x = false := by
  simp only [isTermEnd, Bool.or_eq_true, beq_iff_eq] at h
  rcases h with (h | rfl) | rfl
  · exact not_blank_of_isWildedChar h
  all_goals decide

/-- The text of a query without the blanks around it is a list of terms wherever it stands and
nothing continues it. -/
lemma DerivesQuery.trimmed {raw : String} {tree : Tree} (h : DerivesQuery raw tree) {c : Cursor}
    {rest : List Char} (hc : c.rest = (Text.trim raw).toList ++ rest)
    (hrest : ¬TextContinues rest) :
    ∃ nodes d, Derives c (.termList nodes) d ∧ d.rest = rest ∧
      Node.shape nodes = Node.shape tree := by
  obtain ⟨before, word, after, _, _, hbefore, hafter, hsplit, hlist, hword, hend⟩ := h.parts
  have hbegins : Stops Text.isBlank (word ++ after) := by
    have hstart : BeginsWith isTermStart _ := hlist.phraseBegins
    rw [hword.rest, hend] at hstart
    obtain ⟨x, tail, hx, hstart⟩ := hstart
    rw [hx, stops_cons]
    exact not_blank_of_isTermStart hstart
  have hlast : EndsWith (fun x => !Text.isBlank x) word := by
    obtain ⟨_, hread, hends⟩ := hlist.phraseEnds
    obtain ⟨front, x, hx, hlast⟩ := hends
    exact ⟨front, x, (hword.word_eq hread).trans hx, by simp [not_blank_of_isTermEnd hlast]⟩
  have htrim := trim_eq hsplit (fun x hx => textIsBlank_of_isBlank (hbefore x hx))
    (fun x hx => textIsBlank_of_isBlank (hafter x hx)) hbegins hlast
  rw [htrim] at hc
  exact hlist.moved hword hc hrest

variable {μ : Type} {schema : Schema} {service : Service}

lemma resolve_unreferenced {cs : List Component}
    (h : ∀ name value, .field name value ∈ cs → schema.crossRef? name = none) :
    resolve schema service cs = settled cs := by
  rw [resolve_eq_inquire (plans_keeps h).slotsOf_eq, inquire_keep]

/-- The filtered text of a well-formed query is a query with the same components behind the
filter. -/
lemma WellFormed.parse_filtered {ts : List (Node μ)} (h : WellFormed ts)
    (hdepth : Node.depthList ts < maxDepth) {resourceType : String}
    (htype : PlainText resourceType.toList) :
    ∃ tree, parse (ofType resourceType (Text.trim (render (flatten ts)))) = .ok tree ∧
      flatten tree = [.field "type" resourceType, .marker (.connective .and), .marker .opening] ++
        flatten ts ++ [.marker .closing] := by
  obtain ⟨body, hbody, hshape⟩ := h.parse_render hdepth.le
  have hlist (c : Cursor) (hc : c.rest = (Text.trim (render (flatten ts))).toList ++ [')']) :
      ∃ nodes d, Derives c (.termList nodes) d ∧ d.rest = [')'] ∧
        Node.shape nodes = Node.shape ts := by
    rw [← hshape]
    exact (derivesQuery_of_parse hbody).trimmed hc (not_textContinues_parenthesis [])
  have hsmall : Node.depthList (Node.shape ts) < maxDepth := by
    rwa [Node.shape, depthList_mapList]
  obtain ⟨tree, htree, hcomponents⟩ := parse_ofType htype hsmall hlist
  rw [Node.shape, flatten_mapList] at hcomponents
  exact ⟨tree, htree, hcomponents⟩

/-- If a query is accepted with groups nested at most 31 deep, the schema knows its fields and
cross-references none of them, and the type is a text of the grammar, then the translation
succeeds without a request. It is accepted in its turn, and has the components of the query in
parentheses behind the filter. -/
theorem translate_unreferenced (schema : Schema) (service : Service) (resourceType raw : String)
    (tree : Tree) (hparse : parse raw = .ok tree) (hdepth : Node.depthList tree ≤ 31)
    (hknown : schema.unknownField? (flatten tree) = none)
    (hrefs : ∀ name value, .field name value ∈ flatten tree → schema.crossRef? name = none)
    (htype : PlainText resourceType.toList) :
    ∃ q again, translate schema service resourceType raw = ⟨[], .ok q⟩ ∧ parse q = .ok again ∧
      flatten again = [.field "type" resourceType, .marker (.connective .and), .marker .opening] ++
        flatten tree ++ [.marker .closing] := by
  obtain ⟨again, hagain, hcomponents⟩ := (wellFormed_of_parse hparse).parse_filtered
    (Nat.lt_succ_of_le hdepth) htype
  refine ⟨_, again, ?_, hagain, hcomponents⟩
  simp only [translate, knownComponents, hparse, hknown, resolve_unreferenced hrefs]
  rfl

set_option maxRecDepth 10000 in
theorem translate_unreferenced_signed_group :
    ∃ again, translate ⟨["incipit"], []⟩ (fun _ => .error (.unavailable "down")) "*"
        " -incipit:(a OR \"b c\") " = ⟨[], .ok "type:* AND (-incipit:( a  OR \"b c\"  ))"⟩ ∧
      parse "type:* AND (-incipit:( a  OR \"b c\"  ))" = .ok again ∧
      flatten again = [.field "type" "*", .marker (.connective .and), .marker .opening,
        .marker (.sign .minus), .field "incipit" "", .marker .opening, .bare "a",
        .marker (.connective .or), .bare "\"b c\"", .marker .closing, .marker .closing] := by
  have hparse : parse " -incipit:(a OR \"b c\") " = .ok
      [.group ⟨some .minus, some "incipit", ⟨1, 22⟩⟩ [.literal ⟨none, none, ⟨11, 12⟩⟩ "a",
        .connective .or, .literal ⟨none, none, ⟨16, 21⟩⟩ "\"b c\""]] := by
    cbv
  have hstar : Wilded isTextChar ([] ++ ['*'] ++ []) := .wild (by simp) .asterisk (by simp)
  obtain ⟨q, again, htranslate, hagain, hcomponents⟩ := translate_unreferenced ⟨["incipit"], []⟩
    (fun _ => .error (.unavailable "down")) "*" _ _ hparse (by decide) (by rfl)
    (fun _ _ _ => rfl) ⟨by decide, hstar⟩
  have htext : (translate ⟨["incipit"], []⟩ (fun _ => .error (.unavailable "down")) "*"
      " -incipit:(a OR \"b c\") ").outcome = .ok "type:* AND (-incipit:( a  OR \"b c\"  ))" := by
    cbv
  rw [htranslate] at htext
  obtain rfl := Except.ok.inj htext
  exact ⟨again, htranslate, hagain, hcomponents⟩

end ChantSearch.Proofs

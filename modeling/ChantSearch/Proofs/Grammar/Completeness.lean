import ChantSearch.Proofs.Grammar.Boundary
import ChantSearch.Proofs.Grammar.Soundness
import ChantSearch.Query.Parse

/-!
# What has a derivation is accepted

Wherever a phrase of the grammar stands, its parser succeeds and ends where the phrase ends,
if only what follows the phrase is what can follow it in a query. The limits of the evaluation
are not felt: lists and nests of groups are no longer than the text they are read from.
-/

namespace ChantSearch.Proofs
open Query Query.Parser

variable {c d e : Cursor}

lemma blanks_complete (h : Blanks c d) (hd : Stops isBlank d.rest) :
    (blanks c).result = some ((), d) :=
  blanks_eq_some_iff.mpr ⟨h, hd⟩

lemma separator_complete {k? : Option Connective} {node : Node Span} (h : Separator c k? d)
    (hterm : Derives d (.term node) e) : (separator c).result = some (k?, d) := by
  have hstop := hterm.term_stops_blank
  rw [separator, result_orElse, Option.or_eq_some_iff]
  cases h with
  | connective hbefore hk hafter =>
    have hstart := (operator_begins hk).stops fun _ => isBlank_apart _ (by decide)
    have hfirst := blanks_complete hbefore hstart
    have hop := connective_eq_some_iff.mpr hk
    have hlast := blanks_complete hafter hstop
    left
    refine bind_eq_some_iff.mpr ⟨(), _, hfirst, ?_⟩
    refine bind_eq_some_iff.mpr ⟨_, _, hop, ?_⟩
    exact bind_pure_eq_some_iff.mpr ⟨(), hlast, rfl⟩
  | blanks hne hword hread =>
    refine .inr ⟨?_, ?_⟩
    · apply Option.eq_none_iff_forall_ne_some.mpr
      rintro ⟨k?, f⟩ hk
      obtain ⟨_, g, hg, hk⟩ := bind_eq_some_iff.mp hk
      obtain ⟨k, i, hk, _⟩ := bind_eq_some_iff.mp hk
      rw [blanks_complete ⟨_, hword, hread⟩ hstop] at hg
      obtain ⟨_, rfl⟩ := Prod.mk.inj (Option.some.inj hg)
      exact hterm.no_operator ⟨k, i, connective_eq_some_iff.mp hk⟩
    · obtain ⟨x, tail, rfl⟩ := List.exists_cons_of_ne_nil hne
      obtain ⟨f, hfirst, hothers⟩ := Reads.split (u := [x]) hread
      have hblanks : Blanks f d := ⟨tail, fun y hy => hword y (by simp [hy]), hothers⟩
      have hone := satisfying_eq_some_iff.mpr ⟨hword x (by simp), hfirst⟩
      have hmore := blanks_complete hblanks hstop
      refine bind_eq_some_iff.mpr ⟨x, f, hone, ?_⟩
      exact bind_pure_eq_some_iff.mpr ⟨(), hmore, rfl⟩

lemma signed_complete {sign? : Option Sign} (h : Signed c sign? d)
    (hd : Stops (fun x => x == '!' || x == '+' || x == '-') d.rest) :
    (Parser.optional sign c).result = some (sign?, d) := by
  rw [optional_eq_some_iff]
  cases h with
  | unsigned =>
    refine .inr ⟨rfl, rfl, Option.eq_none_iff_forall_ne_some.mpr ?_⟩
    rintro ⟨s, f⟩ hs
    rw [(sign_eq_some_iff.mp hs).rest] at hd
    cases s <;> exact absurd (stops_cons.mp hd) (by decide)
  | signed hread => exact .inl ⟨_, rfl, sign_eq_some_iff.mpr hread⟩

lemma quotedText_eq_none (h : Stops (· == '"') c.rest) :
    (rule .quotedText (scanned scanQuotedText) c).result = none := by
  apply Option.eq_none_iff_forall_ne_some.mpr
  rintro ⟨s, f⟩ hs
  obtain ⟨word, _, ⟨_⟩, hread⟩ := quotedText_eq_some_iff.mp hs
  rw [hread.rest] at h
  exact absurd (stops_cons.mp h) (by decide)

lemma text_eq_none (h : Stops (isWildedChar isTextChar) c.rest) :
    (rule .text (scanned scanText) c).result = none := by
  apply Option.eq_none_iff_forall_ne_some.mpr
  rintro ⟨s, f⟩ hs
  obtain ⟨word, _, hword, hread, _⟩ := text_eq_some_iff.mp hs
  obtain ⟨x, tail, rfl, hx⟩ := hword.begins
  rw [hread.rest] at h
  rw [stops_cons.mp h] at hx
  exact absurd hx (by decide)

/-- Where the name of a field and its colon stand, a value ends in front of the colon as well. -/
lemma Derives.value_ends_at_colon {v : Value} {name : List Char} {f : Cursor}
    (h : Derives c (.value v) d) (hname : FieldName name) (hread : Reads c name e)
    (hcolon : Reads e [':'] f) : d = e := by
  have htext : ∀ x ∈ name, isTextChar x = true :=
    fun x hx => isTextChar_of_isNameChar (hname.2 x hx)
  have hbegins : BeginsWith isTextChar c.rest := by
    obtain ⟨x, tail, rfl⟩ := List.exists_cons_of_ne_nil hname.1
    exact ⟨x, _, hread.rest, htext x (by simp)⟩
  cases h with
  | quotedText hword hquoted =>
    obtain ⟨_⟩ := hword
    obtain ⟨x, tail, hrest, hx⟩ := hbegins
    rw [hquoted.rest] at hrest
    obtain ⟨rfl, _⟩ := List.cons.inj hrest
    exact absurd hx (by decide)
  | text hword hplain hend =>
    have hscan := scanText_eq_some_iff.mpr ⟨hword, hplain.rest, hend⟩
    have hcolonEnds : ¬TextContinues e.rest :=
      not_textContinues_iff.mpr ⟨hcolon.stops (by decide), hcolon.stops (by decide)⟩
    have hother := scanText_eq_some_iff.mpr ⟨⟨hname.1, .plain htext⟩, hread.rest, hcolonEnds⟩
    obtain ⟨rfl, _⟩ := Prod.mk.inj (Option.some.inj (hscan.symm.trans hother))
    exact hplain.unique hread
  | groupedTermList hgroup =>
    obtain ⟨x, tail, hrest, hx⟩ := hbegins
    cases hgroup with
    | group hopen =>
      rw [hopen.rest] at hrest
      obtain ⟨rfl, _⟩ := List.cons.inj hrest
      exact absurd hx (by decide)

/-- A value that no colon follows is not the name of a field. -/
lemma namedField_eq_none {group : Parser Tree} {v : Value} (h : Derives c (.value v) d)
    (hd : Stops (· == ':') d.rest) : (namedField group c).result = none := by
  apply Option.eq_none_iff_forall_ne_some.mpr
  rintro ⟨r, f⟩ hr
  obtain ⟨name, e, g, _, _, hname, hread, hcolon, _⟩ := namedField_parts hr
  obtain rfl := h.value_ends_at_colon hname hread hcolon
  rw [hcolon.rest] at hd
  exact absurd (stops_cons.mp hd) (by decide)

section Rules

variable {group : Parser Tree}

lemma fieldValue_of_quotedText {word : List Char} (hword : QuotedText word)
    (hread : Reads c word d) :
    (fieldValue group c).result = some (.literal (String.ofList word), d) := by
  have hscan := quotedText_eq_some_iff.mpr ⟨word, rfl, hword, hread⟩
  unfold fieldValue
  rw [result_rule, result_orElse, Option.or_eq_some_iff]
  left
  exact bind_pure_eq_some_iff.mpr ⟨_, hscan, rfl⟩

lemma fieldValue_of_text {word : List Char} (hword : PlainText word) (hread : Reads c word d)
    (hend : ¬TextContinues d.rest) :
    (fieldValue group c).result = some (.literal (String.ofList word), d) := by
  obtain ⟨x, tail, hcons, hx⟩ := hword.begins
  have hquote : Stops (· == '"') c.rest := by
    rw [hread.rest, hcons, List.cons_append, stops_cons]
    by_contra hq
    have hq' : x = '"' := by simpa using hq
    rw [hq'] at hx
    exact absurd hx (by decide)
  have hnoQuote := quotedText_eq_none hquote
  have hscan := text_eq_some_iff.mpr ⟨word, rfl, hword, hread, hend⟩
  unfold fieldValue
  rw [result_rule, result_orElse, Option.or_eq_some_iff, result_orElse, Option.or_eq_some_iff]
  right
  refine ⟨bind_pure_eq_none_iff.mpr hnoQuote, ?_⟩
  left
  exact bind_pure_eq_some_iff.mpr ⟨_, hscan, rfl⟩

lemma fieldValue_of_group {members : Tree} (h : Derives c (.group members) d)
    (hgroup : (group c).result = some (members, d)) :
    (fieldValue group c).result = some (.group members, d) := by
  obtain ⟨_, hopen⟩ : ∃ e, Reads c ['('] e := by
    cases h with
    | group hopen => exact ⟨_, hopen⟩
  have hquote : Stops (· == '"') c.rest := hopen.stops (by decide)
  have htext : Stops (isWildedChar isTextChar) c.rest := hopen.stops (by decide)
  have hnoQuote := quotedText_eq_none hquote
  have hnoText := text_eq_none htext
  unfold fieldValue
  rw [result_rule, result_orElse, Option.or_eq_some_iff, result_orElse, Option.or_eq_some_iff]
  right
  refine ⟨bind_pure_eq_none_iff.mpr hnoQuote, ?_⟩
  right
  refine ⟨bind_pure_eq_none_iff.mpr hnoText, ?_⟩
  exact bind_pure_eq_some_iff.mpr ⟨_, hgroup, rfl⟩

lemma namedField_complete {e f : Cursor} {name : List Char} {v : Value} (hname : FieldName name)
    (hread : Reads c name d) (hcolon : Reads d [':'] e)
    (hvalue : (fieldValue group e).result = some (v, f)) :
    (orElse (namedField group) (defaultField group) c).result =
      some ((some (String.ofList name), v), f) := by
  have hstop : Stops isNameChar d.rest := hcolon.stops (by decide)
  have hscan := fieldName_eq_some_iff.mpr ⟨name, rfl, hname, hread, hstop⟩
  have hmark : (characters [':'] d).result = some ((), e) := characters_eq_some_iff.mpr hcolon
  unfold namedField
  rw [result_orElse, Option.or_eq_some_iff, result_rule]
  left
  refine bind_eq_some_iff.mpr ⟨_, d, hscan, ?_⟩
  refine bind_eq_some_iff.mpr ⟨(), e, hmark, ?_⟩
  exact bind_pure_eq_some_iff.mpr ⟨v, hvalue, rfl⟩

lemma defaultField_complete {v : Value} (h : Derives c (.value v) d)
    (hd : Stops (· == ':') d.rest) (hvalue : (fieldValue group c).result = some (v, d)) :
    (orElse (namedField group) (defaultField group) c).result = some ((none, v), d) := by
  have hunnamed : (namedField group c).result = none := namedField_eq_none h hd
  unfold defaultField
  rw [result_orElse, Option.or_eq_some_iff, result_rule]
  right
  refine ⟨hunnamed, ?_⟩
  exact bind_pure_eq_some_iff.mpr ⟨v, hvalue, rfl⟩

lemma term_complete {sign? : Option Sign} {name? : Option String} {v : Value}
    (hkeyword : ¬∃ k e, Keyword c k e) (hsign : Signed c sign? d)
    (h : Derives d (.field name? v) e)
    (hfield : (orElse (namedField group) (defaultField group) d).result = some ((name?, v), e)) :
    (term group c).result = some (v.toNode ⟨sign?, name?, ⟨c.offset, e.offset⟩⟩, e) := by
  have hbegins : BeginsWith isValueStart d.rest := h.phraseBegins
  have hstop : Stops (fun x => x == '!' || x == '+' || x == '-') d.rest :=
    hbegins.stops fun x hx => by
      simp only [Bool.or_eq_true, beq_iff_eq] at hx
      rcases hx with (rfl | rfl) | rfl <;> decide
  unfold term
  rw [result_rule]
  refine bind_eq_some_iff.mpr ⟨(), c, absent_eq_some_iff.mpr ⟨keyword_eq_none_iff.mpr hkeyword, rfl⟩, ?_⟩
  refine bind_eq_some_iff.mpr ⟨c.offset, c, offset_eq_some_iff.mpr ⟨rfl, rfl⟩, ?_⟩
  refine bind_eq_some_iff.mpr ⟨sign?, d, signed_complete hsign hstop, ?_⟩
  refine bind_eq_some_iff.mpr ⟨(name?, v), e, hfield, ?_⟩
  exact bind_pure_eq_some_iff.mpr ⟨e.offset, offset_eq_some_iff.mpr ⟨rfl, rfl⟩, rfl⟩

lemma many_furtherTerm_stop (hgroup : GroupsSound group) (h : ListEnds c) (k : Nat) :
    (many k (furtherTerm group) c).result = some ([], c) := by
  cases k with
  | zero => rfl
  | succ k =>
    have hnone : (furtherTerm group c).result = none := by
      apply Option.eq_none_iff_forall_ne_some.mpr
      rintro ⟨chunk, f⟩ hchunk
      unfold furtherTerm at hchunk
      obtain ⟨k?, e, hsep, hchunk⟩ := bind_eq_some_iff.mp hchunk
      obtain ⟨node, hterm, _⟩ := bind_pure_eq_some_iff.mp hchunk
      exact h.no_further (separator_sound hsep) (term_sound hgroup hterm)
    rw [result_many_succ, hnone]

lemma many_furtherTerm_complete {e f : Cursor} {k? : Option Connective} {node : Node Span}
    {chunks : List Tree} {k : Nat} (hsep : Separator c k? d) (h : Derives d (.term node) e)
    (hterm : (term group d).result = some (node, e))
    (hothers : (many k (furtherTerm group) e).result = some (chunks, f)) :
    (many (k + 1) (furtherTerm group) c).result =
      some ((k?.toList.map .connective ++ [node]) :: chunks, f) := by
  have hchunk : (furtherTerm group c).result = some (k?.toList.map .connective ++ [node], e) := by
    unfold furtherTerm
    exact bind_eq_some_iff.mpr ⟨k?, d, separator_complete hsep h,
      bind_pure_eq_some_iff.mpr ⟨node, hterm, rfl⟩⟩
  rw [result_many_succ, hchunk]
  simp only [hothers, Option.map_some]

lemma termList_complete {node : Node Span} {chunks : List Tree} {limit : Nat}
    (hterm : (term group c).result = some (node, d))
    (hothers : (many limit (furtherTerm group) d).result = some (chunks, e)) :
    (termList limit group c).result = some (node :: chunks.flatten, e) := by
  unfold termList
  rw [result_rule]
  refine bind_eq_some_iff.mpr ⟨node, d, hterm, ?_⟩
  exact bind_pure_eq_some_iff.mpr ⟨chunks, hothers, rfl⟩

end Rules

lemma group_complete {e f g h : Cursor} {members : Tree} {limit depth : Nat}
    (hopen : Reads c ['('] d) (hbefore : Blanks d e) (hlist : Derives e (.termList members) f)
    (hafter : Blanks f g) (hclose : Reads g [')'] h)
    (hmembers : (termList limit (groupedTermList limit depth) e).result = some (members, f)) :
    (groupedTermList limit (depth + 1) c).result = some (members, h) := by
  have hstart := hlist.termList_stops_blank
  have hend : Stops isBlank g.rest := hclose.stops (by decide)
  unfold groupedTermList
  rw [result_rule]
  refine bind_eq_some_iff.mpr ⟨(), d, characters_eq_some_iff.mpr hopen, ?_⟩
  refine bind_eq_some_iff.mpr ⟨(), e, blanks_complete hbefore hstart, ?_⟩
  refine bind_eq_some_iff.mpr ⟨members, f, hmembers, ?_⟩
  refine bind_eq_some_iff.mpr ⟨(), g, blanks_complete hafter hend, ?_⟩
  exact bind_pure_eq_some_iff.mpr ⟨(), characters_eq_some_iff.mpr hclose, rfl⟩

/-- What the evaluation makes of a text that a phrase stands at the front of, within limits
that the length of the text keeps. -/
def Evaluates (limit : Nat) (c : Cursor) (p : Phrase) (d : Cursor) : Prop :=
  ∀ depth, c.rest.length ≤ depth → c.rest.length ≤ limit →
    let group := groupedTermList limit depth
    match p with
    | .value v => (fieldValue group c).result = some (v, d)
    | .field name? v => Stops (· == ':') d.rest →
      (orElse (namedField group) (defaultField group) c).result = some ((name?, v), d)
    | .term node => Stops (· == ':') d.rest → (term group c).result = some (node, d)
    | .further nodes => ListEnds d → ∀ k, c.rest.length ≤ k →
      ∃ chunks, chunks.flatten = nodes ∧
        (many k (furtherTerm group) c).result = some (chunks, d)
    | .termList nodes => ListEnds d → (termList limit group c).result = some (nodes, d)
    | .group members => (group c).result = some (members, d)

theorem Derives.evaluates {p : Phrase} (limit : Nat) (h : Derives c p d) :
    Evaluates limit c p d := by
  induction h with
  | quotedText hword hread =>
    intro depth _ _ group
    exact fieldValue_of_quotedText hword hread
  | text hword hread hend =>
    intro depth _ _ group
    exact fieldValue_of_text hword hread hend
  | groupedTermList hgroup ih =>
    intro depth hdepth hlimit group
    exact fieldValue_of_group hgroup (ih depth hdepth hlimit)
  | namedField hname hread hcolon _ ih =>
    intro depth hdepth hlimit group _
    have hle := (hread.append hcolon).length_le
    exact namedField_complete hname hread hcolon (ih depth (hle.trans hdepth) (hle.trans hlimit))
  | defaultField hvalue ih =>
    intro depth hdepth hlimit group hcolon
    exact defaultField_complete hvalue hcolon (ih depth hdepth hlimit)
  | term hkeyword hsign hfield ih =>
    intro depth hdepth hlimit group hcolon
    have hle := hsign.reaches.length_le
    exact term_complete hkeyword hsign hfield
      (ih depth (hle.trans hdepth) (hle.trans hlimit) hcolon)
  | lastTerm c =>
    intro depth _ _ group hend k _
    exact ⟨[], rfl, many_furtherTerm_stop (groupedTermList_sound limit depth) hend k⟩
  | furtherTerm hsep hterm hfurther ihterm ihfurther =>
    intro depth hdepth hlimit group hend k hk
    obtain ⟨word, hne, hread⟩ := hsep.reads
    have hlength := hread.length
    have hpos := List.length_pos_iff.mpr hne
    have hle := hterm.reaches.length_le
    -- The separator is not empty: every further term leaves less text, so the limit is kept.
    have hnode := ihterm depth (by omega) (by omega) (hfurther.further_stops_colon hend)
    obtain ⟨k, rfl⟩ : ∃ j, k = j + 1 := ⟨k - 1, by omega⟩
    obtain ⟨chunks, hflat, hchunks⟩ := ihfurther depth (by omega) (by omega) hend k (by omega)
    refine ⟨_, ?_, many_furtherTerm_complete hsep hterm hnode hchunks⟩
    simp [hflat]
  | termList hterm hfurther ihterm ihfurther =>
    intro depth hdepth hlimit group hend
    have hle := hterm.reaches.length_le
    have hnode := ihterm depth hdepth hlimit (hfurther.further_stops_colon hend)
    obtain ⟨chunks, rfl, hchunks⟩ :=
      ihfurther depth (by omega) (by omega) hend limit (by omega)
    exact termList_complete hnode hchunks
  | group hopen hbefore hlist hafter hclose ih =>
    intro depth hdepth hlimit group
    have hlength : _ = 1 + _ := hopen.length
    have hle := hbefore.reaches.length_le
    obtain ⟨depth, rfl⟩ : ∃ j, depth = j + 1 := ⟨depth - 1, by omega⟩
    have hend : ListEnds _ := ⟨_, hafter, hclose.stops (by decide)⟩
    exact group_complete hopen hbefore hlist hafter hclose (ih depth (by omega) (by omega) hend)

/-- A text that is a query is evaluated to the tree of its derivation. -/
theorem DerivesQuery.evaluates {raw : String} {tree : Tree} (h : DerivesQuery raw tree) :
    ∃ d, (evaluate raw.toList).result = some (tree, d) := by
  obtain ⟨hbefore, hlist, hafter, hend⟩ := h
  rename_i c d e
  have hstart := hlist.termList_stops_blank
  have hstop : Stops isBlank e.rest := by rw [hend]; exact stops_nil _
  have hle : c.rest.length ≤ raw.toList.length := hbefore.reaches.length_le
  have hnodes := hlist.evaluates raw.toList.length raw.toList.length hle hle
    ⟨e, hafter, by rw [hend]; exact stops_nil _⟩
  refine ⟨e, ?_⟩
  rw [evaluate, Query.query, result_rule]
  refine bind_eq_some_iff.mpr ⟨(), c, blanks_complete hbefore hstart, ?_⟩
  refine bind_eq_some_iff.mpr ⟨tree, d, hnodes, ?_⟩
  refine bind_eq_some_iff.mpr ⟨(), e, blanks_complete hafter hstop, ?_⟩
  refine bind_pure_eq_some_iff.mpr ⟨(), ?_, rfl⟩
  rw [result_rule, atEnd_eq_some_iff]
  exact ⟨rfl, hend⟩

end ChantSearch.Proofs

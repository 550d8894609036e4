import ChantSearch.Proofs.Grammar.Attempts
import ChantSearch.Proofs.Grammar.Composition
import ChantSearch.Proofs.Grammar.Spans
import ChantSearch.Translation

/-!
# Where a rejected query is wrong

A query that is rejected is rejected at the start or the end of its text or between two of its
characters, and never before the end of a part at its front that would have been accepted alone. The
evaluation may read the end of that part otherwise than it is read alone, as the name of a field if
a colon follows, but it does not stop before it has come at least as far.
-/

namespace ChantSearch.Proofs
open Query Query.Parser

variable {α : Type} {c d e f g : Cursor} {raw u : String} {tree : Tree}

/-- The parser succeeds, and stops at the second cursor or further on. -/
def GetsTo (p : Parser α) (c d : Cursor) : Prop :=
  ∃ a e, (p c).result = some (a, e) ∧ Reaches d e

lemma getsTo_of_result {p : Parser α} {a : α} (h : (p c).result = some (a, d)) : GetsTo p c d :=
  ⟨a, d, h, .refl d⟩

section Terms

variable {group : Parser Tree} (hgroup : GroupsSound group) {node : Node Span} {nodes : Tree}
include hgroup

/-- If a value is taken for the name of a field, its field goes on behind it. -/
lemma getsTo_defaultField {v : Value} (h : Derives c (.value v) d)
    (hvalue : (fieldValue group c).result = some (v, d)) :
    GetsTo (orElse (namedField group) (defaultField group)) c d := by
  rw [GetsTo, result_orElse]
  cases hnamed : (namedField group c).result with
  | some found =>
    obtain ⟨r, e⟩ := found
    obtain ⟨name, f, g, w, _, hname, hread, hcolon, hbehind⟩ := namedField_parts hnamed
    obtain rfl := h.value_ends_at_colon hname hread hcolon
    exact ⟨r, e, rfl, hcolon.reaches.trans (fieldValue_sound hgroup hbehind).reaches⟩
  | none =>
    have hdefault : (defaultField group c).result = some ((none, v), d) := by
      rw [defaultField, result_rule]
      exact bind_pure_eq_some_iff.mpr ⟨v, hvalue, rfl⟩
    exact ⟨_, d, hdefault, .refl d⟩

/-- A term is read as its field is read, whatever that makes of what follows. -/
lemma getsTo_term {sign? : Option Sign} (hkeyword : ¬∃ k e, Keyword c k e)
    (hsign : Signed c sign? d)
    (hfield : GetsTo (orElse (namedField group) (defaultField group)) d e) :
    GetsTo (term group) c e := by
  obtain ⟨⟨name?, w⟩, f, hfound, hf⟩ := hfield
  exact ⟨_, f, term_complete hkeyword hsign (field_sound hgroup hfound) hfound, hf⟩

/-- The last term of a list may be read further than it reaches, but then nothing of the list is
left behind it. -/
lemma term_then_further {k : Nat} (hterm : GetsTo (term group) c d)
    (hexact : Stops (· == ':') d.rest → (term group c).result = some (node, d))
    (hfurther : Derives d (.further nodes) e) (hmore : GetsTo (many k (furtherTerm group)) d e) :
    ∃ found f chunks g, (term group c).result = some (found, f) ∧
      (many k (furtherTerm group) f).result = some (chunks, g) ∧ Reaches e g := by
  cases hfurther with
  | lastTerm =>
    obtain ⟨found, f, hfound, hf⟩ := hterm
    obtain ⟨chunks, g, hchunks⟩ := many_succeeds (furtherTerm group) k f
    have hreached := (many_furtherTerm_sound hgroup hchunks).reaches
    exact ⟨found, f, chunks, g, hfound, hchunks, hf.trans hreached⟩
  | furtherTerm hsep _ _ =>
    obtain ⟨chunks, g, hchunks, hg⟩ := hmore
    exact ⟨node, d, chunks, g, hexact hsep.stops_colon, hchunks, hg⟩

end Terms

/-- However a text goes on, its evaluation comes as far as the phrase at its front. -/
def Advances (limit : Nat) (c : Cursor) (p : Phrase) (d : Cursor) : Prop :=
  ∀ depth, c.rest.length ≤ depth → c.rest.length ≤ limit →
    let group := groupedTermList limit depth
    match p with
    | .value _ => GetsTo (fieldValue group) c d
    | .field _ _ => GetsTo (orElse (namedField group) (defaultField group)) c d
    | .term _ => GetsTo (term group) c d
    | .further _ => ∀ k, c.rest.length ≤ k → GetsTo (many k (furtherTerm group)) c d
    | .termList _ => GetsTo (termList limit group) c d
    | .group _ => GetsTo group c d

theorem Derives.advances {p : Phrase} (limit : Nat) (h : Derives c p d) :
    Advances limit c p d := by
  induction h with
  | quotedText hword hread =>
    intro depth _ _ group
    exact getsTo_of_result (fieldValue_of_quotedText hword hread)
  | text hword hread hend =>
    intro depth _ _ group
    exact getsTo_of_result (fieldValue_of_text hword hread hend)
  | groupedTermList hgroup _ =>
    intro depth hdepth hlimit group
    exact getsTo_of_result (fieldValue_of_group hgroup (hgroup.evaluates limit depth hdepth hlimit))
  | namedField hname hread hcolon hvalue _ =>
    intro depth hdepth hlimit group
    have hle := (hread.append hcolon).length_le
    have hexact := hvalue.evaluates limit depth (hle.trans hdepth) (hle.trans hlimit)
    exact getsTo_of_result (namedField_complete hname hread hcolon hexact)
  | defaultField hvalue _ =>
    intro depth hdepth hlimit group
    exact getsTo_defaultField (groupedTermList_sound limit depth) hvalue
      (hvalue.evaluates limit depth hdepth hlimit)
  | term hkeyword hsign hfield ih =>
    intro depth hdepth hlimit group
    have hle := hsign.reaches.length_le
    exact getsTo_term (groupedTermList_sound limit depth) hkeyword hsign
      (ih depth (hle.trans hdepth) (hle.trans hlimit))
  | lastTerm c =>
    intro depth _ _ group k _
    obtain ⟨chunks, e, hchunks⟩ := many_succeeds _ k c
    exact ⟨chunks, e, hchunks,
      (many_furtherTerm_sound (groupedTermList_sound limit depth) hchunks).reaches⟩
  | furtherTerm hsep hterm hfurther ihterm ihfurther =>
    intro depth hdepth hlimit group k hk
    have hgroup : GroupsSound group := groupedTermList_sound limit depth
    obtain ⟨word, hne, hread⟩ := hsep.reads
    have hlength := hread.length
    have hpos := List.length_pos_iff.mpr hne
    have hle := hterm.reaches.length_le
    obtain ⟨k, rfl⟩ : ∃ j, k = j + 1 := ⟨k - 1, by omega⟩
    obtain ⟨found, i, chunks, j, hfound, hchunks, hj⟩ := term_then_further hgroup
      (ihterm depth (by omega) (by omega)) (hterm.evaluates limit depth (by omega) (by omega))
      hfurther (ihfurther depth (by omega) (by omega) k (by omega))
    exact ⟨_, j, many_furtherTerm_complete hsep (term_sound hgroup hfound) hfound hchunks, hj⟩
  | termList hterm hfurther ihterm ihfurther =>
    intro depth hdepth hlimit group
    have hle := hterm.reaches.length_le
    obtain ⟨found, i, chunks, j, hfound, hchunks, hj⟩ :=
      term_then_further (groupedTermList_sound limit depth) (ihterm depth hdepth hlimit)
        (hterm.evaluates limit depth hdepth hlimit) hfurther
        (ihfurther depth (by omega) (by omega) limit (by omega))
    exact ⟨_, j, termList_complete hfound hchunks, hj⟩
  | group hopen hbefore hlist hafter hclose _ =>
    intro depth hdepth hlimit group
    have h := Derives.group hopen hbefore hlist hafter hclose
    exact getsTo_of_result (h.evaluates limit depth hdepth hlimit)

lemma exists_blanks_end (c : Cursor) : ∃ d, Blanks c d ∧ Stops isBlank d.rest :=
  ⟨_, blanks_eq_some_iff.mp (result_skipping isBlank c)⟩

/-- Blanks are read to their end, so it makes no difference if a part of them is left out. -/
lemma Blanks.offset_le_of_reaches (hce : Blanks c e) (hcd : Reaches c d) (hdf : Blanks d f)
    (hf : Stops isBlank f.rest) : e.offset ≤ f.offset := by
  obtain ⟨u, hu, hce⟩ := hce
  obtain ⟨w, hcd⟩ := hcd
  rcases List.append_eq_append_iff.mp (hcd.rest.symm.trans hce.rest) with
    ⟨v, rfl, _⟩ | ⟨v, rfl, _⟩
  · obtain ⟨i, hci, hie⟩ := hce.split
    obtain rfl := hci.unique hcd
    obtain ⟨j, hej, hj⟩ := exists_blanks_end e
    have hblanks : Blanks i e := ⟨v, fun x hx => hu x (by simp [hx]), hie⟩
    rw [← (hblanks.trans hej).unique hj hdf hf]
    exact hej.reaches.offset_le
  · obtain ⟨i, hci, hid⟩ := hcd.split
    obtain rfl := hci.unique hce
    exact hid.offset_le.trans hdf.reaches.offset_le

/-- The offset is that of a place between two characters of the text, or of its start or end. -/
lemma OnTheWay.between {n : Nat} (h : OnTheWay (.ofString raw) n) :
    ∃ before after : String, raw = before ++ after ∧ n = before.utf8ByteSize := by
  rcases h with rfl | ⟨d, ⟨word, hread⟩, rfl⟩
  · exact ⟨"", raw, by simp, rfl⟩
  · exact ⟨String.ofList word, String.ofList d.rest, hread.split_text⟩

lemma tooDeepFrom_reaches {quoted : Bool} {depth offset n : Nat} {cs : List Char}
    (h : tooDeepFrom quoted depth offset cs = some n) :
    ∃ d, Reaches ⟨offset, cs⟩ d ∧ d.offset = n := by
  induction cs generalizing quoted depth offset with
  | nil => exact absurd h (by simp [tooDeepFrom])
  | cons x cs ih =>
    have hnext {quoted : Bool} {depth : Nat}
        (h : tooDeepFrom quoted depth (offset + x.utf8Size) cs = some n) :
        ∃ d, Reaches ⟨offset, x :: cs⟩ d ∧ d.offset = n := by
      obtain ⟨d, hd, hn⟩ := ih h
      have hone : Reads ⟨offset, x :: cs⟩ [x] ⟨offset + x.utf8Size, cs⟩ := ⟨rfl, rfl⟩
      exact ⟨d, hone.reaches.trans hd, hn⟩
    simp only [tooDeepFrom] at h
    split at h
    · exact hnext h
    · split at h
      · split at h
        · exact ⟨_, .refl _, Option.some.inj h⟩
        · exact hnext h
      · split at h
        · exact hnext h
        · exact hnext h

lemma tooDeepFrom_offset_le {quoted : Bool} {depth n : Nat}
    (h : tooDeepFrom quoted depth c.offset c.rest = some n) : c.offset ≤ n := by
  obtain ⟨d, hd, rfl⟩ := tooDeepFrom_reaches h
  exact hd.offset_le

lemma le_furthestIn_bind {β : Type} {p : Parser α} {q : α → Parser β} {a : α} {n : Nat}
    (h : (p c).result = some (a, d)) (hle : n ≤ furthestIn .sought (q a d).trace) :
    n ≤ furthestIn .sought ((p >>= q) c).trace := by
  rw [bind_of_some h, furthestIn_append]
  exact hle.trans (le_max_right _ _)

lemma le_furthestIn_rule {p : Parser α} {n : Nat} (r : Rule)
    (h : n ≤ furthestIn .sought (p c).trace) : n ≤ furthestIn .sought (rule r p c).trace := by
  simp only [rule, furthestIn, furthest, Nat.max_zero]
  exact h.trans (le_max_left _ _)

lemma offset_le_furthestIn_rule {p : Parser α} (r : Rule) (h : (p c).result = none) :
    c.offset ≤ furthestIn .sought (rule r p c).trace := by
  simp [rule, furthestIn, furthest, Polarity.reports, h]

/-- Behind a list of terms and blanks only the end of the text can be missing. -/
lemma le_furthestIn_query {nodes : Tree} {limit depth : Nat} (hlimit : c.rest.length ≤ limit)
    (hdepth : c.rest.length ≤ depth) (hbefore : Blanks c d) (hlist : Derives d (.termList nodes) e)
    (hafter : Blanks e f) (hnone : (Query.query limit depth c).result = none) :
    f.offset ≤ furthestIn .sought (Query.query limit depth c).trace := by
  have hle := hbefore.reaches.length_le
  have hstart := blanks_complete hbefore hlist.termList_stops_blank
  obtain ⟨found, g, hfound, hg⟩ :=
    hlist.advances limit depth (hle.trans hdepth) (hle.trans hlimit)
  obtain ⟨i, hgi, hi⟩ := exists_blanks_end g
  have hstop := blanks_complete hgi hi
  have hlast : f.offset ≤ i.offset := hafter.offset_le_of_reaches hg hgi hi
  have hend : ((rule .endOfInput atEnd >>= fun _ => pure found) i).result = none := by
    rw [Query.query, result_rule] at hnone
    simpa [hstart, hfound, hstop] using hnone
  have hend := bind_pure_eq_none_iff.mp hend
  refine le_furthestIn_rule _ (le_furthestIn_bind hstart (le_furthestIn_bind hfound
    (le_furthestIn_bind hstop ?_)))
  rw [bind_of_none hend]
  exact hlast.trans (offset_le_furthestIn_rule _ hend)

lemma parse_error_cases {err : SyntaxError} (h : parse raw = .error err) :
    tooDeepAt raw.toList = some err.position ∨
      (evaluate raw.toList).result = none ∧
        err.position = furthestIn .sought (evaluate raw.toList).trace := by
  rw [parse] at h
  split at h
  · next position hdeep =>
    obtain rfl := Except.error.inj h
    exact .inl hdeep
  · split at h
    · exact absurd h (by simp)
    · next trace hevaluate =>
      obtain rfl := Except.error.inj h
      rw [hevaluate]
      exact .inr ⟨rfl, position_ofTrace trace⟩

lemma position_between {err : SyntaxError} (h : parse raw = .error err) :
    ∃ before after : String, raw = before ++ after ∧ err.position = before.utf8ByteSize := by
  refine OnTheWay.between ?_
  rcases parse_error_cases h with hdeep | ⟨_, hposition⟩
  · exact .inr (tooDeepFrom_reaches hdeep)
  · rw [hposition]
    exact (anchored_query _ _).tries .sought (.ofString raw)

/-- The part is passed over by the guard and read by the evaluation, before either rejects the
text. -/
lemma byteSize_le_position {err : SyntaxError} {rest : String} (h : parse (u ++ rest) = .error err)
    (hu : parse u = .ok tree) (hrest : ¬TextContinues rest.toList) :
    u.utf8ByteSize ≤ err.position := by
  have hstart : (Cursor.ofString (u ++ rest)).rest = u.toList ++ rest.toList := by
    simp [Cursor.ofString]
  obtain ⟨nodes, c, d, e, hbefore, hlist, hafter, hread, _, hshape⟩ :=
    (derivesQuery_of_parse hu).placed hstart hrest
  have hoffset : e.offset = u.utf8ByteSize := by
    rw [hread.split_text.2, String.ofList_toList]
  rw [← hoffset]
  rcases parse_error_cases h with hdeep | ⟨hnone, hposition⟩
  · have hdepth : Node.depthList nodes ≤ maxDepth := by
      have hle := depth_of_parse hu
      rwa [← depthList_mapList, ← Node.shape, ← hshape, Node.shape, depthList_mapList] at hle
    have hscan : Scan 0 (.ofString (u ++ rest)) (Node.depthList nodes) e :=
      .between_blanks (Nat.zero_le _) hbefore (hlist.scan (Nat.zero_le _)) hafter
    have hpasses := hscan.passes (by rwa [Nat.zero_add])
    exact tooDeepFrom_offset_le (hpasses.symm.trans hdeep)
  · rw [hposition]
    exact le_furthestIn_query le_rfl le_rfl hbefore hlist hafter hnone

/-- A text that is not accepted, be it refused by the depth guard or by the grammar, is an error
at the start or the end of the text or between two of its characters, and the same error is all
that comes of a translation. If a part at the front of the text is accepted alone, and neither a
character of a text nor a wildcard nor a quote follows it, then the error is not before its end. -/
theorem syntax_error_position (raw : String) (h : ∀ tree, parse raw ≠ .ok tree) :
    ∃ err, parse raw = .error err ∧
      (∀ schema service resourceType,
        translate schema service resourceType raw = ⟨[], .error (.illFormed err)⟩) ∧
      (∃ before after : String, raw = before ++ after ∧ err.position = before.utf8ByteSize) ∧
      ∀ (u rest : String) (tree : Tree), raw = u ++ rest → parse u = .ok tree →
        (∀ x ∈ rest.toList.head?, isTextChar x = false ∧ x ≠ '*' ∧ x ≠ '?' ∧ x ≠ '"') →
        u.utf8ByteSize ≤ err.position := by
  cases hparse : parse raw with
  | ok tree => exact absurd hparse (h tree)
  | error err =>
    refine ⟨err, rfl, fun schema service resourceType => ?_, position_between hparse, ?_⟩
    · simp [translate, knownComponents, hparse]
    · rintro u rest tree rfl hu hrest
      refine byteSize_le_position hparse hu ?_
      rw [not_textContinues_iff]
      constructor
      · intro x hx
        simp [isWildedChar, hrest x hx]
      · intro x hx
        simp [hrest x hx]

theorem syntax_error_position_missing_value :
    (∀ tree, parse "genre:antiphon key:" ≠ .ok tree) ∧
      ∃ err, parse "genre:antiphon key:" = .error err ∧
        "genre:antiphon".utf8ByteSize ≤ err.position := by
  have herror : parse "genre:antiphon key:" =
      .error ⟨19, "expected field_value"⟩ := by
    cbv
  have hrejected : ∀ tree, parse "genre:antiphon key:" ≠ .ok tree := by simp [herror]
  have hu : parse "genre:antiphon" =
      .ok [.literal ⟨none, some "genre", ⟨0, 14⟩⟩ "antiphon"] := by
    cbv
  obtain ⟨err, hparse, _, _, hprefix⟩ := syntax_error_position _ hrejected
  exact ⟨hrejected, err, hparse,
    hprefix "genre:antiphon" " key:" _ (by decide) hu (by simp; decide)⟩

end ChantSearch.Proofs

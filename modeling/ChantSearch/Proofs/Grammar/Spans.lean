import ChantSearch.Proofs.Grammar.Derivation

/-!
# Spans

The byte ranges of the terms of a query. Terms that stand next to one another in a list have
ranges in the order of the list, with at least one byte between them, and the members of a group
lie strictly inside the range of the group.
-/

namespace ChantSearch.Proofs
open Query

/-- A range that is not empty, between two places. -/
structure SpanWithin (lo hi : Nat) (span : Span) : Prop where
  lo_le : lo ≤ span.start
  lt : span.start < span.stop
  le_hi : span.stop ≤ hi

/-- Where what follows a member of a list can begin. A byte separates it from a term. -/
def behind (lo : Nat) : Node Span → Nat
  | .connective _ => lo
  | .literal head _ => head.mark.stop + 1
  | .group head _ => head.mark.stop + 1

mutual

def NodeWithin (lo hi : Nat) : Node Span → Prop
  | .connective _ => lo ≤ hi
  | .literal head _ => SpanWithin lo hi head.mark
  | .group head members =>
    SpanWithin lo hi head.mark ∧ Within (head.mark.start + 1) (head.mark.stop - 1) members

/-- The terms stand between two places in their order, and apart from one another. -/
def Within (lo hi : Nat) : List (Node Span) → Prop
  | [] => True
  | node :: nodes => NodeWithin lo hi node ∧ Within (behind lo node) hi nodes

end

variable {lo lo' hi hi' : Nat} {node : Node Span} {nodes : Tree} {c d : Cursor}

lemma SpanWithin.mono {span : Span} (h : SpanWithin lo hi span) (hlo : lo' ≤ lo)
    (hhi : hi ≤ hi') : SpanWithin lo' hi' span :=
  ⟨hlo.trans h.lo_le, h.lt, h.le_hi.trans hhi⟩

lemma NodeWithin.mono (h : NodeWithin lo hi node) (hlo : lo' ≤ lo) (hhi : hi ≤ hi') :
    NodeWithin lo' hi' node := by
  cases node with
  | connective k => exact hlo.trans (le_trans h hhi)
  | literal head text => exact SpanWithin.mono h hlo hhi
  | group head members => exact ⟨h.1.mono hlo hhi, h.2⟩

lemma behind_mono (node : Node Span) (hlo : lo' ≤ lo) : behind lo' node ≤ behind lo node := by
  cases node with
  | connective k => exact hlo
  | literal head text => exact le_rfl
  | group head members => exact le_rfl

lemma Within.mono (h : Within lo hi nodes) (hlo : lo' ≤ lo) (hhi : hi ≤ hi') :
    Within lo' hi' nodes := by
  induction nodes generalizing lo lo' with
  | nil => trivial
  | cons node nodes ih => exact ⟨h.1.mono hlo hhi, ih h.2 (behind_mono node hlo)⟩

lemma NodeWithin.behind_bounds (h : NodeWithin lo hi node) :
    lo ≤ behind lo node ∧ behind lo node ≤ hi + 1 := by
  have hspan {span : Span} (hspan : SpanWithin lo hi span) :
      lo ≤ span.stop + 1 ∧ span.stop + 1 ≤ hi + 1 := by
    obtain ⟨hlo, hlt, hhi⟩ := hspan
    omega
  cases node with
  | connective k => exact ⟨le_rfl, Nat.le_succ_of_le h⟩
  | literal head text => exact hspan h
  | group head members => exact hspan h.1

lemma within_connective (k? : Option Connective) (hlo : lo ≤ hi) (h : Within lo hi nodes) :
    Within lo hi (k?.toList.map .connective ++ nodes) := by
  cases k? with
  | none => exact h
  | some k => exact ⟨hlo, h⟩

lemma Reads.offset_le {word : List Char} (h : Reads c word d) : c.offset ≤ d.offset := by
  rw [h.offset]
  exact Nat.le_add_right _ _

lemma byteLength_pos {word : List Char} (h : word ≠ []) : 0 < byteLength word := by
  obtain ⟨x, word, rfl⟩ := List.exists_cons_of_ne_nil h
  rw [byteLength]
  exact Nat.add_pos_left (Char.utf8Size_pos x) _

lemma Reads.offset_lt {word : List Char} (h : Reads c word d) (hword : word ≠ []) :
    c.offset < d.offset := by
  rw [h.offset]
  exact Nat.lt_add_of_pos_right (byteLength_pos hword)

lemma Reaches.offset_le (h : Reaches c d) : c.offset ≤ d.offset := by
  obtain ⟨_, hread⟩ := h
  exact hread.offset_le

lemma Derives.offset_lt_of_field {name? : Option String} {v : Value}
    (h : Derives c (.field name? v) d) : c.offset < d.offset := by
  obtain ⟨word, hread, front, x, rfl, _⟩ := h.phraseEnds
  exact hread.offset_lt (by simp)

/-- Where the terms of a phrase stand that reaches from one place to another. -/
def PhraseWithin (lo hi : Nat) : Phrase → Prop
  | .value (.literal _) => True
  | .value (.group members) => Within (lo + 1) (hi - 1) members
  | .field _ (.literal _) => True
  | .field _ (.group members) => Within (lo + 1) (hi - 1) members
  | .term node => NodeWithin lo hi node ∧ ∀ lo', behind lo' node = hi + 1
  | .further nodes => Within (lo + 1) hi nodes
  | .termList nodes => Within lo hi nodes
  | .group members => Within (lo + 1) (hi - 1) members

lemma Derives.within {p : Phrase} (h : Derives c p d) : PhraseWithin c.offset d.offset p := by
  induction h with
  | quotedText => trivial
  | text => trivial
  | groupedTermList _ ih => exact ih
  | @namedField _ _ _ _ _ v _ hname hcolon _ ih =>
    cases v with
    | literal text => trivial
    | group members =>
      have hvalue := (hname.append hcolon).offset_le
      exact Within.mono ih (by omega) le_rfl
  | @defaultField _ _ v _ ih => cases v <;> exact ih
  | @term c d e sign? name? v _ hsign hfield ih =>
    have hvalue := hsign.reaches.offset_le
    have hspan : SpanWithin c.offset e.offset ⟨c.offset, e.offset⟩ :=
      ⟨le_rfl, hvalue.trans_lt hfield.offset_lt_of_field, le_rfl⟩
    cases v with
    | literal text => exact ⟨hspan, fun _ => rfl⟩
    | group members =>
      exact ⟨⟨hspan, Within.mono ih (Nat.add_le_add_right hvalue 1) le_rfl⟩, fun _ => rfl⟩
  | lastTerm => trivial
  | @furtherTerm c d e f k? node nodes hsep hterm hfurther ihterm ihfurther =>
    -- A separator is not empty, so the next term begins at least one byte further on.
    obtain ⟨word, hword, hread⟩ := hsep.reads
    have hseparator : c.offset + 1 ≤ d.offset := hread.offset_lt hword
    have hstop := hfurther.reaches.offset_le
    refine within_connective k? (hseparator.trans (hterm.reaches.offset_le.trans hstop)) ⟨?_, ?_⟩
    · exact ihterm.1.mono hseparator hstop
    · rw [ihterm.2]
      exact ihfurther
  | @termList c d e node nodes _ hfurther ihterm ihfurther =>
    refine ⟨ihterm.1.mono le_rfl hfurther.reaches.offset_le, ?_⟩
    rw [ihterm.2]
    exact ihfurther
  | group hopen hbefore _ hafter hclose ih =>
    have hstart := hopen.offset_lt (by simp)
    have hstop := hclose.offset_lt (by simp)
    have hbefore := hbefore.reaches.offset_le
    have hafter := hafter.reaches.offset_le
    exact Within.mono ih (by omega) (by omega)

/-- The terms of a query stand in the order of its text, and members inside their groups. -/
theorem DerivesQuery.within {raw : String} {tree : Tree} (h : DerivesQuery raw tree) :
    Within 0 (byteLength raw.toList) tree := by
  cases h with
  | @query c d e hbefore hlist hafter hend =>
    obtain ⟨word, hread⟩ := hlist.reaches
    obtain ⟨u, _, hu⟩ := hbefore
    obtain ⟨v, _, hv⟩ := hafter
    have htext := (hu.append hread).append hv
    have hraw : raw.toList = u ++ word ++ v := by
      have hrest := htext.rest
      rwa [hend, List.append_nil] at hrest
    have hstop : d.offset ≤ byteLength raw.toList := by
      rw [hraw, ← Nat.zero_add (byteLength _)]
      exact hv.offset_le.trans htext.offset.le
    exact Within.mono hlist.within (Nat.zero_le _) hstop

end ChantSearch.Proofs

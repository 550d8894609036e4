import ChantSearch.Proofs.Grammar.Acceptance
import ChantSearch.Proofs.Grammar.Spans
import ChantSearch.Proofs.Rendering.Relocation

/-!
# Slices

The byte range of a term cuts a slice out of the text of its query. Whatever stood around it, the
slice alone is a query, of that one term. The ranges of neighbours are apart from one another, and
inside the range of the group they are members of.
-/

namespace ChantSearch.Proofs
open Query

variable {raw : String} {tree nodes members : Tree} {node : Node Span} {head : Head Span}
  {span : Span} {c d : Cursor} {lo hi : Nat}

/-- The byte range of a term. A connective has none. -/
def spanOf? : Node Span → Option Span
  | .connective _ => none
  | .literal head _ => some head.mark
  | .group head _ => some head.mark

/-- The node is one of the nodes, or stands at any depth in a group of them. -/
inductive Occurs (node : Node Span) : Tree → Prop where
  | member {nodes : Tree} : node ∈ nodes → Occurs node nodes
  | inside {nodes members : Tree} {head : Head Span} : .group head members ∈ nodes →
      Occurs node members → Occurs node nodes

lemma depth_le_of_mem (h : node ∈ nodes) : node.depth ≤ Node.depthList nodes := by
  induction nodes with
  | nil => exact absurd h (by simp)
  | cons first nodes ih =>
    rw [Node.depthList]
    rcases List.mem_cons.mp h with rfl | h
    · exact le_max_left _ _
    · exact (ih h).trans (le_max_right _ _)

lemma Occurs.depth_le (h : Occurs node nodes) : node.depth ≤ Node.depthList nodes := by
  induction h with
  | member hmem => exact depth_le_of_mem hmem
  | inside hgroup _ ih =>
    have houter := depth_le_of_mem hgroup
    rw [Node.depth] at houter
    omega

/-- The byte ranges of the terms follow one another in the order of the list, with at least one
byte between them. -/
def TermsApart (nodes : Tree) : Prop :=
  (nodes.filterMap spanOf?).Pairwise fun s t => s.stop < t.start

lemma SpanWithin.of_nodeWithin (h : NodeWithin lo hi node) (hspan : spanOf? node = some span) :
    SpanWithin lo hi span := by
  cases node with
  | connective k => exact absurd hspan (by simp [spanOf?])
  | literal head text =>
    obtain rfl := Option.some.inj hspan
    exact h
  | group head members =>
    obtain rfl := Option.some.inj hspan
    exact h.1

lemma NodeWithin.behind_eq (hspan : spanOf? node = some span) : behind lo node = span.stop + 1 := by
  cases node with
  | connective k => exact absurd hspan (by simp [spanOf?])
  | literal head text =>
    obtain rfl := Option.some.inj hspan
    rfl
  | group head members =>
    obtain rfl := Option.some.inj hspan
    rfl

lemma Within.nodeWithin_of_mem (h : Within lo hi nodes) (hmem : node ∈ nodes) :
    NodeWithin lo hi node := by
  induction nodes generalizing lo with
  | nil => exact absurd hmem (by simp)
  | cons first nodes ih =>
    rcases List.mem_cons.mp hmem with rfl | hmem
    · exact h.1
    · exact (ih h.2 hmem).mono h.1.behind_bounds.1 le_rfl

lemma Within.termsApart (h : Within lo hi nodes) : TermsApart nodes := by
  induction nodes generalizing lo with
  | nil => exact List.Pairwise.nil
  | cons first nodes ih =>
    have hlater := ih h.2
    rw [TermsApart, List.filterMap_cons]
    cases hfirst : spanOf? first with
    | none => exact hlater
    | some span =>
      refine List.pairwise_cons.mpr ⟨fun t ht => ?_, hlater⟩
      obtain ⟨node, hmem, hspan⟩ := List.mem_filterMap.mp ht
      have hwithin := SpanWithin.of_nodeWithin (h.2.nodeWithin_of_mem hmem) hspan
      have hstart := hwithin.lo_le
      rw [NodeWithin.behind_eq hfirst] at hstart
      exact hstart

lemma Within.of_occurs (h : Within lo hi nodes) (hnode : Occurs node nodes) :
    NodeWithin lo hi node := by
  induction hnode generalizing lo hi with
  | member hmem => exact h.nodeWithin_of_mem hmem
  | @inside _ _ head hgroup _ ih =>
    obtain ⟨hspan, hmembers⟩ := h.nodeWithin_of_mem hgroup
    refine (ih hmembers).mono (hspan.lo_le.trans (Nat.le_succ _)) ?_
    exact (Nat.sub_le _ _).trans hspan.le_hi

/-- The term has a derivation of its own somewhere between the cursors. -/
def Stands (c : Cursor) (node : Node Span) (d : Cursor) : Prop :=
  ∃ e f, Reaches c e ∧ Derives e (.term node) f ∧ Reaches f d

lemma Stands.within {e f : Cursor} (h : Stands e node f) (hbefore : Reaches c e)
    (hafter : Reaches f d) : Stands c node d := by
  obtain ⟨i, j, hi, hterm, hj⟩ := h
  exact ⟨i, j, hbefore.trans hi, hterm, hj.trans hafter⟩

lemma Derives.stands_of_mem {p : Phrase} (h : Derives c p d)
    (hp : p = .termList nodes ∨ p = .further nodes) (hmem : node ∈ nodes)
    (hspan : spanOf? node = some span) : Stands c node d := by
  induction h generalizing nodes with
  | lastTerm =>
    obtain rfl : [] = nodes := by simpa using hp
    exact absurd hmem (by simp)
  | @furtherTerm _ _ _ _ k? _ _ hsep hterm hfurther _ ih =>
    obtain rfl := Phrase.further.inj (by simpa using hp)
    obtain ⟨_, _, hsep⟩ := hsep.reads
    rcases List.mem_append.mp hmem with hmem | hmem
    · cases k? with
      | none => exact absurd hmem (by simp)
      | some k =>
        obtain rfl : node = .connective k := by simpa using hmem
        exact absurd hspan (by simp [spanOf?])
    · rcases List.mem_cons.mp hmem with rfl | hmem
      · exact ⟨_, _, hsep.reaches, hterm, hfurther.reaches⟩
      · exact (ih (.inr rfl) hmem).within (hsep.reaches.trans hterm.reaches) (.refl _)
  | termList hterm hfurther _ ih =>
    obtain rfl := Phrase.termList.inj (by simpa using hp)
    rcases List.mem_cons.mp hmem with rfl | hmem
    · exact ⟨_, _, .refl _, hterm, hfurther.reaches⟩
    · exact (ih (.inr rfl) hmem).within hterm.reaches (.refl _)
  | quotedText | text | groupedTermList | namedField | defaultField | term | group =>
    exact absurd hp (by simp)

lemma Derives.spanOf_term (h : Derives c (.term node) d) :
    spanOf? node = some ⟨c.offset, d.offset⟩ := by
  generalize hp : Phrase.term node = p at h
  cases h with
  | @term _ _ _ _ _ v _ _ _ =>
    obtain rfl := Phrase.term.inj hp
    cases v <;> rfl
  | _ => exact absurd hp (by simp)

/-- The members of a group have a derivation between the parentheses of the group. -/
lemma Derives.members_of_group (h : Derives c (.term (.group head members)) d) :
    ∃ e f, Reaches c e ∧ Derives e (.termList members) f ∧ Reaches f d := by
  generalize hp : Phrase.term (.group head members) = p at h
  cases h with
  | @term _ _ _ _ _ v _ hsign hfield =>
    cases v with
    | literal text => exact absurd hp (by simp [Value.toNode])
    | group inner =>
      obtain rfl : members = inner := (Node.group.inj (Phrase.term.inj hp)).2
      obtain ⟨_, hfront, hvalue⟩ := ((derives_field_iff ⟨none, _, ()⟩).mp hfield).2
      cases hvalue with
      | groupedTermList hgroup =>
        cases hgroup with
        | group hopen hbefore hlist hafter hclose =>
          have hstart := hsign.reaches.trans (hfront.append hopen).reaches
          exact ⟨_, _, hstart.trans hbefore.reaches, hlist, hafter.reaches.trans hclose.reaches⟩
  | _ => exact absurd hp (by simp)

lemma Occurs.stands (h : Occurs node nodes) (hspan : spanOf? node = some span)
    (hlist : Derives c (.termList nodes) d) : Stands c node d := by
  induction h generalizing c d with
  | member hmem => exact hlist.stands_of_mem (.inl rfl) hmem hspan
  | inside hgroup _ ih =>
    obtain ⟨e, f, he, hterm, hf⟩ := hlist.stands_of_mem (.inl rfl) hgroup rfl
    obtain ⟨i, j, hi, hmembers, hj⟩ := hterm.members_of_group
    exact (ih hmembers).within (he.trans hi) (hj.trans hf)

def backBy (n : Nat) (span : Span) : Span :=
  ⟨span.start - n, span.stop - n⟩

/-- The byte range begins and ends between characters of the text, and cuts out the slice. -/
def Cuts (raw : String) (span : Span) (slice : String) : Prop :=
  ∃ before after : String, raw = before ++ slice ++ after ∧
    span.start = before.utf8ByteSize ∧ span.stop = (before ++ slice).utf8ByteSize

/-- A term read from the text, moved to the front of an empty text behind which nothing stands,
is a query. -/
lemma Derives.sliced {word : List Char} (h : Derives c (.term node) d) (hread : Reads c word d) :
    DerivesQuery (String.ofList word) [node.map (backBy c.offset)] := by
  have hstart : (Cursor.ofString (String.ofList word)).rest = word ++ [] := by
    simp [Cursor.ofString]
  obtain ⟨d', hterm, hend⟩ := h.relocate_whole hread hstart not_textContinues_nil
  exact .query ⟨[], by simp, .nil _⟩ (.termList hterm (.lastTerm d')) ⟨[], by simp, .nil d'⟩ hend

lemma Stands.exists_slice {e : Cursor} (h : Stands (.ofString raw) node e)
    (hspan : spanOf? node = some span) :
    ∃ slice, Cuts raw span slice ∧ DerivesQuery slice [node.map (backBy span.start)] := by
  obtain ⟨c, d, ⟨before, hbefore⟩, hterm, _⟩ := h
  obtain ⟨word, hword⟩ := hterm.reaches
  obtain rfl : ⟨c.offset, d.offset⟩ = span := Option.some.inj (hterm.spanOf_term.symm.trans hspan)
  have hboth := hbefore.append hword
  refine ⟨String.ofList word, ⟨String.ofList before, String.ofList d.rest, ?_, ?_, ?_⟩,
    hterm.sliced hword⟩
  · rw [← String.ofList_append]
    exact hboth.split_text.1
  · exact hbefore.split_text.2
  · rw [← String.ofList_append]
    exact hboth.split_text.2

lemma DerivesQuery.stands (h : DerivesQuery raw tree) (hnode : Occurs node tree)
    (hspan : spanOf? node = some span) : ∃ e, Stands (.ofString raw) node e := by
  obtain ⟨hbefore, hlist, _, _⟩ := h
  exact ⟨_, (hnode.stands hspan hlist).within hbefore.reaches (.refl _)⟩

/-- In an accepted query the byte range of every term, at any depth, cuts a slice out of the text.
The slice alone is accepted, as that one term with all its byte ranges moved back to the front. The
ranges of terms that are members of one list follow one another with at least a byte between them,
and the terms in a group stand strictly inside the range of the term that the group belongs to. -/
theorem spans_exact (raw : String) (tree : Tree) (hparse : parse raw = .ok tree) :
    (∀ node span, Occurs node tree → spanOf? node = some span →
      ∃ slice, Cuts raw span slice ∧ parse slice = .ok [node.map (backBy span.start)]) ∧
    TermsApart tree ∧
    ∀ head members, Occurs (.group head members) tree → TermsApart members ∧
      ∀ node span, Occurs node members → spanOf? node = some span →
        head.mark.start < span.start ∧ span.stop < head.mark.stop := by
  have hquery := derivesQuery_of_parse hparse
  have hwithin := hquery.within
  refine ⟨fun node span hnode hspan => ?_, hwithin.termsApart, fun head members hgroup => ?_⟩
  · obtain ⟨_, hstands⟩ := hquery.stands hnode hspan
    obtain ⟨slice, hcuts, hslice⟩ := hstands.exists_slice hspan
    have hdepth : Node.depthList [node.map (backBy span.start)] ≤ maxDepth := by
      have hdeep := hnode.depth_le.trans (depth_of_parse hparse)
      simpa [Node.depthList, depth_map] using hdeep
    exact ⟨slice, hcuts, hslice.parse_eq hdepth⟩
  · obtain ⟨hspan, hmembers⟩ := hwithin.of_occurs hgroup
    refine ⟨hmembers.termsApart, fun node span hnode hnodeSpan => ?_⟩
    obtain ⟨hlo, hlt, hhi⟩ := SpanWithin.of_nodeWithin (hmembers.of_occurs hnode) hnodeSpan
    have := hspan.lt
    omega

set_option maxRecDepth 10000 in
theorem spans_exact_accented_group :
    ∃ tree slice, parse "é -x:(a \"ß b\")" = .ok tree ∧
      Cuts "é -x:(a \"ß b\")" ⟨9, 15⟩ slice ∧
      parse slice = .ok [.literal ⟨none, none, ⟨0, 6⟩⟩ "\"ß b\""] := by
  have hparse : parse "é -x:(a \"ß b\")" = .ok [.literal ⟨none, none, ⟨0, 2⟩⟩ "é",
      .group ⟨some .minus, some "x", ⟨3, 16⟩⟩
        [.literal ⟨none, none, ⟨7, 8⟩⟩ "a", .literal ⟨none, none, ⟨9, 15⟩⟩ "\"ß b\""]] := by
    cbv
  obtain ⟨slice, hcuts, hslice⟩ := (spans_exact _ _ hparse).1
    (.literal ⟨none, none, ⟨9, 15⟩⟩ "\"ß b\"") ⟨9, 15⟩
    (.inside (.tail _ (.head _)) (.member (.tail _ (.head _)))) rfl
  exact ⟨_, slice, hparse, hcuts, hslice⟩

end ChantSearch.Proofs

import ChantSearch.Proofs.Rendering.RoundTrip

/-!
# Derivations in another place

A derivation depends on the characters that it reads and, beyond them, only on whether the text
goes on with something that would continue its last word. So it can be moved to wherever the
same characters stand and nothing continues them. All its byte ranges move alike.
-/

namespace ChantSearch.Proofs
open Query

variable {c d e c' : Cursor}

/-- A move of a part of one text into another text: the byte offsets where the part begins, and
what follows it, in both of them. -/
structure Relocation where
  oldStart : Nat
  newStart : Nat
  oldTail : List Char
  newTail : List Char

/-- The cursors stand at the same place of the part that is moved. -/
structure Relocation.Maps (m : Relocation) (c c' : Cursor) : Prop where
  rest : ∃ word, c.rest = word ++ m.oldTail ∧ c'.rest = word ++ m.newTail
  offset : ∃ n, c.offset = m.oldStart + n ∧ c'.offset = m.newStart + n

def Relocation.span (m : Relocation) (s : Span) : Span :=
  ⟨s.start - m.oldStart + m.newStart, s.stop - m.oldStart + m.newStart⟩

/-- The tail begins at the cursor or behind it. -/
def Ahead (tail : List Char) (c : Cursor) : Prop :=
  ∃ word, c.rest = word ++ tail

lemma Ahead.reads {tail word : List Char} (h : Ahead tail d) (hread : Reads c word d) :
    Ahead tail c := by
  obtain ⟨word', h⟩ := h
  exact ⟨word ++ word', by rw [hread.rest, h, List.append_assoc]⟩

lemma Ahead.derives {tail : List Char} {p : Phrase} (h : Ahead tail d) (hp : Derives c p d) :
    Ahead tail c := by
  obtain ⟨_, hread⟩ := hp.reaches
  exact h.reads hread

lemma Ahead.blanks {tail : List Char} (h : Ahead tail d) (hread : Blanks c d) : Ahead tail c := by
  obtain ⟨_, _, hread⟩ := hread
  exact h.reads hread

namespace Relocation

variable {m : Relocation}

lemma Maps.reads {word : List Char} (h : m.Maps c c') (hread : Reads c word d)
    (hd : Ahead m.oldTail d) : ∃ d', Reads c' word d' ∧ m.Maps d d' := by
  obtain ⟨⟨whole, hold, hnew⟩, n, hc, hc'⟩ := h
  obtain ⟨after, hd⟩ := hd
  have hboth : whole ++ m.oldTail = (word ++ after) ++ m.oldTail := by
    rw [← hold, hread.rest, hd, List.append_assoc]
  have hwhole : whole = word ++ after := List.append_cancel_right hboth
  have hrest : c'.rest = word ++ (after ++ m.newTail) := by rw [hnew, hwhole, List.append_assoc]
  refine ⟨_, reads_past hrest, ⟨after, hd, rfl⟩, n + byteLength word, ?_, ?_⟩
  · rw [hread.offset, hc, Nat.add_assoc]
  · rw [(reads_past hrest).offset, hc', Nat.add_assoc]

lemma Maps.stops {accept : Char → Bool} (h : m.Maps c c') (htail : Stops accept m.newTail)
    (hc : Stops accept c.rest) : Stops accept c'.rest := by
  obtain ⟨word, hold, hnew⟩ := h.rest
  rw [hold] at hc
  rw [hnew]
  cases word with
  | nil => exact htail
  | cons x word => exact stops_cons.mpr (stops_cons.mp hc)

lemma Maps.not_textContinues (h : m.Maps c c') (htail : ¬TextContinues m.newTail)
    (hc : ¬TextContinues c.rest) : ¬TextContinues c'.rest := by
  rw [not_textContinues_iff] at *
  exact ⟨h.stops htail.1 hc.1, h.stops htail.2 hc.2⟩

lemma Maps.not_wordContinues (h : m.Maps c c') (htail : ¬TextContinues m.newTail)
    (hc : ¬WordContinues c.rest) : ¬WordContinues c'.rest := by
  rw [not_wordContinues_iff] at *
  exact h.stops (not_textContinues_iff.mp htail).1 hc

lemma Maps.span_eq {d' : Cursor} (h : m.Maps c c') (h' : m.Maps d d') :
    m.span ⟨c.offset, d.offset⟩ = ⟨c'.offset, d'.offset⟩ := by
  obtain ⟨n, hc, hc'⟩ := h.offset
  obtain ⟨k, hd, hd'⟩ := h'.offset
  simp only [span, hc, hc', hd, hd', Span.mk.injEq]
  omega

lemma Maps.blanks (h : m.Maps c c') (hread : Blanks c d) (hd : Ahead m.oldTail d) :
    ∃ d', Blanks c' d' ∧ m.Maps d d' := by
  obtain ⟨word, hword, hread⟩ := hread
  obtain ⟨d', hread', hmaps⟩ := h.reads hread hd
  exact ⟨d', ⟨word, hword, hread'⟩, hmaps⟩

lemma Maps.operator {k : Connective} (h : m.Maps c c') (htail : ¬TextContinues m.newTail)
    (hk : Operator c k d) (hd : Ahead m.oldTail d) : ∃ d', Operator c' k d' ∧ m.Maps d d' := by
  obtain ⟨d', hread', hmaps⟩ := h.reads hk.reads hd
  refine ⟨d', ?_, hmaps⟩
  rcases hk with ⟨hk, _⟩ | ⟨hk, _, hend⟩
  · exact .inl ⟨hk, hread'⟩
  · exact .inr ⟨hk, hread', hmaps.not_wordContinues htail hend⟩

lemma Maps.separator {k? : Option Connective} (h : m.Maps c c')
    (htail : ¬TextContinues m.newTail) (hsep : Separator c k? d) (hd : Ahead m.oldTail d) :
    ∃ d', Separator c' k? d' ∧ m.Maps d d' := by
  cases hsep with
  | connective hbefore hk hafter =>
    have hback := hd.blanks hafter
    have hfront := hback.reads hk.reads
    obtain ⟨_, hbefore', hmaps⟩ := h.blanks hbefore hfront
    obtain ⟨_, hk', hmaps⟩ := hmaps.operator htail hk hback
    obtain ⟨d', hafter', hmaps⟩ := hmaps.blanks hafter hd
    exact ⟨d', .connective hbefore' hk' hafter', hmaps⟩
  | blanks hne hword hread =>
    obtain ⟨d', hread', hmaps⟩ := h.reads hread hd
    exact ⟨d', .blanks hne hword hread', hmaps⟩

end Relocation

def mapValue (f : Span → Span) : Value → Value
  | .literal text => .literal text
  | .group members => .group (Node.mapList f members)

def mapPhrase (f : Span → Span) : Phrase → Phrase
  | .value v => .value (mapValue f v)
  | .field name? v => .field name? (mapValue f v)
  | .term node => .term (node.map f)
  | .further nodes => .further (Node.mapList f nodes)
  | .termList nodes => .termList (Node.mapList f nodes)
  | .group members => .group (Node.mapList f members)

lemma firstWord_mapValue (f : Span → Span) (v : Value) :
    firstWord (mapValue f v) = firstWord v := by
  cases v <;> rfl

lemma map_toNode (f : Span → Span) (head : Head Span) (v : Value) :
    (v.toNode head).map f = (mapValue f v).toNode (head.map f) := by
  cases v <;> rfl

lemma mapList_further (f : Span → Span) (k? : Option Connective) (node : Node Span)
    (nodes : Tree) :
    Node.mapList f (k?.toList.map .connective ++ node :: nodes) =
      k?.toList.map .connective ++ node.map f :: Node.mapList f nodes := by
  cases k? <;> rfl

lemma Derives.wellFormedHead {sign? : Option Sign} {name? : Option String} {v : Value}
    (hkeyword : ¬∃ k g, Keyword c k g) (hsign : Signed c sign? d)
    (hfield : Derives d (.field name? v) e) (mark : Span) :
    WellFormedHead (Head.mk sign? name? mark) (firstWord v) := by
  obtain ⟨_, hname, hword⟩ := hfield.wellFormed
  refine ⟨hname, fun hunsigned => hword ?_⟩
  obtain rfl : sign? = none := hunsigned
  cases hsign with
  | unsigned => exact hkeyword

/-- A derivation can be moved to where the same characters stand, if nothing continues them
there. -/
theorem Derives.relocate {m : Relocation} (htail : ¬TextContinues m.newTail) {p : Phrase}
    (h : Derives c p d) (hc : m.Maps c c') (hd : Ahead m.oldTail d) :
    ∃ d', Derives c' (mapPhrase m.span p) d' ∧ m.Maps d d' := by
  induction h generalizing c' with
  | quotedText hword hread =>
    obtain ⟨d', hread', hmaps⟩ := hc.reads hread hd
    exact ⟨d', .quotedText hword hread', hmaps⟩
  | text hword hread hend =>
    obtain ⟨d', hread', hmaps⟩ := hc.reads hread hd
    exact ⟨d', .text hword hread' (hmaps.not_textContinues htail hend), hmaps⟩
  | groupedTermList _ ih =>
    obtain ⟨d', hgroup, hmaps⟩ := ih hc hd
    exact ⟨d', .groupedTermList hgroup, hmaps⟩
  | namedField hname hread hcolon hvalue ih =>
    have hfront := hd.derives hvalue
    obtain ⟨_, hread', hmaps⟩ := hc.reads hread (hfront.reads hcolon)
    obtain ⟨_, hcolon', hmaps⟩ := hmaps.reads hcolon hfront
    obtain ⟨d', hvalue', hmaps⟩ := ih hmaps hd
    exact ⟨d', .namedField hname hread' hcolon' hvalue', hmaps⟩
  | defaultField _ ih =>
    obtain ⟨d', hvalue', hmaps⟩ := ih hc hd
    exact ⟨d', .defaultField hvalue', hmaps⟩
  | @term c d e sign? name? v hkeyword hsign hfield ih =>
    let head : Head Span := ⟨sign?, name?, ⟨c.offset, e.offset⟩⟩
    have hhead : WellFormedHead (head.map m.span) (firstWord (mapValue m.span v)) := by
      rw [firstWord_mapValue]
      exact hfield.wellFormedHead hkeyword hsign _
    obtain ⟨_, hsign', hmaps⟩ := hc.reads ((signed_iff head).mp hsign) (hd.derives hfield)
    obtain ⟨e', hfield', hend⟩ := ih hmaps hd
    obtain ⟨_, _, hname', hvalue'⟩ := (derives_field_iff (head.map m.span)).mp hfield'
    have hterm := derives_term hhead hsign' hname' hvalue'
    refine ⟨e', ?_, hend⟩
    rw [mapPhrase, map_toNode, Head.map, hc.span_eq hend]
    exact hterm
  | lastTerm => exact ⟨c', .lastTerm c', hc⟩
  | furtherTerm hsep hterm hfurther ihterm ihfurther =>
    have hback := hd.derives hfurther
    obtain ⟨_, hsep', hmaps⟩ := hc.separator htail hsep (hback.derives hterm)
    obtain ⟨_, hterm', hmaps⟩ := ihterm hmaps hback
    obtain ⟨d', hfurther', hmaps⟩ := ihfurther hmaps hd
    refine ⟨d', ?_, hmaps⟩
    rw [mapPhrase, mapList_further]
    exact .furtherTerm hsep' hterm' hfurther'
  | termList hterm hfurther ihterm ihfurther =>
    obtain ⟨_, hterm', hmaps⟩ := ihterm hc (hd.derives hfurther)
    obtain ⟨d', hfurther', hmaps⟩ := ihfurther hmaps hd
    exact ⟨d', .termList hterm' hfurther', hmaps⟩
  | group hopen hbefore hlist hafter hclose ih =>
    have hback := hd.reads hclose
    have hend := hback.blanks hafter
    have hstart := hend.derives hlist
    obtain ⟨_, hopen', hmaps⟩ := hc.reads hopen (hstart.blanks hbefore)
    obtain ⟨_, hbefore', hmaps⟩ := hmaps.blanks hbefore hstart
    obtain ⟨_, hlist', hmaps⟩ := ih hmaps hend
    obtain ⟨_, hafter', hmaps⟩ := hmaps.blanks hafter hback
    obtain ⟨d', hclose', hmaps⟩ := hmaps.reads hclose hd
    exact ⟨d', .group hopen' hbefore' hlist' hafter' hclose', hmaps⟩

/-- A phrase can be moved in front of any text that does not continue it. -/
lemma Derives.relocate_whole {p : Phrase} (h : Derives c p d) {word rest : List Char}
    (hread : Reads c word d) (hc : c'.rest = word ++ rest) (hrest : ¬TextContinues rest) :
    ∃ d', Derives c' (mapPhrase (Relocation.span ⟨c.offset, c'.offset, d.rest, rest⟩) p) d' ∧
      d'.rest = rest := by
  let m : Relocation := ⟨c.offset, c'.offset, d.rest, rest⟩
  have hmaps : m.Maps c c' := ⟨⟨word, hread.rest, hc⟩, 0, rfl, rfl⟩
  obtain ⟨d', hmoved, ⟨after, hold, hnew⟩, _⟩ := h.relocate (m := m) hrest hmaps ⟨[], rfl⟩
  have hafter : after = [] := List.append_left_eq_self.mp hold.symm
  exact ⟨d', hmoved, by rw [hnew, hafter]; rfl⟩

/-- A list of terms that is moved keeps its shape. -/
lemma Derives.moved {nodes : Tree} (h : Derives c (.termList nodes) d) {word rest : List Char}
    (hread : Reads c word d) (hc : c'.rest = word ++ rest) (hrest : ¬TextContinues rest) :
    ∃ nodes' d', Derives c' (.termList nodes') d' ∧ d'.rest = rest ∧
      Node.shape nodes' = Node.shape nodes := by
  obtain ⟨d', hlist, hd⟩ := h.relocate_whole hread hc hrest
  exact ⟨_, d', hlist, hd, shape_mapList _ _⟩

end ChantSearch.Proofs

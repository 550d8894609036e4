import ChantSearch.Proofs.Grammar.Words

/-!
# Derivations

The grammar of queries as a plain context-free grammar over cursors: the alternatives of a
rule have no order, a repetition may stop anywhere, and of the lookaheads only the refusals
that the rules write down are kept. A derivation gives the same tree as the parser, with the
byte range of every term.
-/

namespace ChantSearch.Proofs
open Query

/-- The word stands between the cursors. -/
structure Reads (c : Cursor) (word : List Char) (d : Cursor) : Prop where
  rest : c.rest = word ++ d.rest
  offset : d.offset = c.offset + byteLength word

lemma byteLength_append (u v : List Char) : byteLength (u ++ v) = byteLength u + byteLength v := by
  induction u with
  | nil => simp [byteLength]
  | cons c u ih => rw [List.cons_append, byteLength, byteLength, ih, Nat.add_assoc]

lemma utf8ByteSize_ofList (cs : List Char) : (String.ofList cs).utf8ByteSize = byteLength cs := by
  induction cs with
  | nil => rfl
  | cons x cs ih =>
    have hsplit : String.ofList (x :: cs) = String.singleton x ++ String.ofList cs := by
      rw [← String.toList_inj]
      simp
    rw [hsplit, String.utf8ByteSize_append, ih, String.utf8ByteSize_singleton, byteLength]

lemma Reads.nil (c : Cursor) : Reads c [] c :=
  ⟨rfl, rfl⟩

lemma Reads.append {c d e : Cursor} {u v : List Char} (h : Reads c u d) (h' : Reads d v e) :
    Reads c (u ++ v) e := by
  refine ⟨?_, ?_⟩
  · rw [h.rest, h'.rest, List.append_assoc]
  · rw [h'.offset, h.offset, byteLength_append, Nat.add_assoc]

lemma Reads.eq_past {c d : Cursor} {word : List Char} (h : Reads c word d) :
    d = c.past word d.rest := by
  cases d
  simp only [Cursor.past, Cursor.mk.injEq, and_true]
  exact h.offset

lemma reads_past {c : Cursor} {word rest : List Char} (h : c.rest = word ++ rest) :
    Reads c word (c.past word rest) :=
  ⟨h, rfl⟩

lemma exists_reads {c : Cursor} {word rest : List Char} (h : c.rest = word ++ rest) :
    ∃ d, Reads c word d ∧ d.rest = rest :=
  ⟨_, reads_past h, rfl⟩

lemma Reads.split {c d : Cursor} {u v : List Char} (h : Reads c (u ++ v) d) :
    ∃ e, Reads c u e ∧ Reads e v d := by
  have hrest : c.rest = u ++ (v ++ d.rest) := by rw [h.rest, List.append_assoc]
  refine ⟨c.past u (v ++ d.rest), reads_past hrest, rfl, ?_⟩
  rw [h.offset, byteLength_append, ← Nat.add_assoc]
  rfl

lemma Reads.length {c d : Cursor} {word : List Char} (h : Reads c word d) :
    c.rest.length = word.length + d.rest.length := by
  rw [h.rest, List.length_append]

lemma Reads.unique {c d e : Cursor} {word : List Char} (h : Reads c word d)
    (h' : Reads c word e) : d = e := by
  have hrest : d.rest = e.rest := List.append_cancel_left (h.rest.symm.trans h'.rest)
  rw [h.eq_past, h'.eq_past, hrest]

lemma Reads.word_eq {c d : Cursor} {u v : List Char} (h : Reads c u d) (h' : Reads c v d) :
    u = v :=
  List.append_cancel_right (h.rest.symm.trans h'.rest)

lemma Reads.stops {c d : Cursor} {accept : Char → Bool} {x : Char} {word : List Char}
    (h : Reads c (x :: word) d) (hx : accept x = false) : Stops accept c.rest := by
  rw [h.rest]
  exact stops_cons.mpr hx

/-- What is read at the start of a text splits it in two. -/
lemma Reads.split_text {raw : String} {word : List Char} {d : Cursor}
    (h : Reads (.ofString raw) word d) :
    raw = String.ofList word ++ String.ofList d.rest ∧
      d.offset = (String.ofList word).utf8ByteSize := by
  constructor
  · rw [← String.toList_inj]
    simpa [Cursor.ofString] using h.rest
  · rw [h.offset, utf8ByteSize_ofList]
    exact Nat.zero_add _

/-- The second cursor stands at the first or further on in its text. -/
def Reaches (c d : Cursor) : Prop :=
  ∃ word, Reads c word d

lemma Reaches.refl (c : Cursor) : Reaches c c :=
  ⟨[], .nil c⟩

lemma Reads.reaches {c d : Cursor} {word : List Char} (h : Reads c word d) : Reaches c d :=
  ⟨word, h⟩

lemma Reaches.trans {c d e : Cursor} (h : Reaches c d) (h' : Reaches d e) : Reaches c e := by
  obtain ⟨_, h⟩ := h
  obtain ⟨_, h'⟩ := h'
  exact (h.append h').reaches

/-- Any number of blanks stands between the cursors. -/
def Blanks (c d : Cursor) : Prop :=
  ∃ word, (∀ x ∈ word, isBlank x = true) ∧ Reads c word d

lemma Reads.blanks {c d : Cursor} {word : List Char} (h : Reads c word d)
    (hword : word.all isBlank = true) : Blanks c d :=
  ⟨word, List.all_eq_true.mp hword, h⟩

lemma Blanks.reaches {c d : Cursor} (h : Blanks c d) : Reaches c d := by
  obtain ⟨_, _, hread⟩ := h
  exact hread.reaches

lemma Blanks.trans {c d e : Cursor} (h : Blanks c d) (h' : Blanks d e) : Blanks c e := by
  obtain ⟨u, hu, hcd⟩ := h
  obtain ⟨v, hv, hde⟩ := h'
  refine ⟨u ++ v, fun x hx => ?_, hcd.append hde⟩
  rcases List.mem_append.mp hx with hx | hx
  · exact hu x hx
  · exact hv x hx

def Keyword (c : Cursor) (k : Connective) (d : Cursor) : Prop :=
  (k = .and ∨ k = .or ∨ k = .not) ∧ Reads c k.toString.toList d ∧ ¬WordContinues d.rest

def Operator (c : Cursor) (k : Connective) (d : Cursor) : Prop :=
  (k = .ampersands ∨ k = .pipes) ∧ Reads c k.toString.toList d ∨ Keyword c k d

/-- What stands between two terms, and the connective it gives. -/
inductive Separator : Cursor → Option Connective → Cursor → Prop where
  | connective {c d e f : Cursor} {k : Connective} :
      Blanks c d → Operator d k e → Blanks e f → Separator c (some k) f
  | blanks {c d : Cursor} {word : List Char} : word ≠ [] →
      (∀ x ∈ word, isBlank x = true) → Reads c word d → Separator c none d

/-- A sign or nothing. -/
inductive Signed : Cursor → Option Sign → Cursor → Prop where
  | unsigned (c : Cursor) : Signed c none c
  | signed {c d : Cursor} {s : Sign} : Reads c s.toString.toList d → Signed c (some s) d

/-- What a rule for terms reads, as the part of the tree that it gives. The members of a
list behind the first term are a phrase of their own. -/
inductive Phrase where
  | value (v : Value)
  | field (name? : Option String) (v : Value)
  | term (node : Node Span)
  | further (nodes : Tree)
  | termList (nodes : Tree)
  | group (members : Tree)

/-- The phrase has a derivation that reaches from one cursor to the other. -/
inductive Derives : Cursor → Phrase → Cursor → Prop where
  | quotedText {c d : Cursor} {word : List Char} : QuotedText word → Reads c word d →
      Derives c (.value (.literal (String.ofList word))) d
  | text {c d : Cursor} {word : List Char} : PlainText word → Reads c word d →
      ¬TextContinues d.rest → Derives c (.value (.literal (String.ofList word))) d
  | groupedTermList {c d : Cursor} {members : Tree} : Derives c (.group members) d →
      Derives c (.value (.group members)) d
  | namedField {c d e f : Cursor} {name : List Char} {v : Value} : FieldName name →
      Reads c name d → Reads d [':'] e → Derives e (.value v) f →
      Derives c (.field (some (String.ofList name)) v) f
  | defaultField {c d : Cursor} {v : Value} : Derives c (.value v) d →
      Derives c (.field none v) d
  | term {c d e : Cursor} {sign? : Option Sign} {name? : Option String} {v : Value} :
      (¬∃ k e, Keyword c k e) → Signed c sign? d → Derives d (.field name? v) e →
      Derives c (.term (v.toNode ⟨sign?, name?, ⟨c.offset, e.offset⟩⟩)) e
  | lastTerm (c : Cursor) : Derives c (.further []) c
  | furtherTerm {c d e f : Cursor} {k? : Option Connective} {node : Node Span} {nodes : Tree} :
      Separator c k? d → Derives d (.term node) e → Derives e (.further nodes) f →
      Derives c (.further (k?.toList.map .connective ++ node :: nodes)) f
  | termList {c d e : Cursor} {node : Node Span} {nodes : Tree} : Derives c (.term node) d →
      Derives d (.further nodes) e → Derives c (.termList (node :: nodes)) e
  | group {c d e f g h : Cursor} {members : Tree} : Reads c ['('] d → Blanks d e →
      Derives e (.termList members) f → Blanks f g → Reads g [')'] h →
      Derives c (.group members) h

/-- The text as a whole has a derivation with the tree. -/
inductive DerivesQuery (raw : String) (tree : Tree) : Prop where
  | query {c d e : Cursor} : Blanks (.ofString raw) c → Derives c (.termList tree) d →
      Blanks d e → e.rest = [] → DerivesQuery raw tree

/-! ### What a derivation reads -/

lemma Operator.reads {c d : Cursor} {k : Connective} (h : Operator c k d) :
    Reads c k.toString.toList d := by
  rcases h with h | h
  · exact h.2
  · exact h.2.1

lemma Separator.reads {c d : Cursor} {k? : Option Connective} (h : Separator c k? d) :
    ∃ word, word ≠ [] ∧ Reads c word d := by
  cases h with
  | connective hu hk hv =>
    rename_i k
    obtain ⟨u, _, hu⟩ := hu
    obtain ⟨v, _, hv⟩ := hv
    exact ⟨u ++ k.toString.toList ++ v, by cases k <;> simp [Connective.toString],
      (hu.append hk.reads).append hv⟩
  | blanks hne _ hread => exact ⟨_, hne, hread⟩

lemma Signed.reaches {c d : Cursor} {sign? : Option Sign} (h : Signed c sign? d) :
    Reaches c d := by
  cases h with
  | unsigned => exact .refl c
  | signed h => exact h.reaches

def isTermEnd (x : Char) : Bool :=
  isWildedChar isTextChar x || x == '"' || x == ')'

def EndsWith (accept : Char → Bool) (cs : List Char) : Prop :=
  ∃ front x, cs = front ++ [x] ∧ accept x = true

lemma EndsWith.behind {accept : Char → Bool} {cs : List Char} (h : EndsWith accept cs)
    (before : List Char) : EndsWith accept (before ++ cs) := by
  obtain ⟨front, x, rfl, hx⟩ := h
  exact ⟨before ++ front, x, (List.append_assoc _ _ _).symm, hx⟩

/-- How the words of phrases end. Only the further terms of a list may be none. -/
def PhraseEnds (word : List Char) : Phrase → Prop
  | .further _ => word = [] ∨ EndsWith isTermEnd word
  | _ => EndsWith isTermEnd word

/-- A derivation reads a word, which ends as its phrase does. -/
lemma Derives.phraseEnds {c d : Cursor} {p : Phrase} (h : Derives c p d) :
    ∃ word, Reads c word d ∧ PhraseEnds word p := by
  induction h with
  | quotedText hword hread =>
    obtain ⟨_⟩ := hword
    exact ⟨_, hread, _, '"', rfl, rfl⟩
  | text hword hread _ =>
    obtain ⟨front, x, hends, hx⟩ := hword.ends
    exact ⟨_, hread, front, x, hends, by simp [isTermEnd, hx]⟩
  | groupedTermList _ ih => exact ih
  | namedField _ hname hcolon _ ih =>
    obtain ⟨word, hread, hends⟩ := ih
    exact ⟨_, (hname.append hcolon).append hread, hends.behind _⟩
  | defaultField _ ih => exact ih
  | term _ hsign _ ih =>
    obtain ⟨front, hsign⟩ := hsign.reaches
    obtain ⟨word, hread, hends⟩ := ih
    exact ⟨_, hsign.append hread, hends.behind _⟩
  | lastTerm c => exact ⟨[], .nil c, .inl rfl⟩
  | furtherTerm hsep _ _ ihterm ihfurther =>
    obtain ⟨front, _, hsep⟩ := hsep.reads
    obtain ⟨word, hread, hends⟩ := ihterm
    obtain ⟨more, hmore, hlast⟩ := ihfurther
    refine ⟨_, (hsep.append hread).append hmore, .inr ?_⟩
    rcases hlast with rfl | hlast
    · simpa using hends.behind front
    · exact hlast.behind _
  | termList _ _ ihterm ihfurther =>
    obtain ⟨word, hread, hends⟩ := ihterm
    obtain ⟨more, hmore, hlast⟩ := ihfurther
    refine ⟨_, hread.append hmore, ?_⟩
    rcases hlast with rfl | hlast
    · rw [List.append_nil]
      exact hends
    · exact hlast.behind _
  | group hopen hbefore _ hafter hclose ih =>
    obtain ⟨u, _, hbefore⟩ := hbefore
    obtain ⟨word, hread, _⟩ := ih
    obtain ⟨v, _, hafter⟩ := hafter
    exact ⟨_, (((hopen.append hbefore).append hread).append hafter).append hclose,
      _, ')', rfl, rfl⟩

lemma Derives.reaches {c d : Cursor} {p : Phrase} (h : Derives c p d) : Reaches c d := by
  obtain ⟨_, hread, _⟩ := h.phraseEnds
  exact hread.reaches

/-- The text of a query in three parts: its list of terms, and the blanks around that. -/
lemma DerivesQuery.parts {raw : String} {tree : Tree} (h : DerivesQuery raw tree) :
    ∃ before word after c d, (∀ x ∈ before, isBlank x = true) ∧ (∀ x ∈ after, isBlank x = true) ∧
      raw.toList = before ++ (word ++ after) ∧ Derives c (.termList tree) d ∧ Reads c word d ∧
        d.rest = after := by
  obtain ⟨⟨before, hbefore, hread⟩, hlist, ⟨after, hafter, hread'⟩, hend⟩ := h
  obtain ⟨word, hword⟩ := hlist.reaches
  have hlast := hread'.rest
  rw [hend, List.append_nil] at hlast
  refine ⟨before, word, after, _, _, hbefore, hafter, ?_, hlist, hword, hlast⟩
  rw [← hlast, ← hword.rest]
  exact hread.rest

lemma Reads.length_le {c d : Cursor} {word : List Char} (h : Reads c word d) :
    d.rest.length ≤ c.rest.length := by
  have := h.length
  omega

lemma Reaches.length_le {c d : Cursor} (h : Reaches c d) : d.rest.length ≤ c.rest.length := by
  obtain ⟨_, h⟩ := h
  exact h.length_le

def isValueStart (x : Char) : Bool :=
  isWildedChar isTextChar x || x == '"' || x == '('

def isTermStart (x : Char) : Bool :=
  isValueStart x || x == '!' || x == '+' || x == '-'

lemma isTextChar_of_isNameChar {x : Char} (h : isNameChar x = true) : isTextChar x = true := by
  simp only [isNameChar, Bool.or_eq_true] at h
  rcases h with h | h
  · simp [isTextChar, Char.isAlphanum, h]
  · simp [isTextChar, h]

def BeginsWith (accept : Char → Bool) (cs : List Char) : Prop :=
  ∃ x tail, cs = x :: tail ∧ accept x = true

lemma BeginsWith.mono {accept larger : Char → Bool} {cs : List Char} (h : BeginsWith accept cs)
    (himp : ∀ x, accept x = true → larger x = true) : BeginsWith larger cs := by
  obtain ⟨x, tail, hcs, hx⟩ := h
  exact ⟨x, tail, hcs, himp x hx⟩

lemma BeginsWith.stops {accept other : Char → Bool} {cs : List Char} (h : BeginsWith accept cs)
    (hapart : ∀ x, other x = true → accept x = false) : Stops other cs := by
  obtain ⟨x, tail, rfl, hx⟩ := h
  rw [stops_cons]
  by_contra ho
  rw [hapart x (by simpa using ho)] at hx
  exact absurd hx (by decide)

/-- How the phrases begin that are not empty. -/
def PhraseBegins (c : Cursor) : Phrase → Prop
  | .value _ | .field _ _ | .group _ => BeginsWith isValueStart c.rest
  | .term _ | .termList _ => BeginsWith isTermStart c.rest
  | .further _ => True

lemma Derives.phraseBegins {c d : Cursor} {p : Phrase} (h : Derives c p d) : PhraseBegins c p := by
  have hlarger : ∀ x, isValueStart x = true → isTermStart x = true := by
    intro x hx
    simp [isTermStart, hx]
  induction h with
  | quotedText hword hread =>
    obtain ⟨hbody⟩ := hword
    exact ⟨'"', _, hread.rest, rfl⟩
  | text hword hread _ =>
    obtain ⟨x, tail, rfl, hx⟩ := hword.begins
    exact ⟨x, _, hread.rest, by simp [isValueStart, hx]⟩
  | groupedTermList _ ih => exact ih
  | namedField hname hread _ _ _ =>
    obtain ⟨x, tail, rfl⟩ := List.exists_cons_of_ne_nil hname.1
    have hx := isTextChar_of_isNameChar (hname.2 x (by simp))
    exact ⟨x, _, hread.rest, by simp [isValueStart, isWildedChar, hx]⟩
  | defaultField _ ih => exact ih
  | term _ hsign _ ih =>
    cases hsign with
    | unsigned => exact BeginsWith.mono ih hlarger
    | signed hread =>
      rename_i s
      cases s <;> exact ⟨_, _, hread.rest, rfl⟩
  | lastTerm c => trivial
  | furtherTerm => trivial
  | termList _ _ ih _ => exact ih
  | group hopen _ _ _ _ _ => exact ⟨'(', _, hopen.rest, rfl⟩

end ChantSearch.Proofs

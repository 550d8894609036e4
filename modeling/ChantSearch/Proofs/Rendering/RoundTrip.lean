import ChantSearch.Proofs.Grammar.Acceptance
import ChantSearch.Proofs.Rendering.WellFormed

/-!
# Round trip through the text of the components

The text of a well-formed list of terms has a derivation wherever it stands, with a tree of
the same shape. Blanks stand wherever the grammar asks for them, and nowhere else where it
would not have them.
-/

namespace ChantSearch.Proofs
open Query

variable {μ : Type} {c d e f : Cursor}

lemma Derives.further_append {ns ms : Tree} {k? : Option Connective}
    (h : Derives c (.further ns) d) (hsep : Separator d k? e)
    (hlist : Derives e (.termList ms) f) :
    Derives c (.further (ns ++ (k?.toList.map .connective ++ ms))) f := by
  -- The induction needs the phrase to be a variable.
  generalize hp : Phrase.further ns = p at h
  induction h generalizing ns with
  | lastTerm =>
    obtain rfl := Phrase.further.inj hp
    cases hlist with
    | termList hterm hfurther => exact .furtherTerm hsep hterm hfurther
  | furtherTerm hsep' hterm hfurther _ ih =>
    obtain rfl := Phrase.further.inj hp
    simpa using Derives.furtherTerm hsep' hterm (ih hsep rfl)
  | quotedText | text | groupedTermList | namedField | defaultField | term | termList | group =>
    exact absurd hp (by simp)

lemma Derives.joined {ns ms : Tree} {k? : Option Connective} (h : Derives c (.termList ns) d)
    (hsep : Separator d k? e) (hlist : Derives e (.termList ms) f) :
    Derives c (.termList (ns ++ (k?.toList.map .connective ++ ms))) f := by
  cases h with
  | termList hterm hfurther => exact .termList hterm (hfurther.further_append hsep hlist)

lemma derives_literal {text : String} {rest : List Char} (h : LiteralText text)
    (hc : c.rest = text.toList ++ rest) (hrest : ¬TextContinues rest) :
    Derives c (.value (.literal text)) (c.past text.toList rest) := by
  have hread := reads_past hc
  rw [← String.ofList_toList (s := text)] at *
  rcases h with h | h
  · exact .text (by simpa using h) (by simpa using hread) hrest
  · exact .quotedText (by simpa using h) (by simpa using hread)

lemma not_textContinues_nil : ¬TextContinues [] :=
  not_textContinues_iff.mpr ⟨stops_nil _, stops_nil _⟩

lemma not_textContinues_blank (rest : List Char) : ¬TextContinues (' ' :: rest) :=
  not_textContinues_iff.mpr ⟨stops_cons.mpr (by decide), stops_cons.mpr (by decide)⟩

lemma not_textContinues_parenthesis (rest : List Char) : ¬TextContinues (')' :: rest) :=
  not_textContinues_iff.mpr ⟨stops_cons.mpr (by decide), stops_cons.mpr (by decide)⟩

lemma signed_iff (head : Head μ) : Signed c head.sign? d ↔ Reads c (signChars head) d := by
  obtain ⟨sign?, field?, mark⟩ := head
  constructor
  · intro h
    cases h with
    | unsigned => exact .nil _
    | signed hread => exact hread
  · intro hread
    cases sign? with
    | none =>
      obtain rfl := hread.unique (.nil c)
      exact .unsigned _
    | some s => exact .signed hread

lemma derives_field_iff (head : Head μ) {v : Value} :
    Derives c (.field head.field? v) e ↔ (∀ name ∈ head.field?, FieldName name.toList) ∧
      ∃ d, Reads c (fieldChars head) d ∧ Derives d (.value v) e := by
  obtain ⟨sign?, field?, mark⟩ := head
  constructor
  · intro h
    cases h with
    | namedField hname hread hcolon hvalue =>
      refine ⟨?_, _, by simpa [fieldChars] using hread.append hcolon, hvalue⟩
      simpa using hname
    | defaultField hvalue => exact ⟨by simp, c, .nil c, hvalue⟩
  · rintro ⟨hname, d, hfield, hvalue⟩
    cases field? with
    | none =>
      obtain rfl := hfield.unique (.nil c)
      exact .defaultField hvalue
    | some name =>
      obtain ⟨g, hread, hcolon⟩ := hfield.split
      simpa using Derives.namedField (hname name rfl) hread hcolon hvalue

lemma WellFormedHead.no_keyword {head : Head μ} {v : Value}
    (hhead : WellFormedHead head (firstWord v)) (hsign : Reads c (signChars head) d)
    (hfield : Reads d (fieldChars head) e) (hvalue : Derives e (.value v) f) :
    ¬∃ k g, Keyword c k g := by
  obtain ⟨sign?, field?, mark⟩ := head
  cases sign? with
  | some s => cases s <;> exact Reads.no_keyword hsign (by decide)
  | none =>
    obtain rfl := hsign.unique (.nil c)
    have hword := hhead.noKeyword rfl
    cases field? with
    | some name =>
      rintro ⟨k, g, hk⟩
      have hname := hhead.name name rfl
      have htext : PlainText name.toList :=
        ⟨hname.1, .plain fun y hy => isTextChar_of_isNameChar (hname.2 y hy)⟩
      have hrest : d.rest = name.toList ++ ':' :: e.rest := by simpa [fieldChars] using hfield.rest
      have hend : ¬WordContinues (':' :: e.rest) :=
        not_wordContinues_iff.mpr (stops_cons.mpr (by decide))
      have hsame := hk.eq_word htext hrest hend
      exact hword ⟨k, hk.1, String.toList_inj.mp hsame⟩
    | none =>
      obtain rfl := hfield.unique (.nil d)
      cases hvalue with
      | quotedText hquoted hread =>
        obtain ⟨_⟩ := hquoted
        exact hread.no_keyword (by decide)
      | text hplain hread hend =>
        rintro ⟨k, g, hk⟩
        have hsame := hk.eq_word hplain hread.rest fun hcontinues => hend (.inl hcontinues)
        exact hword ⟨k, hk.1, String.toList_inj.mp (by simpa [firstWord] using hsame)⟩
      | groupedTermList hgroup =>
        cases hgroup with
        | group hopen => exact hopen.no_keyword (by decide)

lemma derives_term {head : Head μ} {v : Value} (hhead : WellFormedHead head (firstWord v))
    (hsign : Reads c (signChars head) d) (hfield : Reads d (fieldChars head) e)
    (hvalue : Derives e (.value v) f) :
    Derives c (.term (v.toNode ⟨head.sign?, head.field?, ⟨c.offset, f.offset⟩⟩)) f :=
  .term (hhead.no_keyword hsign hfield hvalue) ((signed_iff head).mpr hsign)
    ((derives_field_iff head).mpr ⟨hhead.name, e, hfield, hvalue⟩)

lemma WellFormed.gluesAfter {ts : List (Node μ)} (h : WellFormed ts) (glued : Bool) :
    gluesAfter glued (flatten ts) = false := by
  induction h generalizing glued with
  | @literal head text _ htext =>
    obtain ⟨sign?, field?, mark⟩ := head
    have hempty : text.isEmpty = false := by simpa [String.isEmpty_iff] using htext.ne_empty
    cases field? <;>
      simp [flatten, Node.components, gluesAfter_append, Head.literalComponent, Proofs.gluesAfter,
        Component.glues, hempty]
  | group =>
    simp [flatten, Node.components, gluesAfter_append, Proofs.gluesAfter, Component.glues]
  | joined k? _ _ _ ihus =>
    rw [flatten_append, flatten_append, gluesAfter_append, gluesAfter_append, ihus]

lemma literalBlank_blank (head : Head μ) : (literalBlank head).all isBlank = true := by
  rw [literalBlank]
  split <;> decide

lemma groupBlank_blank (head : Head μ) : (groupBlank head).all isBlank = true := by
  rw [groupBlank]
  split <;> decide

def betweenChars (k? : Option Connective) : List Char :=
  k?.elim [] fun k => ' ' :: (k.toString.toList ++ [' '])

lemma textFrom_joined {ts us : List (Node μ)} (k? : Option Connective) (hts : WellFormed ts) :
    textFrom false (flatten (ts ++ (k?.toList.map .connective ++ us))) =
      textFrom false (flatten ts) ++ (betweenChars k? ++ textFrom false (flatten us)) := by
  rw [flatten_append, textFrom_append, hts.gluesAfter]
  cases k? <;>
    simp [flatten, Node.components, betweenChars, Component.piece, Component.glues,
      Marker.toString]

lemma Reads.operator {k : Connective} (h : Reads c k.toString.toList d)
    (hend : ¬WordContinues d.rest) : Operator c k d := by
  cases k with
  | and | or | not => exact .inr ⟨by simp, h, hend⟩
  | ampersands | pipes => exact .inl ⟨by simp, h⟩

/-- Between two lists of terms the text has a separator, with the blank that ends the first
list and those that begin the second. -/
lemma separator_between {k? : Option Connective} {rest : List Char}
    (hc : c.rest = ' ' :: (betweenChars k? ++ rest)) (hd : d.rest = rest)
    (hoffset : d.offset = c.offset + byteLength (' ' :: betweenChars k?)) (h : Blanks d e) :
    Separator c k? e := by
  have hread : Reads c (' ' :: betweenChars k?) d := ⟨by rw [hc, hd]; rfl, hoffset⟩
  cases k? with
  | none =>
    obtain ⟨word, hword, hread'⟩ := h
    refine .blanks (by simp) (fun x hx => ?_) (hread.append hread')
    rcases List.mem_append.mp hx with hx | hx
    · obtain rfl := List.mem_singleton.mp hx
      decide
    · exact hword x hx
  | some k =>
    have hparts : ' ' :: betweenChars (some k) = [' ', ' '] ++ (k.toString.toList ++ [' ']) := rfl
    rw [hparts] at hread
    obtain ⟨f, hbefore, hread⟩ := hread.split
    obtain ⟨g, hword, hafter⟩ := hread.split
    have hend : ¬WordContinues g.rest := by
      rw [hafter.rest, not_wordContinues_iff]
      exact stops_cons.mpr (by decide)
    exact .connective (hbefore.blanks (by decide)) (hword.operator hend)
      (.trans (hafter.blanks (by decide)) h)

/-- The text of a well-formed list of terms has a derivation with a list of the same shape,
whatever stands behind it. -/
theorem WellFormed.derives_text {ts : List (Node μ)} (h : WellFormed ts) {rest : List Char}
    (hc : c.rest = textFrom false (flatten ts) ++ rest) :
    ∃ nodes d e, Blanks c d ∧ Derives d (.termList nodes) e ∧ e.rest = ' ' :: rest ∧
      Node.shape nodes = Node.shape ts := by
  induction h generalizing c rest with
  | @literal head text hhead htext =>
    have hnode : flatten [Node.literal head text] = (Node.literal head text).components ++ [] := rfl
    rw [hnode, textFrom_literal htext.ne_empty] at hc
    have hchars : c.rest = (literalBlank head ++ (signChars head ++ fieldChars head)) ++
        (text.toList ++ ' ' :: rest) := by simpa using hc
    obtain ⟨f, hread, hvalue⟩ := exists_reads hchars
    obtain ⟨d, hblank, hread⟩ := hread.split
    obtain ⟨e, hsign, hfield⟩ := hread.split
    have hend := not_textContinues_blank rest
    have hterm := derives_term hhead hsign hfield (derives_literal htext hvalue hend)
    exact ⟨_, d, _, hblank.blanks (literalBlank_blank head), .termList hterm (.lastTerm _), rfl, rfl⟩
  | @group head members hhead hmembers ih =>
    have hnode : flatten [Node.group head members] = (Node.group head members).components ++ [] := rfl
    rw [hnode, textFrom_group head members [] (hmembers.gluesAfter false)] at hc
    have hchars : c.rest = (groupBlank head ++ (signChars head ++ (fieldChars head ++ (['('] ++ [' '])))) ++
        (textFrom false (flatten members) ++ ' ' :: ')' :: ' ' :: rest) := by simpa using hc
    obtain ⟨g, hread, hinner⟩ := exists_reads hchars
    obtain ⟨d, hblank, hread⟩ := hread.split
    obtain ⟨e, hsign, hread⟩ := hread.split
    obtain ⟨f, hfield, hread⟩ := hread.split
    obtain ⟨_, hopen, hspace⟩ := hread.split
    obtain ⟨nodes, i, j, hbefore, hnodes, hend, hshape⟩ := ih hinner
    have hafter : Reads j ([' ', ' '] ++ [')']) (j.past _ (' ' :: rest)) := reads_past hend
    obtain ⟨_, hafter, hclose⟩ := hafter.split
    have hgroup : Derives f (.group nodes) _ :=
      .group hopen (.trans (hspace.blanks (by decide)) hbefore) hnodes (hafter.blanks (by decide))
        hclose
    have hterm := derives_term (v := .group nodes) hhead hsign hfield (.groupedTermList hgroup)
    refine ⟨_, d, _, hblank.blanks (groupBlank_blank head), .termList hterm (.lastTerm _), rfl, ?_⟩
    simp only [Value.toNode, Node.shape, Node.mapList, Node.map, Head.map] at hshape ⊢
    rw [hshape]
  | @joined ts us k? hts hus ihts ihus =>
    rw [textFrom_joined k? hts] at hc
    have hfirst : c.rest = textFrom false (flatten ts) ++
        (betweenChars k? ++ (textFrom false (flatten us) ++ rest)) := by simpa using hc
    obtain ⟨ns, d, e, hbefore, hns, hend, hshape⟩ := ihts hfirst
    have hsecond : (e.past (' ' :: betweenChars k?) (textFrom false (flatten us) ++ rest)).rest =
        textFrom false (flatten us) ++ rest := rfl
    obtain ⟨ms, f, g, hbetween, hms, hend', hshape'⟩ := ihus hsecond
    -- The blank that ends the first list belongs to the separator.
    have hsep : Separator e k? f := separator_between hend rfl rfl hbetween
    refine ⟨_, d, g, hbefore, hns.joined hsep hms, hend', ?_⟩
    rw [shape_append, shape_append, shape_append, shape_append, hshape, hshape']
    cases k? <;> rfl

/-- The text of a well-formed query whose groups nest no deeper than the limit is parsed to a
query of the same shape. -/
theorem WellFormed.parse_render {ts : List (Node μ)} (h : WellFormed ts)
    (hdepth : Node.depthList ts ≤ maxDepth) :
    ∃ tree, parse (render (flatten ts)) = .ok tree ∧ Node.shape tree = Node.shape ts := by
  have hstart : (Cursor.ofString (render (flatten ts))).rest = textFrom false (flatten ts) ++ [] := by
    rw [List.append_nil, ← toList_render]
    rfl
  obtain ⟨tree, d, e, hbefore, htree, hend, hshape⟩ := h.derives_text hstart
  have hafter : Reads e [' '] (e.past [' '] []) := reads_past hend
  have hquery : DerivesQuery (render (flatten ts)) tree :=
    .query hbefore htree (hafter.blanks (by decide)) rfl
  refine ⟨tree, hquery.parse_eq ?_, hshape⟩
  rw [depthList_eq_of_shape hshape]
  exact hdepth

lemma wellFormed_of_parse {raw : String} {tree : Tree} (h : parse raw = .ok tree) :
    WellFormed tree := by
  obtain ⟨_, hlist, _, _⟩ := derivesQuery_of_parse h
  exact hlist.wellFormed

/-- The text of the components of a parsed query is parsed to a query of the same shape, with
the same components and the same text. -/
theorem render_flatten_parses (raw : String) (tree : Tree) (h : parse raw = .ok tree) :
    ∃ again, parse (render (flatten tree)) = .ok again ∧ Node.shape again = Node.shape tree ∧
      flatten again = flatten tree ∧ render (flatten again) = render (flatten tree) := by
  obtain ⟨again, hparse, hshape⟩ := (wellFormed_of_parse h).parse_render (depth_of_parse h)
  have hflatten := flatten_eq_of_shape hshape
  exact ⟨again, hparse, hshape, hflatten, congrArg render hflatten⟩

set_option maxRecDepth 10000 in
theorem render_flatten_parses_signed_group :
    ∃ tree again, parse "-x:(a AND \"\") b" = .ok tree ∧
      render (flatten tree) = " -x:( a  AND \"\"  ) b " ∧
      parse " -x:( a  AND \"\"  ) b " = .ok again ∧ Node.shape again = Node.shape tree := by
  have hparse : parse "-x:(a AND \"\") b" = .ok
      [.group ⟨some .minus, some "x", ⟨0, 13⟩⟩
        [.literal ⟨none, none, ⟨4, 5⟩⟩ "a", .connective .and,
          .literal ⟨none, none, ⟨10, 12⟩⟩ "\"\""],
        .literal ⟨none, none, ⟨14, 15⟩⟩ "b"] := by
    cbv
  obtain ⟨again, hagain, hshape, _⟩ := render_flatten_parses _ _ hparse
  have htext : render (flatten [Node.group ⟨some .minus, some "x", (⟨0, 13⟩ : Span)⟩
      [.literal ⟨none, none, ⟨4, 5⟩⟩ "a", .connective .and,
        .literal ⟨none, none, ⟨10, 12⟩⟩ "\"\""],
      .literal ⟨none, none, ⟨14, 15⟩⟩ "b"]) = " -x:( a  AND \"\"  ) b " := by
    cbv
  rw [htext] at hagain
  exact ⟨_, again, hparse, htext, hagain, hshape⟩

end ChantSearch.Proofs

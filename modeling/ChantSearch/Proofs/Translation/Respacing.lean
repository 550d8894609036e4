import ChantSearch.Proofs.Rendering.Relocation
import ChantSearch.Translation

/-!
# Blanks

Texts that differ only in the length and the kind of their runs of blanks outside quotes, and in
the blanks around them, are queries of the same shape or none of them is a query. What such a query
is translated to, and what is looked up for it, does not depend on its blanks.
-/

namespace ChantSearch.Proofs
open Query

variable {c d e c' : Cursor} {n : Nat} {x : Char} {word cs cs' ds : List Char}

def AllBlank (word : List Char) : Prop :=
  ∀ x ∈ word, isBlank x = true

/-- Behind `n` double quotes the texts are the same, except that runs of blanks with an even number
of quotes before them may be any other runs of blanks, and at the end may be missing. -/
inductive Respaced : Nat → List Char → List Char → Prop where
  | nil (n : Nat) : Respaced n [] []
  | ends {n : Nat} {u v : List Char} : Even n → AllBlank u → AllBlank v → Respaced n u v
  | run {n : Nat} {u v cs cs' : List Char} : Even n → AllBlank u → AllBlank v → u ≠ [] → v ≠ [] →
      Respaced n cs cs' → Respaced n (u ++ cs) (v ++ cs')
  | kept {n : Nat} {x : Char} {cs cs' : List Char} : (Even n → isBlank x = false) →
      Respaced (n + if x = '"' then 1 else 0) cs cs' → Respaced n (x :: cs) (x :: cs')

/-- The texts are the same but for the runs of blanks outside quotes, and for those around them. -/
def SameButBlanks (raw raw' : String) : Prop :=
  ∃ u v cs cs', AllBlank u ∧ AllBlank v ∧ raw.toList = u ++ cs ∧ raw'.toList = v ++ cs' ∧
    Respaced 0 cs cs'

lemma Respaced.symm (h : Respaced n cs cs') : Respaced n cs' cs := by
  induction h with
  | nil n => exact .nil n
  | ends hn hu hv => exact .ends hn hv hu
  | run hn hu hv hune hvne _ ih => exact .run hn hv hu hvne hune ih
  | kept hx _ ih => exact .kept hx ih

lemma SameButBlanks.symm {raw raw' : String} (h : SameButBlanks raw raw') :
    SameButBlanks raw' raw := by
  obtain ⟨u, v, cs, cs', hu, hv, hraw, hraw', hsame⟩ := h
  exact ⟨v, u, cs', cs, hv, hu, hraw', hraw, hsame.symm⟩

/-- Blanks in front of a text go with those that the text begins with. -/
lemma blanks_prefix {u before rest : List Char} (h : u ++ cs = before ++ rest) (hu : AllBlank u)
    (hrest : Stops isBlank rest) : ∃ word, before = u ++ word ∧ cs = word ++ rest := by
  rcases List.append_eq_append_iff.mp h with ⟨word, hbefore, hcs⟩ | ⟨word, rfl, rfl⟩
  · exact ⟨word, hbefore, hcs⟩
  · cases word with
    | nil => exact ⟨[], by simp, rfl⟩
    | cons y word =>
      rw [List.cons_append, stops_cons, hu y (by simp)] at hrest
      exact absurd hrest (by decide)

lemma Respaced.of_cons (h : Respaced n (x :: cs) ds) (hx : Even n → isBlank x = false) :
    ∃ cs', ds = x :: cs' ∧ Respaced (n + if x = '"' then 1 else 0) cs cs' := by
  generalize hwhole : x :: cs = whole at h
  cases h with
  | nil => exact absurd hwhole (by simp)
  | ends hn hu _ =>
    have hblank := hu x (by simp [← hwhole])
    rw [hx hn] at hblank
    exact absurd hblank (by decide)
  | run hn hu _ hune _ _ =>
    obtain ⟨y, u, rfl⟩ := List.exists_cons_of_ne_nil hune
    obtain ⟨rfl, _⟩ := List.cons.inj hwhole
    have hblank := hu x (by simp)
    rw [hx hn] at hblank
    exact absurd hblank (by decide)
  | kept _ hcs =>
    obtain ⟨rfl, rfl⟩ := List.cons.inj hwhole
    exact ⟨_, rfl, hcs⟩

lemma Respaced.of_word (h : Respaced n (word ++ cs) ds)
    (hword : ∀ x ∈ word, x ≠ '"' ∧ (Even n → isBlank x = false)) :
    ∃ cs', ds = word ++ cs' ∧ Respaced n cs cs' := by
  induction word generalizing ds with
  | nil => exact ⟨ds, rfl, h⟩
  | cons x word ih =>
    obtain ⟨hquote, hblank⟩ := hword x (by simp)
    obtain ⟨ds, rfl, hrest⟩ := Respaced.of_cons h hblank
    rw [if_neg hquote, Nat.add_zero] at hrest
    obtain ⟨cs', rfl, hsame⟩ := ih hrest fun y hy => hword y (by simp [hy])
    exact ⟨cs', rfl, hsame⟩

lemma Respaced.of_blanks {u : List Char} (h : Respaced n (u ++ cs) ds) (hn : Even n)
    (hu : AllBlank u) (hcs : Stops isBlank cs) :
    ∃ v cs', ds = v ++ cs' ∧ AllBlank v ∧ (u ≠ [] → cs ≠ [] → v ≠ []) ∧ Respaced n cs cs' := by
  generalize hwhole : u ++ cs = whole at h
  induction h generalizing u with
  | nil n =>
    obtain ⟨rfl, rfl⟩ := List.append_eq_nil_iff.mp hwhole
    exact ⟨[], [], rfl, by simp [AllBlank], by simp, .nil n⟩
  | @ends n w v _ hw hv =>
    have hnil : cs = [] := by
      cases cs with
      | nil => rfl
      | cons y cs =>
        rw [stops_cons, hw y (by simp [← hwhole])] at hcs
        exact absurd hcs (by decide)
    exact ⟨v, [], by simp, hv, fun _ hne => absurd hnil hne, hnil ▸ .nil n⟩
  | @run _ _ v _ _ _ hw hv _ hvne _ ih =>
    obtain ⟨word, rfl, hrest⟩ := blanks_prefix hwhole.symm hw hcs
    obtain ⟨v', cs', rfl, hv', _, hsame⟩ := ih hn (fun y hy => hu y (by simp [hy])) hrest.symm
    refine ⟨v ++ v', cs', by simp, fun y hy => ?_, fun _ _ => by simp [hvne], hsame⟩
    rcases List.mem_append.mp hy with hy | hy
    · exact hv y hy
    · exact hv' y hy
  | @kept _ y _ _ hy hsame _ =>
    cases u with
    | nil =>
      obtain rfl : cs = _ := hwhole
      exact ⟨[], _, rfl, by simp [AllBlank], by simp, .kept hy hsame⟩
    | cons z u =>
      obtain ⟨rfl, _⟩ := List.cons.inj hwhole
      have hblank := hu z (by simp)
      rw [hy hn] at hblank
      exact absurd hblank (by decide)

lemma Respaced.of_nil (h : Respaced n [] ds) : AllBlank ds := by
  generalize hwhole : [] = whole at h
  cases h with
  | nil => simp [AllBlank]
  | ends _ _ hv => exact hv
  | run _ _ _ hune _ _ => exact absurd hwhole.symm (by simp [hune])
  | kept => exact absurd hwhole (by simp)

lemma Respaced.stops {accept : Char → Bool} (h : Respaced n cs cs')
    (haccept : ∀ x, isBlank x = true → accept x = false) (hcs : Stops accept cs) :
    Stops accept cs' := by
  cases h with
  | nil => exact hcs
  | ends _ _ hv => simpa using stops_append (fun x hx => haccept x (hv x hx)) (stops_nil accept)
  | run _ _ hv _ hvne _ =>
    obtain ⟨y, v, rfl⟩ := List.exists_cons_of_ne_nil hvne
    exact stops_cons.mpr (haccept y (hv y (by simp)))
  | kept => exact stops_cons.mpr (stops_cons.mp hcs)

lemma solid_of_apart (accept : Char → Bool)
    (hapart : [' ', '\t', '\r', '\n', '"'].any accept = false) (hx : accept x = true) :
    (x != '"' && !isBlank x) = true := by
  have hmem : x ∉ [' ', '\t', '\r', '\n', '"'] := fun hmem =>
    List.any_eq_false.mp hapart x hmem hx
  simp only [List.mem_cons, List.not_mem_nil, or_false, not_or] at hmem
  simp [isBlank, hmem]

/-- The cursors stand outside quotes, in front of texts that differ in their blanks only. -/
def Matches (c c' : Cursor) : Prop :=
  ∃ n, Even n ∧ Respaced n c.rest c'.rest

namespace Matches

lemma symm (h : Matches c c') : Matches c' c := by
  obtain ⟨n, hn, hsame⟩ := h
  exact ⟨n, hn, hsame.symm⟩

lemma stops {accept : Char → Bool} (h : Matches c c')
    (haccept : [' ', '\t', '\r', '\n'].any accept = false) (hc : Stops accept c.rest) :
    Stops accept c'.rest := by
  obtain ⟨n, _, hsame⟩ := h
  exact hsame.stops (fun _ => isBlank_apart accept haccept) hc

lemma not_wordContinues (h : Matches c c') (hc : ¬WordContinues c.rest) :
    ¬WordContinues c'.rest := by
  rw [not_wordContinues_iff] at *
  exact h.stops (by decide) hc

lemma not_textContinues (h : Matches c c') (hc : ¬TextContinues c.rest) :
    ¬TextContinues c'.rest := by
  rw [not_textContinues_iff] at *
  exact ⟨h.stops (by decide) hc.1, h.stops (by decide) hc.2⟩

lemma of_rest {d' : Cursor} (hn : Even n) (hd : d'.rest = cs') (hsame : Respaced n d.rest cs') :
    Matches d d' :=
  ⟨n, hn, hd ▸ hsame⟩

/-- Words without blanks and quotes stand in both texts. -/
lemma reads (h : Matches c c') (hread : Reads c word d)
    (hword : word.all (fun x => x != '"' && !isBlank x) = true) :
    ∃ d', Reads c' word d' ∧ Matches d d' := by
  obtain ⟨n, hn, hsame⟩ := h
  have hplain : ∀ x ∈ word, x ≠ '"' ∧ (Even n → isBlank x = false) := by
    intro x hx
    have hchar := List.all_eq_true.mp hword x hx
    simp only [Bool.and_eq_true, bne_iff_ne, ne_eq, Bool.not_eq_true'] at hchar
    exact ⟨hchar.1, fun _ => hchar.2⟩
  rw [hread.rest] at hsame
  obtain ⟨cs', hc', hsame⟩ := hsame.of_word hplain
  obtain ⟨d', hread', hd'⟩ := exists_reads hc'
  exact ⟨d', hread', of_rest hn hd' hsame⟩

/-- Between its quotes a quoted text keeps its blanks. -/
lemma quotedText (h : Matches c c') (hword : QuotedText word) (hread : Reads c word d) :
    ∃ d', Reads c' word d' ∧ Matches d d' := by
  obtain ⟨n, hn, hsame⟩ := h
  obtain ⟨body, rfl, hbody⟩ := hword.uncounted
  have hodd : ¬Even (n + 1) := by
    rw [Nat.even_add_one, not_not]
    exact hn
  have heven : Even (n + 1 + 1) := Nat.even_add_one.mpr hodd
  have hquote : Even n → isBlank '"' = false := fun _ => by decide
  have hc : c.rest = '"' :: (body ++ '"' :: d.rest) := by simp [hread.rest]
  rw [hc] at hsame
  obtain ⟨_, hopen, hinside⟩ := hsame.of_cons hquote
  rw [if_pos rfl] at hinside
  obtain ⟨_, hmiddle, hclose⟩ := hinside.of_word fun x hx =>
    ⟨(isUncounted_iff.mp (hbody x hx)).1, fun heven => absurd heven hodd⟩
  obtain ⟨cs', hlast, hbehind⟩ := hclose.of_cons fun heven => absurd heven hodd
  rw [if_pos rfl] at hbehind
  have hrest : c'.rest = ('"' :: body ++ ['"']) ++ cs' := by simp [hopen, hmiddle, hlast]
  obtain ⟨d', hread', hd'⟩ := exists_reads hrest
  exact ⟨d', hread', of_rest heven hd' hbehind⟩

/-- A run of blanks is one in both texts, and is not lost where more text follows. -/
lemma blanks (h : Matches c c') (hread : Reads c word d) (hword : AllBlank word)
    (hd : Stops isBlank d.rest) :
    ∃ word' d', AllBlank word' ∧ (word ≠ [] → d.rest ≠ [] → word' ≠ []) ∧ Reads c' word' d' ∧
      Matches d d' := by
  obtain ⟨n, hn, hsame⟩ := h
  rw [hread.rest] at hsame
  obtain ⟨word', cs', hc', hword', hne, hsame⟩ := hsame.of_blanks hn hword hd
  obtain ⟨d', hread', hd'⟩ := exists_reads hc'
  exact ⟨word', d', hword', hne, hread', of_rest hn hd' hsame⟩

lemma keyword {k : Connective} (h : Matches c c') (hk : Keyword c k d) :
    ∃ d', Keyword c' k d' ∧ Matches d d' := by
  obtain ⟨hkind, hread, hend⟩ := hk
  obtain ⟨d', hread', hd⟩ := h.reads hread (by rcases hkind with rfl | rfl | rfl <;> decide)
  exact ⟨d', ⟨hkind, hread', hd.not_wordContinues hend⟩, hd⟩

lemma operator {k : Connective} (h : Matches c c') (hk : Operator c k d) :
    ∃ d', Operator c' k d' ∧ Matches d d' := by
  rcases hk with ⟨hkind, hread⟩ | hk
  · obtain ⟨d', hread', hd⟩ := h.reads hread (by rcases hkind with rfl | rfl <;> decide)
    exact ⟨d', .inl ⟨hkind, hread'⟩, hd⟩
  · obtain ⟨d', hk', hd⟩ := h.keyword hk
    exact ⟨d', .inr hk', hd⟩

lemma no_keyword (h : Matches c c') (hk : ¬∃ k e, Keyword c k e) : ¬∃ k e, Keyword c' k e := by
  rintro ⟨k, e, hkeyword⟩
  obtain ⟨d, hkeyword', _⟩ := h.symm.keyword hkeyword
  exact hk ⟨k, d, hkeyword'⟩

lemma signed {sign? : Option Sign} (h : Matches c c') (hsign : Signed c sign? d) :
    ∃ d', Signed c' sign? d' ∧ Matches d d' := by
  cases hsign with
  | unsigned => exact ⟨c', .unsigned c', h⟩
  | @signed _ s hread =>
    obtain ⟨d', hread', hd⟩ := h.reads hread (by cases s <;> decide)
    exact ⟨d', .signed hread', hd⟩

lemma separator {k? : Option Connective} {node : Node Span} (h : Matches c c')
    (hsep : Separator c k? d) (hterm : Derives d (.term node) e) :
    ∃ d', Separator c' k? d' ∧ Matches d d' := by
  have hstop := hterm.term_stops_blank
  cases hsep with
  | connective hbefore hk hafter =>
    obtain ⟨u, hu, hbefore⟩ := hbefore
    obtain ⟨v, hv, hafter⟩ := hafter
    have hstart := (operator_begins hk).stops fun _ => isBlank_apart _ (by decide)
    obtain ⟨u', _, hu', _, hbefore', h⟩ := h.blanks hbefore hu hstart
    obtain ⟨_, hk', h⟩ := h.operator hk
    obtain ⟨v', d', hv', _, hafter', h⟩ := h.blanks hafter hv hstop
    exact ⟨d', .connective ⟨u', hu', hbefore'⟩ hk' ⟨v', hv', hafter'⟩, h⟩
  | blanks hne hword hread =>
    obtain ⟨word', d', hword', hne', hread', h⟩ := h.blanks hread hword hstop
    obtain ⟨y, tail, hbegins, _⟩ : BeginsWith isTermStart d.rest := hterm.phraseBegins
    exact ⟨d', .blanks (hne' hne (by simp [hbegins])) hword' hread', h⟩

end Matches

/-! ### Derivations in both texts -/

/-- All byte ranges made one, so that only what the spans are put on can differ. -/
def unmark (_ : Span) : Span :=
  ⟨0, 0⟩

/-- From the cursor a phrase with the same shape has a derivation, up to where the other ends. -/
def Rederived (c' : Cursor) (p : Phrase) (d : Cursor) : Prop :=
  ∃ d', Matches d d' ∧ match p with
    | .value v => ∃ v', Derives c' (.value v') d' ∧ mapValue unmark v' = mapValue unmark v
    | .field name? v =>
      ∃ v', Derives c' (.field name? v') d' ∧ mapValue unmark v' = mapValue unmark v
    | .term node => ∃ node', Derives c' (.term node') d' ∧ node'.map unmark = node.map unmark
    | .further nodes => ∃ nodes', Derives c' (.further nodes') d' ∧
      Node.mapList unmark nodes' = Node.mapList unmark nodes
    | .termList nodes => ∃ nodes', Derives c' (.termList nodes') d' ∧
      Node.mapList unmark nodes' = Node.mapList unmark nodes
    | .group members => ∃ members', Derives c' (.group members') d' ∧
      Node.mapList unmark members' = Node.mapList unmark members

theorem Derives.respaced {p : Phrase} (h : Derives c p d) (hc : Matches c c') :
    Rederived c' p d := by
  induction h generalizing c' with
  | quotedText hword hread =>
    obtain ⟨d', hread', hd⟩ := hc.quotedText hword hread
    exact ⟨d', hd, _, .quotedText hword hread', rfl⟩
  | text hword hread hend =>
    obtain ⟨d', hread', hd⟩ := hc.reads hread (List.all_eq_true.mpr fun x hx =>
      solid_of_apart (isWildedChar isTextChar) (by decide) (hword.2.all x hx))
    exact ⟨d', hd, _, .text hword hread' (hd.not_textContinues hend), rfl⟩
  | groupedTermList _ ih =>
    obtain ⟨d', hd, members', hgroup, hsame⟩ := ih hc
    exact ⟨d', hd, _, .groupedTermList hgroup, congrArg Value.group hsame⟩
  | namedField hname hread hcolon _ ih =>
    obtain ⟨_, hread', hc⟩ := hc.reads hread (List.all_eq_true.mpr fun x hx =>
      solid_of_apart isNameChar (by decide) (hname.2 x hx))
    obtain ⟨_, hcolon', hc⟩ := hc.reads hcolon (by decide)
    obtain ⟨d', hd, v', hvalue, hsame⟩ := ih hc
    exact ⟨d', hd, v', .namedField hname hread' hcolon' hvalue, hsame⟩
  | defaultField _ ih =>
    obtain ⟨d', hd, v', hvalue, hsame⟩ := ih hc
    exact ⟨d', hd, v', .defaultField hvalue, hsame⟩
  | term hkeyword hsign _ ih =>
    obtain ⟨_, hsign', hfield⟩ := hc.signed hsign
    obtain ⟨d', hd, v', hfield', hsame⟩ := ih hfield
    refine ⟨d', hd, _, .term (hc.no_keyword hkeyword) hsign' hfield', ?_⟩
    rw [map_toNode, map_toNode, hsame]
    rfl
  | lastTerm c => exact ⟨c', hc, [], .lastTerm c', rfl⟩
  | furtherTerm hsep hterm _ ihterm ihfurther =>
    obtain ⟨_, hsep', hc⟩ := hc.separator hsep hterm
    obtain ⟨_, hc, node', hterm', hnode⟩ := ihterm hc
    obtain ⟨d', hd, nodes', hfurther', hnodes⟩ := ihfurther hc
    refine ⟨d', hd, _, .furtherTerm hsep' hterm' hfurther', ?_⟩
    rw [mapList_further, mapList_further, hnode, hnodes]
  | termList _ _ ihterm ihfurther =>
    obtain ⟨_, hc, node', hterm', hnode⟩ := ihterm hc
    obtain ⟨d', hd, nodes', hfurther', hnodes⟩ := ihfurther hc
    refine ⟨d', hd, _, .termList hterm' hfurther', ?_⟩
    rw [Node.mapList, Node.mapList, hnode, hnodes]
  | group hopen hbefore hlist hafter hclose ih =>
    obtain ⟨u, hu, hbefore⟩ := hbefore
    obtain ⟨v, hv, hafter⟩ := hafter
    obtain ⟨_, hopen', hc⟩ := hc.reads hopen (by decide)
    obtain ⟨u', _, hu', _, hbefore', hc⟩ := hc.blanks hbefore hu hlist.termList_stops_blank
    obtain ⟨_, hc, members', hlist', hsame⟩ := ih hc
    obtain ⟨v', _, hv', _, hafter', hc⟩ := hc.blanks hafter hv (hclose.stops (by decide))
    obtain ⟨d', hclose', hd⟩ := hc.reads hclose (by decide)
    exact ⟨d', hd, members', .group hopen' ⟨u', hu', hbefore'⟩ hlist' ⟨v', hv', hafter'⟩ hclose',
      hsame⟩

variable {raw raw' : String} {tree : Tree}

lemma DerivesQuery.respaced (h : DerivesQuery raw tree) (hsame : SameButBlanks raw raw') :
    ∃ tree', DerivesQuery raw' tree' ∧ Node.shape tree' = Node.shape tree := by
  obtain ⟨⟨before, hbefore, hread⟩, hlist, ⟨after, hafter, hread'⟩, hend⟩ := h
  obtain ⟨u, v, cs, cs', hu, hv, hraw, hraw', hsame⟩ := hsame
  have hstart := hlist.termList_stops_blank
  have hboth : u ++ cs = before ++ _ := hraw.symm.trans hread.rest
  obtain ⟨word, rfl, rfl⟩ := blanks_prefix hboth hu hstart
  have hword : AllBlank word := fun x hx => hbefore x (by simp [hx])
  obtain ⟨word', ds, rfl, hword', _, hsame⟩ := hsame.of_blanks (by decide) hword hstart
  have hfront : (Cursor.ofString raw').rest = (v ++ word') ++ ds := by
    simp [Cursor.ofString, hraw']
  obtain ⟨c', hc', hrest⟩ := exists_reads hfront
  obtain ⟨d', hd, tree', hlist', htree⟩ := hlist.respaced (.of_rest (by decide) hrest hsame)
  obtain ⟨after', e', hafter', _, he', ⟨n, hn, hlast⟩⟩ :=
    hd.blanks hread' hafter (by rw [hend]; exact stops_nil _)
  rw [hend] at hlast
  have hnothing : Reads e' e'.rest (e'.past e'.rest []) := reads_past (by simp)
  refine ⟨tree', .query ⟨_, ?_, hc'⟩ hlist' (.trans ⟨after', hafter', he'⟩
    ⟨_, hlast.of_nil, hnothing⟩) rfl, ?_⟩
  · intro x hx
    rcases List.mem_append.mp hx with hx | hx
    · exact hv x hx
    · exact hword' x hx
  · rw [← shape_mapList unmark tree', htree, shape_mapList]

lemma SameButBlanks.parse_ok (hsame : SameButBlanks raw raw') (h : parse raw = .ok tree) :
    ∃ tree', parse raw' = .ok tree' ∧ Node.shape tree = Node.shape tree' := by
  obtain ⟨tree', htree', hshape⟩ := (derivesQuery_of_parse h).respaced hsame
  refine ⟨tree', htree'.parse_eq ?_, hshape.symm⟩
  rw [depthList_eq_of_shape hshape]
  exact depth_of_parse h

lemma translate_congr {tree' : Tree} (h : parse raw = .ok tree) (h' : parse raw' = .ok tree')
    (hshape : Node.shape tree = Node.shape tree') (schema : Schema) (service : Index.Service)
    (resourceType : String) :
    translate schema service resourceType raw = translate schema service resourceType raw' := by
  have hflatten := flatten_eq_of_shape hshape
  simp only [translate, knownComponents, h, h', hflatten]

/-- Of two texts that are the same but for their blanks both are accepted, with trees of the same
shape, or both are rejected. If they are accepted, what they are translated to, what is looked up
for it and what it fails with are the same for every schema and index. -/
theorem blanks_irrelevant (raw raw' : String) (h : SameButBlanks raw raw') :
    (∃ tree tree', parse raw = .ok tree ∧ parse raw' = .ok tree' ∧
      Node.shape tree = Node.shape tree' ∧ ∀ schema service resourceType,
        translate schema service resourceType raw = translate schema service resourceType raw') ∨
    ∃ e e', parse raw = .error e ∧ parse raw' = .error e' ∧ ∀ schema service resourceType,
      translate schema service resourceType raw = ⟨[], .error (.illFormed e)⟩ ∧
      translate schema service resourceType raw' = ⟨[], .error (.illFormed e')⟩ := by
  cases hraw : parse raw with
  | ok tree =>
    obtain ⟨tree', hraw', hshape⟩ := h.parse_ok hraw
    exact .inl ⟨tree, tree', rfl, hraw', hshape, translate_congr hraw hraw' hshape⟩
  | error e =>
    cases hraw' : parse raw' with
    | ok tree' =>
      obtain ⟨tree, hok, _⟩ := h.symm.parse_ok hraw'
      exact absurd (hraw.symm.trans hok) (by simp)
    | error e' =>
      refine .inr ⟨e, e', rfl, rfl, fun schema service resourceType => ?_⟩
      simp only [translate, knownComponents, hraw, hraw', and_self]

theorem blanks_irrelevant_quoted :
    SameButBlanks "a\t OR \"b c\"" " a OR\r\n\"b c\" " ∧
      ∀ schema service resourceType,
        translate schema service resourceType "a\t OR \"b c\"" =
          translate schema service resourceType " a OR\r\n\"b c\" " := by
  have hsame : SameButBlanks "a\t OR \"b c\"" " a OR\r\n\"b c\" " := by
    have hquoted : Respaced 0 ['"', 'b', ' ', 'c', '"'] ['"', 'b', ' ', 'c', '"', ' '] := by
      refine .kept (by decide) (.kept (by decide) (.kept (by decide) (.kept (by decide)
        (.kept (by decide) (.ends (by decide) ?_ ?_)))))
      · simp [AllBlank]
      · simp [AllBlank, isBlank]
    have hword : Respaced 0 ['O', 'R', ' ', '"', 'b', ' ', 'c', '"']
        ['O', 'R', '\r', '\n', '"', 'b', ' ', 'c', '"', ' '] :=
      .kept (by decide) (.kept (by decide) (.run (u := [' ']) (v := ['\r', '\n']) (by decide)
        (by simp [AllBlank, isBlank]) (by simp [AllBlank, isBlank]) (by simp) (by simp) hquoted))
    exact ⟨[], [' '], 'a' :: '\t' :: ' ' :: _, 'a' :: ' ' :: _, by simp [AllBlank],
      by simp [AllBlank, isBlank], rfl, rfl, .kept (by decide) (.run (u := ['\t', ' ']) (v := [' '])
        (by decide) (by simp [AllBlank, isBlank]) (by simp [AllBlank, isBlank]) (by simp) (by simp)
        hword)⟩
  have hparse : parse "a\t OR \"b c\"" = .ok [.literal ⟨none, none, ⟨0, 1⟩⟩ "a", .connective .or,
      .literal ⟨none, none, ⟨6, 11⟩⟩ "\"b c\""] := by
    cbv
  refine ⟨hsame, ?_⟩
  rcases blanks_irrelevant _ _ hsame with ⟨_, _, _, _, _, htranslate⟩ | ⟨e, _, herror, _⟩
  · exact htranslate
  · rw [hparse] at herror
    exact absurd herror (by simp)

end ChantSearch.Proofs

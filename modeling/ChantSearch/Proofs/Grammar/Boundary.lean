import ChantSearch.Proofs.Grammar.Derivation

/-!
# Where phrases meet

A list of terms ends in front of blanks and a closing parenthesis, or of blanks and the end of
the text. Nothing that continues the list can stand there, and no separator can be read in two
ways in front of a term. This is why ordered choice and greedy repetition lose no derivation.
-/

namespace ChantSearch.Proofs
open Query

variable {c d e f : Cursor}

/-- Blanks and then a closing parenthesis or the end of the text. -/
def ListEnds (c : Cursor) : Prop :=
  ∃ d, Blanks c d ∧ Stops (· != ')') d.rest

lemma isBlank_apart (accept : Char → Bool)
    (hblanks : [' ', '\t', '\r', '\n'].any accept = false) {x : Char}
    (h : isBlank x = true) : accept x = false := by
  have hmem : x ∈ [' ', '\t', '\r', '\n'] := by simpa [isBlank, or_assoc] using h
  simpa using List.any_eq_false.mp hblanks x hmem

lemma Blanks.unique (h : Blanks c d) (hd : Stops isBlank d.rest) (h' : Blanks c e)
    (he : Stops isBlank e.rest) : d = e := by
  obtain ⟨u, hu, hcd⟩ := h
  obtain ⟨v, hv, hce⟩ := h'
  have hword : u = v := by
    rw [← (span_run hu hd).1, ← (span_run hv he).1, ← hcd.rest, ← hce.rest]
  subst hword
  exact hcd.unique hce

def isOperatorStart (x : Char) : Bool :=
  x == 'A' || x == 'O' || x == 'N' || x == '&' || x == '|'

lemma operator_begins {k : Connective} (h : Operator c k d) :
    BeginsWith isOperatorStart c.rest := by
  cases k <;> exact ⟨_, _, h.reads.rest, rfl⟩

lemma Reads.no_keyword {x : Char} {word : List Char} (h : Reads c (x :: word) d)
    (hx : isOperatorStart x = false) : ¬∃ k e, Keyword c k e := by
  rintro ⟨k, e, hk⟩
  obtain ⟨y, tail, hrest, hy⟩ := operator_begins (.inr hk)
  rw [h.rest] at hrest
  obtain ⟨rfl, _⟩ := List.cons.inj hrest
  rw [hx] at hy
  exact absurd hy (by decide)

/-- No connective stands where a term begins. -/
lemma Derives.no_operator {node : Node Span} (h : Derives c (.term node) d) :
    ¬∃ k e, Operator c k e := by
  rintro ⟨k, e, hk⟩
  cases h with
  | term hkeyword hsign hfield =>
    rcases hk with ⟨hk, hread⟩ | hk
    · have hbegins : BeginsWith isTermStart c.rest :=
        (Derives.term hkeyword hsign hfield).phraseBegins
      have hstop : Stops (fun x => x == '&' || x == '|') c.rest := hbegins.stops fun x hx => by
        simp only [Bool.or_eq_true, beq_iff_eq] at hx
        rcases hx with rfl | rfl <;> decide
      rcases hk with rfl | rfl
      · rw [hread.rest] at hstop
        exact absurd (stops_cons.mp hstop) (by decide)
      · rw [hread.rest] at hstop
        exact absurd (stops_cons.mp hstop) (by decide)
    · exact hkeyword ⟨k, e, hk⟩

lemma Derives.term_stops_blank {node : Node Span} (h : Derives c (.term node) d) :
    Stops isBlank c.rest :=
  BeginsWith.stops h.phraseBegins fun _ => isBlank_apart _ (by decide)

lemma Derives.termList_stops_blank {nodes : Tree} (h : Derives c (.termList nodes) d) :
    Stops isBlank c.rest :=
  BeginsWith.stops h.phraseBegins fun _ => isBlank_apart _ (by decide)

lemma BeginsWith.not_closing {accept : Char → Bool} {cs : List Char} (h : BeginsWith accept cs)
    (haccept : accept ')' = false) : ¬Stops (· != ')') cs := by
  intro hend
  obtain ⟨x, tail, rfl, hx⟩ := h
  have hclose : x = ')' := by simpa using stops_cons.mp hend
  rw [hclose, haccept] at hx
  exact absurd hx (by decide)

lemma ListEnds.no_further (h : ListEnds c) {k? : Option Connective} {node : Node Span}
    (hsep : Separator c k? d) (hterm : Derives d (.term node) e) : False := by
  obtain ⟨g, hblanks, hend⟩ := h
  have hg : Stops isBlank g.rest := hend.mono fun x hx => by
    have hclose := isBlank_apart (· == ')') (by decide) hx
    simpa [bne] using hclose
  cases hsep with
  | connective hbefore hk hafter =>
    have hbegins := operator_begins hk
    -- The blanks before the connective are those before the end, where it cannot begin.
    have hsame := hbefore.unique (hbegins.stops fun _ => isBlank_apart _ (by decide)) hblanks hg
    rw [← hsame] at hend
    exact hbegins.not_closing (by decide) hend
  | blanks _ hword hread =>
    have hsame := Blanks.unique ⟨_, hword, hread⟩ hterm.term_stops_blank hblanks hg
    rw [← hsame] at hend
    exact BeginsWith.not_closing hterm.phraseBegins (by decide) hend

lemma Blanks.stops_colon (h : Blanks c d) (hd : Stops (· == ':') d.rest) :
    Stops (· == ':') c.rest := by
  obtain ⟨word, hword, hread⟩ := h
  rw [hread.rest]
  exact stops_append (fun x hx => isBlank_apart (· == ':') (by decide) (hword x hx)) hd

lemma ListEnds.stops_colon (h : ListEnds c) : Stops (· == ':') c.rest := by
  obtain ⟨d, hblanks, hend⟩ := h
  refine hblanks.stops_colon (hend.mono fun x hx => ?_)
  have hcolon : x = ':' := by simpa using hx
  rw [hcolon]
  decide

lemma Separator.stops_colon {k? : Option Connective} (h : Separator c k? d) :
    Stops (· == ':') c.rest := by
  cases h with
  | connective hbefore hk _ =>
    refine hbefore.stops_colon ((operator_begins hk).stops fun x hx => ?_)
    have hcolon : x = ':' := by simpa using hx
    rw [hcolon]
    decide
  | blanks hne hword hread =>
    obtain ⟨x, tail, rfl⟩ := List.exists_cons_of_ne_nil hne
    rw [hread.rest, List.cons_append, stops_cons]
    exact isBlank_apart (· == ':') (by decide) (hword x (by simp))

lemma Derives.further_stops_colon {nodes : Tree} (h : Derives c (.further nodes) d)
    (hend : ListEnds d) : Stops (· == ':') c.rest := by
  cases h with
  | lastTerm => exact hend.stops_colon
  | furtherTerm hsep _ _ => exact hsep.stops_colon

end ChantSearch.Proofs

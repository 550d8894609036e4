import ChantSearch.Proofs.Grammar.Operators
import ChantSearch.Query.Parse

/-!
# Where attempts are made

The position of a diagnosis is the furthest start of all attempts that are reported: of rules that
failed where they were sought, and of rules that succeeded where they were refused. A rule is only
tried where the evaluation has come to, so the position is the start of the text or lies between
two of its characters.
-/

namespace ChantSearch.Proofs
open Query Query.Parser

variable {α β : Type} {c d : Cursor} {m n : Nat} {polarity : Polarity}

mutual

/-- The furthest start of the reported attempts, or zero if there are none. -/
def furthest (polarity : Polarity) : Attempt → Nat
  | .rule _ start inner succeeded =>
    max (furthestIn polarity inner) (if polarity.reports succeeded then start else 0)
  | .absence inner => furthestIn polarity.flip inner

def furthestIn (polarity : Polarity) : List Attempt → Nat
  | [] => 0
  | attempt :: attempts => max (furthest polarity attempt) (furthestIn polarity attempts)

end

lemma furthestIn_append (ts us : List Attempt) :
    furthestIn polarity (ts ++ us) = max (furthestIn polarity ts) (furthestIn polarity us) := by
  induction ts with
  | nil => simp [furthestIn]
  | cons t ts ih => simp [furthestIn, ih, max_assoc]

lemma position_rewind (d before : Diagnosis) (offset : Nat) :
    (d.rewind before offset).position = d.position := by
  unfold Diagnosis.rewind
  split
  · split <;> rfl
  · rfl

lemma position_advance (d : Diagnosis) (offset : Nat) :
    (d.advance offset).position = max d.position offset := by
  unfold Diagnosis.advance
  split
  · next hfurther => exact (max_eq_right (Nat.le_of_lt hfurther)).symm
  · next hnear => exact (max_eq_left (Nat.not_lt.mp hnear)).symm

lemma position_add (d : Diagnosis) (rule : Rule) (offset : Nat) :
    (d.add polarity rule offset).position = d.position := by
  unfold Diagnosis.add
  split
  · cases polarity <;> rfl
  · rfl

/-- Whichever rule stands for what was noted inside it, a note moves the position to its offset
and never back. -/
lemma position_note (d before : Diagnosis) (rule : Rule) (offset : Nat) :
    (d.note before polarity rule offset).position = max d.position offset := by
  unfold Diagnosis.note
  split
  · next hone =>
    -- Something is noted at the offset already, so it is the position.
    have hhere : offset = d.position := by
      by_contra hne
      simp [Diagnosis.count, hne] at hone
    omega
  · rw [position_add, position_advance, position_rewind]

mutual

lemma position_observe (polarity : Polarity) (d : Diagnosis) : ∀ attempt : Attempt,
    (d.observe polarity attempt).position = max d.position (furthest polarity attempt)
  | .rule rule start inner succeeded => by
    have hinner := position_observeAll polarity d inner
    rw [Diagnosis.observe, furthest]
    split
    · next hreports => simp only [position_note, hinner, max_assoc]
    · next hreports => simpa using hinner
  | .absence inner => by
    rw [Diagnosis.observe, furthest]
    exact position_observeAll polarity.flip d inner

lemma position_observeAll (polarity : Polarity) (d : Diagnosis) : ∀ attempts : List Attempt,
    (d.observeAll polarity attempts).position = max d.position (furthestIn polarity attempts)
  | [] => by simp [Diagnosis.observeAll, furthestIn]
  | attempt :: attempts => by
    rw [Diagnosis.observeAll, position_observeAll polarity _ attempts,
      position_observe polarity d attempt, furthestIn, max_assoc]

end

/-- The position of a diagnosis is the furthest start of a reported attempt. -/
lemma position_ofTrace (trace : List Attempt) :
    (Diagnosis.ofTrace trace).position = furthestIn .sought trace := by
  rw [Diagnosis.ofTrace, position_observeAll]
  exact Nat.zero_max _

/-- The offset is that of a cursor at the first one or further on in its text, or is zero. -/
def OnTheWay (c : Cursor) (n : Nat) : Prop :=
  n = 0 ∨ ∃ d, Reaches c d ∧ d.offset = n

lemma OnTheWay.max (h : OnTheWay c m) (h' : OnTheWay c n) : OnTheWay c (max m n) := by
  rcases max_choice m n with hmax | hmax
  · rw [hmax]; exact h
  · rw [hmax]; exact h'

lemma OnTheWay.from_reached (h : OnTheWay d n) (hd : Reaches c d) : OnTheWay c n := by
  rcases h with rfl | ⟨e, he, rfl⟩
  · exact .inl rfl
  · exact .inr ⟨e, hd.trans he, rfl⟩

/-- A parser that moves forward in the text, and tries rules only where it has come to. -/
structure Anchored (p : Parser α) : Prop where
  tries : ∀ polarity c, OnTheWay c (furthestIn polarity (p c).trace)
  moves : ∀ c a d, (p c).result = some (a, d) → Reaches c d

section Combinators

variable {p q : Parser α}

lemma anchored_of_trace_nil (htrace : ∀ c, (p c).trace = [])
    (hmoves : ∀ c a d, (p c).result = some (a, d) → Reaches c d) : Anchored p where
  tries polarity c := .inl (by simp [htrace c, furthestIn])
  moves := hmoves

lemma anchored_pure (a : α) : Anchored (pure a) := by
  refine anchored_of_trace_nil (fun _ => rfl) fun c b d h => ?_
  rw [result_pure] at h
  obtain ⟨_, rfl⟩ := Prod.mk.inj (Option.some.inj h)
  exact .refl c

lemma Anchored.bind {f : α → Parser β} (hp : Anchored p) (hf : ∀ a, Anchored (f a)) :
    Anchored (p >>= f) where
  tries polarity c := by
    have hfirst := hp.tries polarity c
    cases h : (p c).result with
    | none => rwa [bind_of_none h]
    | some found =>
      obtain ⟨a, d⟩ := found
      rw [bind_of_some h, furthestIn_append]
      exact hfirst.max (((hf a).tries polarity d).from_reached (hp.moves c a d h))
  moves c b e h := by
    obtain ⟨a, d, hfirst, hsecond⟩ := bind_eq_some_iff.mp h
    exact (hp.moves c a d hfirst).trans ((hf a).moves d b e hsecond)

lemma Anchored.orElse (hp : Anchored p) (hq : Anchored q) : Anchored (orElse p q) where
  tries polarity c := by
    have hfirst := hp.tries polarity c
    cases h : (p c).result with
    | none =>
      rw [orElse_of_none h, furthestIn_append]
      exact hfirst.max (hq.tries polarity c)
    | some found =>
      rw [orElse_of_some h]
      exact hfirst
  moves c a d h := by
    rcases orElse_cases h with h | h
    · exact hp.moves c a d h
    · exact hq.moves c a d h

lemma Anchored.rule (r : Rule) (hp : Anchored p) : Anchored (rule r p) where
  tries polarity c := by
    have hinner := hp.tries polarity c
    have hstart : OnTheWay c c.offset := .inr ⟨c, .refl c, rfl⟩
    simp only [Parser.rule, furthestIn, furthest, Nat.max_zero]
    refine hinner.max ?_
    split
    · exact hstart
    · exact .inl rfl
  moves := hp.moves

lemma Anchored.absent (hp : Anchored p) : Anchored (absent p) where
  tries polarity c := by
    simpa [Parser.absent, furthestIn, furthest] using hp.tries polarity.flip c
  moves c u d h := by
    obtain ⟨_, rfl⟩ := absent_eq_some_iff.mp h
    exact .refl c

lemma Anchored.optional (hp : Anchored p) : Anchored (optional p) :=
  (hp.bind fun _ => anchored_pure _).orElse (anchored_pure none)

lemma Anchored.many (hp : Anchored p) (limit : Nat) : Anchored (many limit p) := by
  induction limit with
  | zero => exact anchored_pure []
  | succ limit ih =>
    refine ⟨fun polarity c => ?_, fun c _ _ h => ?_⟩
    · have hfirst := hp.tries polarity c
      cases h : (p c).result with
      | none =>
        rw [many_of_none h]
        exact hfirst
      | some found =>
        obtain ⟨a, d⟩ := found
        rw [many_of_some h, furthestIn_append]
        exact hfirst.max ((ih.tries polarity d).from_reached (hp.moves c a d h))
    · have hsteps : ∀ d a e, Reaches c d → (p d).result = some (a, e) → Reaches c e :=
        fun d a e hd hstep => hd.trans (hp.moves d a e hstep)
      exact many_preserves hsteps (.refl c) h

end Combinators

/-! ### The rules of the grammar -/

lemma anchored_fail : Anchored (fail : Parser α) :=
  anchored_of_trace_nil (fun _ => rfl) fun _ _ _ h => absurd h (by simp)

lemma anchored_offset : Anchored offset :=
  anchored_of_trace_nil (fun _ => rfl) fun c _ _ h => (offset_eq_some_iff.mp h).2 ▸ .refl c

lemma anchored_atEnd : Anchored atEnd :=
  anchored_of_trace_nil (fun _ => rfl) fun c _ _ h => (atEnd_eq_some_iff.mp h).1 ▸ .refl c

lemma anchored_blanks : Anchored blanks :=
  anchored_of_trace_nil (fun _ => rfl) fun _ _ _ h => (blanks_eq_some_iff.mp h).1.reaches

lemma anchored_characters (cs : List Char) : Anchored (characters cs) :=
  anchored_of_trace_nil (trace_characters cs) fun _ _ _ h =>
    (characters_eq_some_iff.mp h).reaches

lemma anchored_satisfying (accept : Char → Bool) : Anchored (satisfying accept) :=
  anchored_of_trace_nil (trace_satisfying accept) fun _ _ _ h =>
    (satisfying_eq_some_iff.mp h).2.reaches

/-- A scan that separates the characters it reads from the front of the text. -/
lemma anchored_scanned {scan : List Char → Option (List Char × List Char)}
    (hscan : ∀ cs word rest, scan cs = some (word, rest) → cs = word ++ rest) :
    Anchored (scanned scan) := by
  refine anchored_of_trace_nil (trace_scanned scan) fun c s d h => ?_
  unfold scanned at h
  split at h
  · exact absurd h (by simp)
  · next word rest hfound =>
    obtain ⟨_, rfl⟩ := Prod.mk.inj (Option.some.inj h)
    exact (reads_past (hscan _ _ _ hfound)).reaches

lemma anchored_spelling (k : Connective) : Anchored (spelling k) :=
  (anchored_characters _).bind fun _ => anchored_pure k

lemma anchored_wordContinuation : Anchored wordContinuation :=
  ((anchored_satisfying _).bind fun _ => anchored_pure ()).orElse
    (((anchored_scanned fun _ _ _ h => (scanWildcard_sound h).2).rule _).bind fun _ =>
      anchored_pure ())

lemma anchored_keyword : Anchored keyword :=
  ((anchored_spelling _).orElse ((anchored_spelling _).orElse (anchored_spelling _))).bind
    fun k => anchored_wordContinuation.absent.bind fun _ => anchored_pure k

lemma anchored_connective : Anchored connective :=
  ((anchored_spelling _).orElse ((anchored_spelling _).orElse anchored_keyword)).rule _

lemma anchored_signSpelling (s : Sign) : Anchored (signSpelling s) :=
  (anchored_characters _).bind fun _ => anchored_pure s

lemma anchored_sign : Anchored sign :=
  ((anchored_signSpelling _).orElse
    ((anchored_signSpelling _).orElse (anchored_signSpelling _))).rule _

lemma anchored_separator : Anchored separator :=
  (anchored_blanks.bind fun _ => anchored_connective.bind fun _ => anchored_blanks.bind fun _ =>
    anchored_pure _).orElse
  ((anchored_satisfying _).bind fun _ => anchored_blanks.bind fun _ => anchored_pure _)

section Terms

variable {group : Parser Tree} (hgroup : Anchored group)
include hgroup

lemma anchored_fieldValue : Anchored (fieldValue group) := by
  have hquoted := (anchored_scanned fun _ _ _ h => (scanQuotedText_eq_some_iff.mp h).2).rule
    .quotedText
  have htext := (anchored_scanned fun _ _ _ h => (scanText_eq_some_iff.mp h).2.1).rule .text
  exact ((hquoted.bind fun _ => anchored_pure _).orElse
    ((htext.bind fun _ => anchored_pure _).orElse (hgroup.bind fun _ => anchored_pure _))).rule _

lemma anchored_namedField : Anchored (namedField group) := by
  have hname := (anchored_scanned fun _ _ _ h => (scanFieldName_eq_some_iff.mp h).2.1).rule
    .fieldName
  exact (hname.bind fun _ => (anchored_characters _).bind fun _ =>
    (anchored_fieldValue hgroup).bind fun _ => anchored_pure _).rule _

lemma anchored_defaultField : Anchored (defaultField group) :=
  ((anchored_fieldValue hgroup).bind fun _ => anchored_pure _).rule _

lemma anchored_term : Anchored (term group) :=
  (anchored_keyword.absent.bind fun _ => anchored_offset.bind fun _ =>
    anchored_sign.optional.bind fun _ =>
      ((anchored_namedField hgroup).orElse (anchored_defaultField hgroup)).bind fun _ =>
        anchored_offset.bind fun _ => anchored_pure _).rule _

lemma anchored_termList (limit : Nat) : Anchored (termList limit group) :=
  ((anchored_term hgroup).bind fun _ =>
    ((anchored_separator.bind fun _ =>
      (anchored_term hgroup).bind fun _ => anchored_pure _).many limit).bind fun _ =>
        anchored_pure _).rule _

end Terms

lemma anchored_groupedTermList (limit depth : Nat) : Anchored (groupedTermList limit depth) := by
  induction depth with
  | zero => exact anchored_fail.rule _
  | succ depth ih =>
    exact ((anchored_characters _).bind fun _ => anchored_blanks.bind fun _ =>
      (anchored_termList ih limit).bind fun _ => anchored_blanks.bind fun _ =>
        (anchored_characters _).bind fun _ => anchored_pure _).rule _

lemma anchored_query (limit depth : Nat) : Anchored (query limit depth) :=
  (anchored_blanks.bind fun _ =>
    (anchored_termList (anchored_groupedTermList limit depth) limit).bind fun _ =>
      anchored_blanks.bind fun _ => (anchored_atEnd.rule _).bind fun _ => anchored_pure _).rule _

end ChantSearch.Proofs

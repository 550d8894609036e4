import Mathlib
import ChantSearch.Query.Grammar

/-!
# The words of the grammar

Texts, quoted texts and field names as sets of words, without regard to how far a scan of
them goes. The scanners are exact for them: one succeeds where such a word stands that may
end there, and reads that word.
-/

namespace ChantSearch.Proofs
open Query

/-- No character of the class comes next. -/
def Stops (accept : Char → Bool) (rest : List Char) : Prop :=
  ∀ c ∈ rest.head?, accept c = false

lemma stops_nil (accept : Char → Bool) : Stops accept [] := by
  simp [Stops]

lemma stops_cons {accept : Char → Bool} {c : Char} {rest : List Char} :
    Stops accept (c :: rest) ↔ accept c = false := by
  simp [Stops]

lemma stops_dropWhile (accept : Char → Bool) (cs : List Char) :
    Stops accept (cs.dropWhile accept) := by
  induction cs with
  | nil => exact stops_nil accept
  | cons c cs ih =>
    by_cases hc : accept c
    · simpa [List.dropWhile_cons, hc] using ih
    · simp [hc, stops_cons]

lemma takeWhile_of_stops {accept : Char → Bool} {rest : List Char} (h : Stops accept rest) :
    rest.takeWhile accept = [] ∧ rest.dropWhile accept = rest := by
  cases rest with
  | nil => exact ⟨rfl, rfl⟩
  | cons c rest => simp [stops_cons.mp h]

/-- A run that nothing of its class follows is read as a whole. -/
lemma span_run {accept : Char → Bool} {word rest : List Char}
    (hw : ∀ c ∈ word, accept c = true) (hr : Stops accept rest) :
    (word ++ rest).takeWhile accept = word ∧ (word ++ rest).dropWhile accept = rest := by
  obtain ⟨htake, hdrop⟩ := takeWhile_of_stops hr
  rw [List.takeWhile_append_of_pos hw, List.dropWhile_append_of_pos hw, htake, hdrop]
  exact ⟨List.append_nil word, rfl⟩

lemma Stops.mono {accept larger : Char → Bool} {rest : List Char} (h : Stops larger rest)
    (himp : ∀ c, accept c = true → larger c = true) : Stops accept rest := by
  intro c hc
  have hl := h c hc
  by_contra ha
  rw [himp c (by simpa using ha)] at hl
  exact absurd hl (by decide)

lemma stops_append {accept : Char → Bool} {word rest : List Char}
    (hw : ∀ c ∈ word, accept c = false) (hr : Stops accept rest) :
    Stops accept (word ++ rest) := by
  cases word with
  | nil => exact hr
  | cons c word => exact stops_cons.mpr (hw c (by simp))

/-- A wildcard: an asterisk or a run of question marks. -/
inductive Wildcard : List Char → Prop where
  | asterisk : Wildcard ['*']
  | questionMarks (n : Nat) : Wildcard (List.replicate (n + 1) '?')

/-- Characters of a class with at most one wildcard among them. -/
inductive Wilded (accept : Char → Bool) : List Char → Prop where
  | plain {word : List Char} : (∀ c ∈ word, accept c = true) → Wilded accept word
  | wild {front mark back : List Char} : (∀ c ∈ front, accept c = true) → Wildcard mark →
      (∀ c ∈ back, accept c = true) → Wilded accept (front ++ mark ++ back)

def isWildedChar (accept : Char → Bool) (c : Char) : Bool :=
  accept c || c == '*' || c == '?'

lemma Wilded.all {accept : Char → Bool} {word : List Char} (h : Wilded accept word) :
    ∀ x ∈ word, isWildedChar accept x = true := by
  intro x hx
  cases h with
  | plain hall => simp [isWildedChar, hall x hx]
  | wild hfront hmark hback =>
    rcases List.mem_append.mp hx with hx | hx
    · rcases List.mem_append.mp hx with hx | hx
      · simp [isWildedChar, hfront x hx]
      · cases hmark with
        | asterisk => simp [isWildedChar, List.mem_singleton.mp hx]
        | questionMarks => simp [isWildedChar, List.eq_of_mem_replicate hx]
    · simp [isWildedChar, hback x hx]

lemma Wildcard.begins {mark : List Char} (h : Wildcard mark) :
    ∃ c rest, mark = c :: rest ∧ (c = '*' ∨ c = '?') := by
  cases h with
  | asterisk => exact ⟨'*', [], rfl, .inl rfl⟩
  | questionMarks n => exact ⟨'?', List.replicate n '?', List.replicate_succ, .inr rfl⟩

lemma Wildcard.of_begins {c : Char} (h : c = '*' ∨ c = '?') : Wildcard [c] := by
  rcases h with rfl | rfl
  · exact .asterisk
  · exact .questionMarks 0

lemma stops_wildcard {accept : Char → Bool} (hstar : accept '*' = false)
    (hmark : accept '?' = false) {mark : List Char} (h : Wildcard mark) (rest : List Char) :
    Stops accept (mark ++ rest) := by
  obtain ⟨c, tail, rfl, rfl | rfl⟩ := h.begins
  · exact stops_cons.mpr hstar
  · exact stops_cons.mpr hmark

lemma scanWildcard_sound {cs mark rest : List Char}
    (h : scanWildcard cs = some (mark, rest)) : Wildcard mark ∧ cs = mark ++ rest := by
  unfold scanWildcard at h
  split at h
  · simp only [Option.some.injEq, Prod.mk.injEq] at h
    obtain ⟨rfl, rfl⟩ := h
    exact ⟨.asterisk, rfl⟩
  · rename_i tail
    simp only [Option.some.injEq, Prod.mk.injEq] at h
    obtain ⟨rfl, rfl⟩ := h
    have hall : ∀ c ∈ tail.takeWhile (· == '?'), c = '?' := by
      intro c hc
      simpa using List.mem_takeWhile_imp hc
    refine ⟨?_, by simp⟩
    rw [List.eq_replicate_of_mem hall, ← List.replicate_succ]
    exact .questionMarks _
  · exact absurd h (by simp)

lemma scanWildcard_complete {mark rest : List Char} (h : Wildcard mark)
    (hr : Stops (· == '?') rest) : scanWildcard (mark ++ rest) = some (mark, rest) := by
  cases h with
  | asterisk => rfl
  | questionMarks n =>
    have hall : ∀ c ∈ List.replicate n '?', (c == '?') = true := by
      intro c hc
      simp [List.eq_of_mem_replicate hc]
    obtain ⟨htake, hdrop⟩ := span_run hall hr
    rw [List.replicate_succ, List.cons_append, scanWildcard, htake, hdrop]

lemma scanWildcard_eq_none_iff {cs : List Char} :
    scanWildcard cs = none ↔ Stops (fun c => c == '*' || c == '?') cs := by
  unfold scanWildcard
  split
  · simp [stops_cons]
  · simp [stops_cons]
  · rename_i hstar hmark
    refine ⟨fun _ => ?_, fun _ => rfl⟩
    cases cs with
    | nil => exact stops_nil _
    | cons c cs =>
      have hs : c ≠ '*' := fun h => hstar cs (by rw [h])
      have hm : c ≠ '?' := fun h => hmark cs (by rw [h])
      simp [stops_cons, hs, hm]

lemma scanWithWildcard_sound (accept : Char → Bool) (cs : List Char) :
    Wilded accept (scanWithWildcard accept cs).1 ∧
      cs = (scanWithWildcard accept cs).1 ++ (scanWithWildcard accept cs).2 := by
  have hfront : ∀ c ∈ cs.takeWhile accept, accept c = true :=
    fun c hc => List.mem_takeWhile_imp hc
  unfold scanWithWildcard
  split
  · exact ⟨.plain hfront, (List.takeWhile_append_dropWhile).symm⟩
  · rename_i mark rest hmark
    obtain ⟨hwild, hdrop⟩ := scanWildcard_sound hmark
    refine ⟨.wild hfront hwild fun c hc => List.mem_takeWhile_imp hc, ?_⟩
    rw [List.append_assoc, List.takeWhile_append_dropWhile, List.append_assoc, ← hdrop,
      List.takeWhile_append_dropWhile]

lemma scanWithWildcard_complete {accept : Char → Bool} (hstar : accept '*' = false)
    (hmark : accept '?' = false) {word rest : List Char} (h : Wilded accept word)
    (hr : Stops (isWildedChar accept) rest) :
    scanWithWildcard accept (word ++ rest) = (word, rest) := by
  have hstop : Stops accept rest := hr.mono fun c hc => by simp [isWildedChar, hc]
  cases h with
  | plain hw =>
    obtain ⟨htake, hdrop⟩ := span_run hw hstop
    have hnone : scanWildcard rest = none :=
      scanWildcard_eq_none_iff.mpr (hr.mono fun c hc => by
        simp only [Bool.or_eq_true] at hc
        rcases hc with hc | hc <;> simp [isWildedChar, hc])
    simp only [scanWithWildcard, htake, hdrop, hnone]
  | wild hfront hwild hback =>
    rename_i front mark back
    have hquestion : Stops (· == '?') (back ++ rest) := by
      refine stops_append (fun c hc => ?_) (hr.mono fun c hc => by simp [isWildedChar, hc])
      by_contra hne
      have hc' : c = '?' := by simpa using hne
      rw [hc'] at hc
      exact absurd (hback '?' hc) (by simp [hmark])
    have hafter := stops_wildcard hstar hmark hwild (back ++ rest)
    obtain ⟨htake, hdrop⟩ := span_run hfront hafter
    obtain ⟨htake', hdrop'⟩ := span_run hback hstop
    have hscan := scanWildcard_complete hwild hquestion
    simp only [scanWithWildcard, List.append_assoc, htake, hdrop, hscan, htake', hdrop']

/-- A further character of a word comes next, or a wildcard. -/
def WordContinues (rest : List Char) : Prop :=
  (∃ c tail, isTextChar c = true ∧ rest = c :: tail) ∨
    ∃ mark tail, Wildcard mark ∧ rest = mark ++ tail

/-- What a text must not be followed by. -/
def TextContinues (rest : List Char) : Prop :=
  WordContinues rest ∨ ∃ tail, rest = '"' :: tail

def PlainText (word : List Char) : Prop :=
  word ≠ [] ∧ Wilded isTextChar word

/-- The words of texts in quotes. -/
inductive QuotedText : List Char → Prop where
  | quoted {body : List Char} : Wilded isQuotedChar body → QuotedText ('"' :: body ++ ['"'])

def FieldName (name : List Char) : Prop :=
  name ≠ [] ∧ ∀ c ∈ name, isNameChar c = true

lemma not_wordContinues_iff {rest : List Char} :
    ¬WordContinues rest ↔ Stops (isWildedChar isTextChar) rest := by
  cases rest with
  | nil =>
    refine ⟨fun _ => stops_nil _, fun _ => ?_⟩
    rintro (⟨c, tail, _, h⟩ | ⟨mark, tail, hmark, h⟩)
    · exact absurd h (by simp)
    · obtain ⟨c, more, rfl, _⟩ := hmark.begins
      exact absurd h (by simp)
  | cons c tail =>
    rw [stops_cons]
    constructor
    · intro h
      by_contra hc
      apply h
      simp only [isWildedChar, Bool.not_eq_false, Bool.or_eq_true, beq_iff_eq] at hc
      rcases hc with (hc | hc) | hc
      · exact .inl ⟨c, tail, hc, rfl⟩
      · exact .inr ⟨[c], tail, .of_begins (.inl hc), rfl⟩
      · exact .inr ⟨[c], tail, .of_begins (.inr hc), rfl⟩
    · rintro h (⟨d, more, hd, heq⟩ | ⟨mark, more, hmark, heq⟩)
      · obtain ⟨rfl, rfl⟩ := List.cons.inj heq
        simp [isWildedChar, hd] at h
      · obtain ⟨d, more', rfl, hd⟩ := hmark.begins
        obtain ⟨rfl, _⟩ := List.cons.inj heq
        rcases hd with rfl | rfl <;> simp [isWildedChar] at h

lemma not_textContinues_iff {rest : List Char} :
    ¬TextContinues rest ↔ Stops (isWildedChar isTextChar) rest ∧ Stops (· == '"') rest := by
  rw [TextContinues, not_or, not_wordContinues_iff]
  apply and_congr_right
  intro _
  cases rest with
  | nil => simp [stops_nil]
  | cons c tail => simp [stops_cons]

lemma endsText_iff {rest : List Char} : endsText rest = true ↔ ¬TextContinues rest := by
  rw [not_textContinues_iff]
  cases rest with
  | nil => simp [endsText, stops_nil]
  | cons c tail => simp [endsText, stops_cons, isWildedChar, and_assoc]

lemma PlainText.begins {word : List Char} (h : PlainText word) :
    ∃ c rest, word = c :: rest ∧ isWildedChar isTextChar c = true := by
  obtain ⟨hne, hword⟩ := h
  cases hword with
  | plain hall =>
    obtain ⟨c, rest, rfl⟩ := List.exists_cons_of_ne_nil hne
    exact ⟨c, rest, rfl, by simp [isWildedChar, hall c (by simp)]⟩
  | wild hfront hmark hback =>
    rename_i front mark back
    cases front with
    | nil =>
      obtain ⟨c, rest, rfl, hc⟩ := hmark.begins
      exact ⟨c, rest ++ back, rfl, by rcases hc with rfl | rfl <;> simp [isWildedChar]⟩
    | cons c front =>
      exact ⟨c, front ++ mark ++ back, rfl, by simp [isWildedChar, hfront c (by simp)]⟩

lemma PlainText.ends {word : List Char} (h : PlainText word) :
    ∃ front c, word = front ++ [c] ∧ isWildedChar isTextChar c = true := by
  obtain ⟨hne, hword⟩ := h
  exact ⟨_, _, (List.dropLast_append_getLast hne).symm, hword.all _ (List.getLast_mem hne)⟩

lemma scanText_eq_some_iff {cs word rest : List Char} :
    scanText cs = some (word, rest) ↔
      PlainText word ∧ cs = word ++ rest ∧ ¬TextContinues rest := by
  constructor
  · intro h
    obtain ⟨hword, hcs⟩ := scanWithWildcard_sound isTextChar cs
    simp only [scanText] at h
    split at h
    · exact absurd h (by simp)
    · rename_i hok
      simp only [Option.some.injEq, Prod.mk.injEq] at h
      simp only [Bool.or_eq_true, Bool.not_eq_true', not_or, Bool.not_eq_false] at hok
      obtain ⟨rfl, rfl⟩ := h
      exact ⟨⟨by simpa using hok.1, hword⟩, hcs, endsText_iff.mp hok.2⟩
  · rintro ⟨⟨hne, hword⟩, rfl, hrest⟩
    have hstop := (not_textContinues_iff.mp hrest).1
    have hscan := scanWithWildcard_complete (by decide) (by decide) hword hstop
    simp [scanText, hscan, hne, endsText_iff.mpr hrest]

lemma scanQuotedText_eq_some_iff {cs word rest : List Char} :
    scanQuotedText cs = some (word, rest) ↔ QuotedText word ∧ cs = word ++ rest := by
  constructor
  · intro h
    unfold scanQuotedText at h
    split at h
    · rename_i tail
      obtain ⟨hword, htail⟩ := scanWithWildcard_sound isQuotedChar tail
      split at h
      · rename_i read after hscan
        rw [hscan] at hword htail
        simp only [Option.some.injEq, Prod.mk.injEq] at h
        obtain ⟨rfl, rfl⟩ := h
        exact ⟨.quoted hword, by simp [htail]⟩
      · exact absurd h (by simp)
    · exact absurd h (by simp)
  · rintro ⟨⟨hbody⟩, rfl⟩
    rename_i body
    have hstop : Stops (isWildedChar isQuotedChar) ('"' :: rest) := stops_cons.mpr (by decide)
    have hscan := scanWithWildcard_complete (by decide) (by decide) hbody hstop
    simp [scanQuotedText, hscan]

lemma scanFieldName_eq_some_iff {cs name rest : List Char} :
    scanFieldName cs = some (name, rest) ↔
      FieldName name ∧ cs = name ++ rest ∧ Stops isNameChar rest := by
  constructor
  · intro h
    simp only [scanFieldName] at h
    split at h
    · exact absurd h (by simp)
    · rename_i hne
      simp only [Option.some.injEq, Prod.mk.injEq] at h
      obtain ⟨rfl, rfl⟩ := h
      exact ⟨⟨by simpa using hne, fun c hc => List.mem_takeWhile_imp hc⟩,
        (List.takeWhile_append_dropWhile).symm, stops_dropWhile _ _⟩
  · rintro ⟨⟨hne, hall⟩, rfl, hstop⟩
    obtain ⟨htake, hdrop⟩ := span_run hall hstop
    simp [scanFieldName, htake, hdrop, hne]

end ChantSearch.Proofs

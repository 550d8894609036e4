import ChantSearch.Proofs.Grammar.Combinators

/-!
# Words and operators read exactly

The parsers below the level of terms succeed where their rule has a derivation, and end where
it ends.
-/

namespace ChantSearch.Proofs
open Query Query.Parser

variable {c d : Cursor}

lemma quotedText_eq_some_iff {s : String} :
    (rule .quotedText (scanned scanQuotedText) c).result = some (s, d) ↔
      ∃ word, s = String.ofList word ∧ QuotedText word ∧ Reads c word d := by
  have hscan {cs word rest : List Char} : scanQuotedText cs = some (word, rest) ↔
      QuotedText word ∧ cs = word ++ rest ∧ True := by
    rw [scanQuotedText_eq_some_iff, and_true]
  rw [scanned_eq_some_iff hscan]
  simp only [and_true]

lemma text_eq_some_iff {s : String} :
    (rule .text (scanned scanText) c).result = some (s, d) ↔
      ∃ word, s = String.ofList word ∧ PlainText word ∧ Reads c word d ∧ ¬TextContinues d.rest :=
  scanned_eq_some_iff scanText_eq_some_iff

lemma fieldName_eq_some_iff {s : String} :
    (rule .fieldName (scanned scanFieldName) c).result = some (s, d) ↔
      ∃ name, s = String.ofList name ∧ FieldName name ∧ Reads c name d ∧
        Stops isNameChar d.rest :=
  scanned_eq_some_iff scanFieldName_eq_some_iff

lemma wordContinuation_eq_none_iff :
    (wordContinuation c).result = none ↔ ¬WordContinues c.rest := by
  rw [wordContinuation, result_orElse, Option.or_eq_none_iff, bind_pure_eq_none_iff,
    bind_pure_eq_none_iff, satisfying_eq_none_iff, wildcard, result_rule, scanned_eq_none_iff,
    scanWildcard_eq_none_iff, not_wordContinues_iff]
  cases hrest : c.rest with
  | nil => simp [stops_nil]
  | cons x tail => simp [stops_cons, isWildedChar, and_assoc]

lemma exclusive_connective : Exclusive Connective.toString := by
  intro k l c d e h h'
  have hhead := h.rest.symm.trans h'.rest
  revert hhead
  cases k <;> cases l <;> simp [Connective.toString]

lemma spelling_eq_some_iff {k l : Connective} :
    (spelling k c).result = some (l, d) ↔ k = l ∧ Reads c k.toString.toList d := by
  unfold spelling
  rw [bind_pure_eq_some_iff]
  simp only [characters_eq_some_iff, exists_const]
  exact and_comm

lemma spells_spelling (k : Connective) : Spells Connective.toString (spelling k) := by
  intro l c d h
  obtain ⟨rfl, hread⟩ := spelling_eq_some_iff.mp h
  exact hread

lemma keywordSpelling_eq_some_iff {k : Connective} :
    (orElse (spelling .and) (orElse (spelling .or) (spelling .not)) c).result = some (k, d) ↔
      (k = .and ∨ k = .or ∨ k = .not) ∧ Reads c k.toString.toList d := by
  rw [exclusive_connective.orElse_eq_some_iff (spells_spelling _)
      ((spells_spelling _).orElse (spells_spelling _)),
    exclusive_connective.orElse_eq_some_iff (spells_spelling _) (spells_spelling _)]
  simp only [spelling_eq_some_iff]
  constructor
  · rintro (⟨rfl, h⟩ | ⟨rfl, h⟩ | ⟨rfl, h⟩) <;> simp [h]
  · rintro ⟨rfl | rfl | rfl, h⟩ <;> simp [h]

lemma keyword_eq_some_iff {k : Connective} :
    (keyword c).result = some (k, d) ↔ Keyword c k d := by
  unfold keyword
  simp only [bind_eq_some_iff, keywordSpelling_eq_some_iff, absent_eq_some_iff,
    wordContinuation_eq_none_iff, result_pure, Option.some.injEq, Prod.mk.injEq]
  constructor
  · rintro ⟨l, e, ⟨hl, hread⟩, _, f, ⟨hend, rfl⟩, rfl, rfl⟩
    exact ⟨hl, hread, hend⟩
  · rintro ⟨hk, hread, hend⟩
    exact ⟨k, d, ⟨hk, hread⟩, (), d, ⟨hend, rfl⟩, rfl, rfl⟩

lemma spells_keyword : Spells Connective.toString keyword := by
  intro k c d h
  exact (keyword_eq_some_iff.mp h).2.1

lemma keyword_eq_none_iff : (keyword c).result = none ↔ ¬∃ k e, Keyword c k e := by
  rw [Option.eq_none_iff_forall_ne_some, Prod.forall, not_exists]
  apply forall_congr'
  intro k
  rw [not_exists]
  apply forall_congr'
  intro e
  exact not_congr keyword_eq_some_iff

lemma connective_eq_some_iff {k : Connective} :
    (connective c).result = some (k, d) ↔ Operator c k d := by
  unfold connective
  rw [result_rule, exclusive_connective.orElse_eq_some_iff (spells_spelling _)
      ((spells_spelling _).orElse spells_keyword),
    exclusive_connective.orElse_eq_some_iff (spells_spelling _) spells_keyword]
  simp only [spelling_eq_some_iff, keyword_eq_some_iff, Operator]
  constructor
  · rintro (⟨rfl, h⟩ | ⟨rfl, h⟩ | h)
    · exact .inl ⟨.inl rfl, h⟩
    · exact .inl ⟨.inr rfl, h⟩
    · exact .inr h
  · rintro (⟨rfl | rfl, h⟩ | h)
    · exact .inl ⟨rfl, h⟩
    · exact .inr (.inl ⟨rfl, h⟩)
    · exact .inr (.inr h)

lemma exclusive_sign : Exclusive Sign.toString := by
  intro s t c d e h h'
  have hhead := h.rest.symm.trans h'.rest
  revert hhead
  cases s <;> cases t <;> simp [Sign.toString]

lemma signSpelling_eq_some_iff {s t : Sign} :
    (signSpelling s c).result = some (t, d) ↔ s = t ∧ Reads c s.toString.toList d := by
  unfold signSpelling
  rw [bind_pure_eq_some_iff]
  simp only [characters_eq_some_iff, exists_const]
  exact and_comm

lemma spells_signSpelling (s : Sign) : Spells Sign.toString (signSpelling s) := by
  intro t c d h
  obtain ⟨rfl, hread⟩ := signSpelling_eq_some_iff.mp h
  exact hread

lemma sign_eq_some_iff {s : Sign} :
    (sign c).result = some (s, d) ↔ Reads c s.toString.toList d := by
  unfold sign
  rw [result_rule, exclusive_sign.orElse_eq_some_iff (spells_signSpelling _)
      ((spells_signSpelling _).orElse (spells_signSpelling _)),
    exclusive_sign.orElse_eq_some_iff (spells_signSpelling _) (spells_signSpelling _)]
  simp only [signSpelling_eq_some_iff]
  constructor
  · rintro (⟨rfl, h⟩ | ⟨rfl, h⟩ | ⟨rfl, h⟩) <;> exact h
  · intro h
    cases s
    · exact .inl ⟨rfl, h⟩
    · exact .inr (.inl ⟨rfl, h⟩)
    · exact .inr (.inr ⟨rfl, h⟩)

end ChantSearch.Proofs

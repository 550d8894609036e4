import ChantSearch.Proofs.Grammar.Boundary
import ChantSearch.Proofs.Rendering.Text

/-!
# Well-formed queries

The lists of terms that the grammar gives, told from their trees alone: literals are texts or
quoted texts, fields have names, and a term without a sign does not begin with a word that is
a keyword. Every derived list is one of them.
-/

namespace ChantSearch.Proofs
open Query

variable {μ : Type} {c d e : Cursor}

/-- A text as it can stand behind a colon. -/
def LiteralText (text : String) : Prop :=
  PlainText text.toList ∨ QuotedText text.toList

def IsKeyword (word : String) : Prop :=
  ∃ k : Connective, (k = .and ∨ k = .or ∨ k = .not) ∧ word = k.toString

/-- A head of a term whose value begins with a word. -/
structure WellFormedHead (head : Head μ) (word : String) : Prop where
  name : ∀ name ∈ head.field?, FieldName name.toList
  noKeyword : head.sign? = none → ¬IsKeyword (head.field?.getD word)

/-- Lists of terms that the grammar can give. -/
inductive WellFormed : List (Node μ) → Prop where
  | literal {head : Head μ} {text : String} : WellFormedHead head text → LiteralText text →
      WellFormed [.literal head text]
  | group {head : Head μ} {members : List (Node μ)} : WellFormedHead head "(" →
      WellFormed members → WellFormed [.group head members]
  | joined {ts us : List (Node μ)} (k? : Option Connective) : WellFormed ts → WellFormed us →
      WellFormed (ts ++ (k?.toList.map .connective ++ us))

lemma LiteralText.ne_empty {text : String} (h : LiteralText text) : text ≠ "" := by
  rintro rfl
  rcases h with h | h
  · exact h.1 rfl
  · generalize hword : "".toList = word at h
    cases h
    exact absurd hword (by simp)

/-- The words that the lookahead for a keyword compares are read as a whole. -/
lemma Keyword.eq_word {k : Connective} (h : Keyword c k d) {word rest : List Char}
    (hword : PlainText word) (hrest : c.rest = word ++ rest) (hend : ¬WordContinues rest) :
    word = k.toString.toList := by
  obtain ⟨hk, hread, hstop⟩ := h
  have htext : k.toString.toList.all isTextChar = true := by
    rcases hk with rfl | rfl | rfl <;> decide
  have hletters : Wilded isTextChar k.toString.toList := .plain (List.all_eq_true.mp htext)
  have hscan := scanWithWildcard_complete (by decide) (by decide) hword.2
    (not_wordContinues_iff.mp hend)
  have hscan' := scanWithWildcard_complete (by decide) (by decide) hletters
    (not_wordContinues_iff.mp hstop)
  rw [← hrest, hread.rest, hscan'] at hscan
  exact (Prod.mk.inj hscan).1.symm

lemma keyword_of_isKeyword {word : List Char} (hword : IsKeyword (String.ofList word))
    (hread : Reads c word d) (hend : ¬WordContinues d.rest) : ∃ k e, Keyword c k e := by
  obtain ⟨k, hk, heq⟩ := hword
  have hchars : word = k.toString.toList := by
    rw [← heq, String.toList_ofList]
  rw [hchars] at hread
  exact ⟨k, d, hk, hread, hend⟩

lemma not_isKeyword_of_begins {word : String} {x : Char} {tail : List Char}
    (hword : word.toList = x :: tail) (hx : isOperatorStart x = false) : ¬IsKeyword word := by
  rintro ⟨k, hk, rfl⟩
  rcases hk with rfl | rfl | rfl <;>
    · obtain ⟨rfl, _⟩ := List.cons.inj hword
      exact absurd hx (by decide)

def firstWord : Value → String
  | .literal text => text
  | .group _ => "("

def WellFormedValue : Value → Prop
  | .literal text => LiteralText text
  | .group members => WellFormed members

def WellFormedPhrase (c : Cursor) : Phrase → Prop
  | .value v => WellFormedValue v ∧ ((¬∃ k e, Keyword c k e) → ¬IsKeyword (firstWord v))
  | .field name? v => WellFormedValue v ∧ (∀ name ∈ name?, FieldName name.toList) ∧
      ((¬∃ k e, Keyword c k e) → ¬IsKeyword (name?.getD (firstWord v)))
  | .term node => WellFormed [node]
  | .further nodes => ∀ ts : Tree, WellFormed ts → WellFormed (ts ++ nodes)
  | .termList nodes => WellFormed nodes
  | .group members => WellFormed members

/-- Every derived list of terms is well-formed. -/
theorem Derives.wellFormed {p : Phrase} (h : Derives c p d) : WellFormedPhrase c p := by
  induction h with
  | quotedText hword hread =>
    refine ⟨.inr (by rwa [String.toList_ofList]), fun _ => ?_⟩
    obtain ⟨_⟩ := hword
    exact not_isKeyword_of_begins (String.toList_ofList) (by decide)
  | text hword hread hend =>
    refine ⟨.inl (by rwa [String.toList_ofList]), fun hkeyword hword' => hkeyword ?_⟩
    exact keyword_of_isKeyword hword' hread fun hcontinues => hend (.inl hcontinues)
  | groupedTermList _ ih =>
    have hparenthesis : ("(" : String).toList = ['('] := rfl
    exact ⟨ih, fun _ => not_isKeyword_of_begins hparenthesis (by decide)⟩
  | namedField hname hread hcolon _ ih =>
    refine ⟨ih.1, ?_, fun hkeyword hword => hkeyword ?_⟩
    · intro name hmem
      obtain rfl := Option.mem_some.mp hmem
      rwa [String.toList_ofList]
    · apply keyword_of_isKeyword hword hread
      rw [hcolon.rest, not_wordContinues_iff]
      exact stops_cons.mpr (by decide)
  | defaultField _ ih => exact ⟨ih.1, by simp, ih.2⟩
  | @term _ _ _ sign? name? v hkeyword hsign _ ih =>
    obtain ⟨hvalue, hname, hword⟩ := ih
    have hhead (mark : Span) : WellFormedHead (Head.mk sign? name? mark) (firstWord v) := by
      refine ⟨hname, fun hunsigned => hword ?_⟩
      obtain rfl : sign? = none := hunsigned
      cases hsign with
      | unsigned => exact hkeyword
    cases v with
    | literal text => exact .literal (hhead _) hvalue
    | group members => exact .group (hhead _) hvalue
  | lastTerm =>
    intro ts hts
    rwa [List.append_nil]
  | @furtherTerm _ _ _ _ k? node _ _ _ _ ihterm ihfurther =>
    intro ts hts
    have hterm : WellFormed [node] := ihterm
    simpa using ihfurther _ (hts.joined k? hterm)
  | termList _ _ ihterm ihfurther => exact ihfurther _ ihterm
  | group _ _ _ _ _ ih => exact ih

end ChantSearch.Proofs

import ChantSearch.Proofs.Text.Integers
import ChantSearch.Resolution.Replacement

/-!
# Ranked ids

The ids that a value designates make a text of weighted alternatives, from which they can be read
again: it has a part for each id, and the part tells the field, the id and the weight of its rank.
So no id is lost, and other ids make another component.
-/

namespace ChantSearch.Proofs
open Query Resolution

variable {first : Char} {sep part rest : List Char} {parts : List (List Char)}
  {idField id : String} {ids others : List String}

/-- The parts of a text between the places of a separator, looked for from the front. The first
`skip` characters belong to a separator that has been found. -/
def splitFrom (sep : List Char) (skip : Nat) : List Char → List (List Char)
  | [] => [[]]
  | c :: cs =>
    match skip with
    | skip + 1 => splitFrom sep skip cs
    | 0 =>
      if sep.isPrefixOf (c :: cs) then [] :: splitFrom sep (sep.length - 1) cs
      else (splitFrom sep 0 cs).modifyHead (c :: ·)

lemma splitFrom_skip (sep front rest : List Char) :
    splitFrom sep front.length (front ++ rest) = splitFrom sep 0 rest := by
  induction front with
  | nil => rfl
  | cons c front ih => exact ih

lemma splitFrom_separator (first : Char) (sep rest : List Char) :
    splitFrom (first :: sep) 0 (first :: sep ++ rest) =
      [] :: splitFrom (first :: sep) 0 rest := by
  rw [List.cons_append, splitFrom, if_pos]
  · rw [List.length_cons, Nat.add_sub_cancel, splitFrom_skip]
  · simp

/-- No separator begins inside a part without its first character. -/
lemma splitFrom_part (hpart : first ∉ part) :
    splitFrom (first :: sep) 0 (part ++ rest) =
      (splitFrom (first :: sep) 0 rest).modifyHead (part ++ ·) := by
  induction part with
  | nil => exact (congrFun List.modifyHead_id _).symm
  | cons c part ih =>
    have hc : first ≠ c := fun h => hpart (by simp [h])
    have hrest : first ∉ part := fun h => hpart (List.mem_cons_of_mem c h)
    rw [List.cons_append, splitFrom, if_neg (by simp [hc]), ih hrest, List.modifyHead_modifyHead]
    rfl

/-- Parts that are joined by a separator are split into the same parts. -/
lemma splitFrom_intercalate (hne : parts ≠ []) (hparts : ∀ part ∈ parts, first ∉ part) :
    splitFrom (first :: sep) 0 ((first :: sep).intercalate parts) = parts := by
  induction parts with
  | nil => exact absurd rfl hne
  | cons part parts ih =>
    have hpart := hparts part List.mem_cons_self
    cases parts with
    | nil =>
      have hsplit : splitFrom (first :: sep) 0 (part ++ []) = _ := splitFrom_part hpart
      rw [List.append_nil] at hsplit
      simp [hsplit, splitFrom]
    | cons next parts =>
      rw [List.intercalate_cons_cons, List.append_assoc, splitFrom_part hpart, splitFrom_separator,
        ih (by simp) fun other hother => hparts other (List.mem_cons_of_mem part hother)]
      simp

/-- An id of a field with its weight. -/
structure WeightedId where
  field : String
  id : String
  weight : Nat
  deriving DecidableEq

/-- The field in front of a colon, the id up to a caret, and a decimal number. -/
def readWeightedId (part : List Char) : Option WeightedId :=
  match part.dropWhile (· != ':') with
  | [] => none
  | _ :: rest =>
    match rest.dropWhile (· != '^') with
    | [] => none
    | _ :: digits => (Text.readDigits digits).map fun weight =>
      ⟨.ofList (part.takeWhile (· != ':')), .ofList (rest.takeWhile (· != '^')), weight⟩

/-- The alternatives between the parentheses around a text. -/
def readAlternatives (text : String) : Option (List (List Char)) :=
  match text.toList with
  | '(' :: cs =>
    if cs.getLast? = some ')' then some (splitFrom " OR ".toList 0 cs.dropLast) else none
  | _ => none

/-- No blank, colon or caret is in the text. -/
def Unmarked (s : String) : Prop :=
  ∀ c ∈ s.toList, c ≠ ' ' ∧ c ≠ ':' ∧ c ≠ '^'

instance (s : String) : Decidable (Unmarked s) :=
  List.decidableBAll _ s.toList

lemma readAlternatives_alternatives {terms : List String} (hne : terms ≠ [])
    (hterms : ∀ term ∈ terms, ' ' ∉ term.toList) :
    ∃ text, alternatives terms = .bare text ∧
      readAlternatives text = some (terms.map String.toList) := by
  have hor : " OR ".toList = ' ' :: ['O', 'R', ' '] := rfl
  have hsplit : splitFrom " OR ".toList 0 (" OR ".toList.intercalate (terms.map String.toList)) =
      terms.map String.toList := by
    rw [hor]
    exact splitFrom_intercalate (by simpa using hne) (by simpa using hterms)
  refine ⟨_, rfl, ?_⟩
  have htext : ("(" ++ " OR ".intercalate terms ++ ")").toList =
      '(' :: (" OR ".toList.intercalate (terms.map String.toList) ++ [')']) := by
    simp [String.toList_append, String.toList_intercalate]
  rw [readAlternatives, htext]
  simp only [List.getLast?_concat, if_true, List.dropLast_concat, hsplit]

lemma toList_term (idField id : String) (weight : Nat) :
    s!"{idField}:{id}^{weight}".toList =
      idField.toList ++ ':' :: (id.toList ++ '^' :: (toString weight).toList) := by
  change (idField ++ ":" ++ id ++ "^" ++ toString weight).toList = _
  simp [String.toList_append]

/-- A text without colons is read up to the colon behind it, and likewise with a caret. -/
lemma span_apart {mark : Char} {word : List Char} (hword : ∀ c ∈ word, c ≠ mark)
    (rest : List Char) :
    (word ++ mark :: rest).takeWhile (· != mark) = word ∧
      (word ++ mark :: rest).dropWhile (· != mark) = mark :: rest := by
  apply span_run
  · intro c hc
    simpa using hword c hc
  · exact stops_cons.mpr (by simp)

lemma readWeightedId_term (hfield : Unmarked idField) (hid : Unmarked id) (weight : Nat) :
    readWeightedId s!"{idField}:{id}^{weight}".toList = some ⟨idField, id, weight⟩ := by
  have hcolon := span_apart (fun c hc => (hfield c hc).2.1)
    (id.toList ++ '^' :: (toString weight).toList)
  have hcaret := span_apart (fun c hc => (hid c hc).2.2) (toString weight).toList
  simp only [readWeightedId, toList_term, hcolon.1, hcolon.2, hcaret.1, hcaret.2,
    readDigits_toString, Option.map_some, String.ofList_toList]

lemma length_weightedTerms (idField : String) (ids : List String) :
    (weightedTerms idField ids).length = ids.length := by
  induction ids with
  | nil => rfl
  | cons id ids ih => simp [weightedTerms, ih]

/-- The weight of an id is the number of ids from it on. -/
lemma getElem?_weightedTerms (idField : String) (ids : List String) (k : Nat) :
    (weightedTerms idField ids)[k]? =
      ids[k]?.map fun id => s!"{idField}:{id}^{ids.length - k}" := by
  induction ids generalizing k with
  | nil => rfl
  | cons id ids ih =>
    cases k with
    | zero => rfl
    | succ k =>
      rw [weightedTerms, List.getElem?_cons_succ, List.getElem?_cons_succ, ih, List.length_cons,
        Nat.add_sub_add_right]

lemma blank_not_mem_term (hfield : Unmarked idField) (hid : Unmarked id) (weight : Nat) :
    ' ' ∉ s!"{idField}:{id}^{weight}".toList := by
  have hdigits : ' ' ∉ (toString weight).toList := by
    intro hmem
    exact absurd ((readDigits_eq_some_iff.mp (readDigits_toString weight)).1.digits ' ' hmem)
      (by decide)
  rw [toList_term]
  simp only [List.mem_append, List.mem_cons, not_or]
  exact ⟨fun hmem => (hfield ' ' hmem).1 rfl, by decide, fun hmem => (hid ' ' hmem).1 rfl,
    by decide, hdigits⟩

lemma blank_not_mem_weightedTerms (hfield : Unmarked idField) (hids : ∀ id ∈ ids, Unmarked id) :
    ∀ term ∈ weightedTerms idField ids, ' ' ∉ term.toList := by
  induction ids with
  | nil => simp [weightedTerms]
  | cons id ids ih =>
    rw [List.forall_mem_cons] at hids
    exact List.forall_mem_cons.mpr ⟨blank_not_mem_term hfield hids.1 _, ih hids.2⟩

lemma ranked_of_two_le (h : 2 ≤ ids.length) :
    ranked idField ids = alternatives (weightedTerms idField ids) := by
  match ids, h with
  | _ :: _ :: _, _ => rfl

/-- Two ids or more are read from the component that is made of them, each with its weight. -/
lemma readAlternatives_ranked (h : 2 ≤ ids.length) (hfield : Unmarked idField)
    (hids : ∀ id ∈ ids, Unmarked id) :
    ∃ text parts, ranked idField ids = .bare text ∧ readAlternatives text = some parts ∧
      parts.length = ids.length ∧
      ∀ (k : Nat) (hk : k < ids.length),
        parts[k]?.bind readWeightedId = some ⟨idField, ids[k], ids.length - k⟩ := by
  have hlength := length_weightedTerms idField ids
  have hne : weightedTerms idField ids ≠ [] := by
    rw [← List.length_pos_iff, hlength]
    omega
  obtain ⟨text, htext, hread⟩ :=
    readAlternatives_alternatives hne (blank_not_mem_weightedTerms hfield hids)
  refine ⟨text, _, (ranked_of_two_le h).trans htext, hread, by rw [List.length_map, hlength],
    fun k hk => ?_⟩
  rw [List.getElem?_map, getElem?_weightedTerms, List.getElem?_eq_getElem hk]
  exact readWeightedId_term hfield (hids _ (List.getElem_mem hk)) _

/-- A list of two ids or more is told by its component. -/
lemma ranked_injective_of_two_le (h : 2 ≤ ids.length) (h' : 2 ≤ others.length)
    (hfield : Unmarked idField) (hids : ∀ id ∈ ids, Unmarked id)
    (hothers : ∀ id ∈ others, Unmarked id) (heq : ranked idField ids = ranked idField others) :
    ids = others := by
  obtain ⟨text, parts, htext, hparts, hlength, hread⟩ := readAlternatives_ranked h hfield hids
  obtain ⟨text', parts', htext', hparts', hlength', hread'⟩ :=
    readAlternatives_ranked h' hfield hothers
  obtain rfl := Component.bare.inj (htext.symm.trans (heq.trans htext'))
  obtain rfl := Option.some.inj (hparts.symm.trans hparts')
  apply List.ext_getElem (hlength.symm.trans hlength')
  intro k hk hk'
  have hsame := Option.some.inj ((hread k hk).symm.trans (hread' k hk'))
  exact (WeightedId.mk.inj hsame).2.1

/-- Different lists of ids make different components. A single id makes no alternatives. -/
lemma ranked_injective (hfield : Unmarked idField) (hids : ∀ id ∈ ids, Unmarked id)
    (hothers : ∀ id ∈ others, Unmarked id) (hne : ids ≠ []) (hne' : others ≠ [])
    (heq : ranked idField ids = ranked idField others) : ids = others := by
  match ids, others, hne, hne' with
  | [id], [other], _, _ => rw [(Component.field.inj heq).2]
  | [id], other :: next :: rest, _, _ => cases heq
  | id :: next :: rest, [other], _, _ => cases heq
  | id :: next :: rest, other :: next' :: rest', _, _ =>
    exact ranked_injective_of_two_le (by simp) (by simp) hfield hids hothers heq

/-- The component for two ids or more is a text of alternatives, one for each id in the order of
the ids, whether they repeat or not. The alternative at a place reads as the field, the id at that
place, and its weight: the first has the number of the ids for a weight, the last has 1. Different
lists of ids, single ids among them, make different components. -/
theorem ranked_reads_back (idField : String) (ids : List String) (hfield : Unmarked idField)
    (hids : ∀ id ∈ ids, Unmarked id) :
    (2 ≤ ids.length →
      ∃ text parts, ranked idField ids = .bare text ∧ readAlternatives text = some parts ∧
        parts.length = ids.length ∧
        ∀ (k : Nat) (hk : k < ids.length),
          parts[k]?.bind readWeightedId = some ⟨idField, ids[k], ids.length - k⟩) ∧
    ∀ others, (∀ id ∈ others, Unmarked id) → ids ≠ [] → others ≠ [] →
      ranked idField ids = ranked idField others → ids = others :=
  ⟨fun h => readAlternatives_ranked h hfield hids,
    fun _ hothers hne hne' heq => ranked_injective hfield hids hothers hne hne' heq⟩

/-- The third of the ids is the first again, and weighs least there. -/
theorem repeated_id_reads_back :
    let ids := ["10", "11", "10"]
    Unmarked "genre_id" ∧ (∀ id ∈ ids, Unmarked id) ∧
      (∃ text parts, ranked "genre_id" ids = .bare text ∧ readAlternatives text = some parts ∧
        parts.length = 3 ∧ parts[0]?.bind readWeightedId = some ⟨"genre_id", "10", 3⟩ ∧
        parts[2]?.bind readWeightedId = some ⟨"genre_id", "10", 1⟩) ∧
      ranked "genre_id" ids ≠ ranked "genre_id" ["10", "11"] := by
  intro ids
  have hfield : Unmarked "genre_id" := by decide
  have hids : ∀ id ∈ ids, Unmarked id := by decide
  have hothers : ∀ id ∈ ["10", "11"], Unmarked id := by decide
  obtain ⟨hread, hinjective⟩ := ranked_reads_back "genre_id" ids hfield hids
  refine ⟨hfield, hids, ?_, fun heq => ?_⟩
  · obtain ⟨text, parts, htext, hparts, hlength, hpart⟩ := hread (by decide)
    exact ⟨text, parts, htext, hparts, hlength, hpart 0 (by decide), hpart 2 (by decide)⟩
  · exact absurd (hinjective _ hothers (by decide) (by decide) heq) (by decide)

end ChantSearch.Proofs

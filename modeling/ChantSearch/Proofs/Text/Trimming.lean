import ChantSearch.Proofs.Grammar.Derivation
import ChantSearch.Text.Blank

/-!
# Trimming

A trimmed text has lost the blanks around it and nothing else.
-/

namespace ChantSearch.Proofs

lemma trimEnd_append {word after : List Char} (hafter : ∀ x ∈ after, Text.isBlank x = true)
    (hword : EndsWith (fun x => !Text.isBlank x) word) : Text.trimEnd (word ++ after) = word := by
  obtain ⟨front, x, rfl, hx⟩ := hword
  have hstop : Stops Text.isBlank (front ++ [x]).reverse := by
    rw [List.reverse_append]
    exact stops_cons.mpr (by simpa using hx)
  have hrun := span_run (fun x hx => hafter x (List.mem_reverse.mp hx)) hstop
  rw [Text.trimEnd, List.reverse_append, hrun.2, List.reverse_reverse]

/-- A trimmed text has lost exactly the blanks around it. -/
lemma trim_eq {text : String} {before word after : List Char}
    (htext : text.toList = before ++ (word ++ after))
    (hbefore : ∀ x ∈ before, Text.isBlank x = true) (hafter : ∀ x ∈ after, Text.isBlank x = true)
    (hbegins : Stops Text.isBlank (word ++ after))
    (hends : EndsWith (fun x => !Text.isBlank x) word) :
    (Text.trim text).toList = word := by
  rw [Text.trim, htext, (span_run hbefore hbegins).2, trimEnd_append hafter hends,
    String.toList_ofList]

lemma trim_split (text : String) :
    ∃ before after, text.toList = before ++ ((Text.trim text).toList ++ after) ∧
      (∀ x ∈ before, Text.isBlank x = true) ∧ ∀ x ∈ after, Text.isBlank x = true := by
  let inner := text.toList.dropWhile Text.isBlank
  refine ⟨text.toList.takeWhile Text.isBlank, (inner.reverse.takeWhile Text.isBlank).reverse, ?_,
    fun x hx => List.mem_takeWhile_imp hx,
    fun x hx => List.mem_takeWhile_imp (List.mem_reverse.mp hx)⟩
  rw [Text.trim, String.toList_ofList, Text.trimEnd, ← List.reverse_append,
    List.takeWhile_append_dropWhile, List.reverse_reverse, List.takeWhile_append_dropWhile]

end ChantSearch.Proofs

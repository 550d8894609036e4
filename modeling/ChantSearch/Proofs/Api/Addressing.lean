import ChantSearch.Api.Search
import ChantSearch.Proofs.Outcomes

/-!
# Paths of resources

A path designates a resource if its plural is all that the path holds between the slashes at
its ends. No plural holds a slash, so a path with a slash further inside designates none.
-/

namespace ChantSearch.Proofs
open Api

/-- What a path holds between the slashes at its ends. -/
structure Inner (path : String) (word : List Char) : Prop where
  split : ∃ before after,
    path.toList = List.replicate before '/' ++ word ++ List.replicate after '/'
  head : word.head? ≠ some '/'
  last : word.getLast? ≠ some '/'

/-- The resources that have a path. -/
def knownResources : List Resource :=
  Resource.everything :: Resource.all

structure Designates (path : String) (resource : Resource) : Prop where
  known : resource ∈ knownResources
  inner : Inner path resource.plural.toList

variable {path : String} {word : List Char} {resource : Resource}

lemma exists_replicate_append_dropWhile (cs : List Char) :
    ∃ n, cs = List.replicate n '/' ++ cs.dropWhile (· == '/') := by
  refine ⟨(cs.takeWhile (· == '/')).length, ?_⟩
  have hall : cs.takeWhile (· == '/') = List.replicate (cs.takeWhile (· == '/')).length '/' :=
    List.eq_replicate_of_mem fun c hc => by simpa using List.mem_takeWhile_imp hc
  conv_lhs => rw [← List.takeWhile_append_dropWhile (p := (· == '/')) (l := cs), hall]

lemma head?_dropWhile_ne (cs : List Char) : (cs.dropWhile (· == '/')).head? ≠ some '/' := by
  intro h
  have hnot := List.head?_dropWhile_not (· == '/') cs
  simp [h] at hnot

lemma dropWhile_replicate_append (n : Nat) (cs : List Char) :
    (List.replicate n '/' ++ cs).dropWhile (· == '/') = cs.dropWhile (· == '/') := by
  induction n with
  | zero => rfl
  | succ n ih => simp [List.replicate_succ, ih]

lemma dropWhile_eq_self (h : word.head? ≠ some '/') : word.dropWhile (· == '/') = word := by
  cases word with
  | nil => rfl
  | cons c cs =>
    have hc : c ≠ '/' := by simpa using h
    simp [hc]

lemma inner_trimSlashes (path : String) : Inner path (trimSlashes path.toList) := by
  obtain ⟨before, hbefore⟩ := exists_replicate_append_dropWhile path.toList
  set behind := path.toList.dropWhile (· == '/') with hbehind
  obtain ⟨after, hafter⟩ := exists_replicate_append_dropWhile behind.reverse
  have hsplit : behind = trimSlashes path.toList ++ List.replicate after '/' := by
    have hreverse := congrArg List.reverse hafter
    rw [List.reverse_reverse, List.reverse_append, List.reverse_replicate] at hreverse
    exact hreverse
  refine ⟨⟨before, after, ?_⟩, ?_, ?_⟩
  · rw [List.append_assoc, ← hsplit]
    exact hbefore
  · intro hhead
    have hne := head?_dropWhile_ne path.toList
    rw [← hbehind, hsplit, List.head?_append, hhead] at hne
    exact hne rfl
  · rw [trimSlashes, List.getLast?_reverse]
    exact head?_dropWhile_ne _

/-- There is only one thing that a path holds between its outer slashes. -/
lemma Inner.eq_trimSlashes (h : Inner path word) : trimSlashes path.toList = word := by
  obtain ⟨⟨before, after, hsplit⟩, hhead, hlast⟩ := h
  rw [trimSlashes, hsplit, List.append_assoc, dropWhile_replicate_append]
  cases word with
  | nil =>
    have hslashes := dropWhile_replicate_append after []
    simp only [List.append_nil, List.dropWhile_nil] at hslashes
    simp [hslashes]
  | cons c cs =>
    have hword : (c :: cs ++ List.replicate after '/').dropWhile (· == '/') =
        c :: cs ++ List.replicate after '/' := dropWhile_eq_self (by simpa using hhead)
    rw [hword, List.reverse_append, List.reverse_replicate, dropWhile_replicate_append,
      dropWhile_eq_self (by rwa [List.head?_reverse]), List.reverse_reverse]

lemma ofPlural?_eq_some_iff {plural : String} :
    Resource.ofPlural? plural = some resource ↔
      resource ∈ knownResources ∧ resource.plural = plural := by
  constructor
  · intro h
    exact ⟨List.mem_of_find?_eq_some h, by simpa using List.find?_some h⟩
  · rintro ⟨hknown, rfl⟩
    have hall : ∀ resource ∈ knownResources,
        Resource.ofPlural? resource.plural = some resource := by decide
    exact hall resource hknown

lemma Designates.no_slash (h : Designates path resource) : '/' ∉ resource.plural.toList := by
  have hall : ∀ resource ∈ knownResources, '/' ∉ resource.plural.toList := by decide
  exact hall resource h.known

/-- Why there is no resource at a path. -/
inductive Unaddressed (path : String) : Refusal → Prop
  | slashInside {word : List Char} (hword : Inner path word) (hslash : '/' ∈ word) :
      Unaddressed path (.notSearchable path)
  | unknown {word : List Char} (hword : Inner path word) (hslash : '/' ∉ word)
      (hunknown : ∀ resource ∈ knownResources, resource.plural.toList ≠ word) :
      Unaddressed path (.noResource path)

lemma told_resourceAt (path : String) :
    Told (resourceAt path) (Designates path) (Unaddressed path) := by
  refine told_of_total (fun resource h => ?_) (fun refusal h => ?_) ?_
  · have hfound : Resource.ofPlural? resource.plural = some resource :=
      ofPlural?_eq_some_iff.mpr ⟨h.known, rfl⟩
    simp [resourceAt, h.inner.eq_trimSlashes, h.no_slash, hfound]
  · cases h with
    | slashInside hword hslash => simp [resourceAt, hword.eq_trimSlashes, hslash]
    | @unknown word hword hslash hunknown =>
      have hnone : Resource.ofPlural? (String.ofList word) = none := by
        rw [Option.eq_none_iff_forall_ne_some]
        intro resource hsome
        obtain ⟨hknown, hplural⟩ := ofPlural?_eq_some_iff.mp hsome
        exact hunknown resource hknown (by rw [hplural, String.toList_ofList])
      simp [resourceAt, hword.eq_trimSlashes, hslash, hnone]
  · have hinner := inner_trimSlashes path
    by_cases hslash : '/' ∈ trimSlashes path.toList
    · exact .inr ⟨_, .slashInside hinner hslash⟩
    by_cases hknown : ∃ resource ∈ knownResources,
        resource.plural.toList = trimSlashes path.toList
    · obtain ⟨resource, hknown, hplural⟩ := hknown
      exact .inl ⟨resource, hknown, hplural ▸ hinner⟩
    · refine .inr ⟨_, .unknown hinner hslash fun resource hmem hplural => ?_⟩
      exact hknown ⟨resource, hmem, hplural⟩

end ChantSearch.Proofs

import Mathlib
import ChantSearch.Json.Value

/-!
# Members of objects

Sorted members hold each name once, and under it the value that was given last.
-/

namespace ChantSearch.Proofs
open Json

variable {α : Type} {name other : String} {value : α} {members sorted : List (String × α)}

/-- The members stand in the order of their names, each name once. -/
def SortedNames (members : List (String × α)) : Prop :=
  (members.map Prod.fst).Pairwise (· < ·)

lemma SortedNames.nodup (h : SortedNames members) : (members.map Prod.fst).Nodup :=
  h.imp ne_of_lt

lemma lookup_cons_ite (name : String) (value : α) (members : List (String × α))
    (other : String) :
    ((name, value) :: members).lookup other =
      if other = name then some value else members.lookup other := by
  rw [List.lookup_cons]
  split_ifs with heq
  · simp [heq]
  · simp [beq_false_of_ne heq]

lemma lookup_insertMember (name : String) (value : α) (members : List (String × α))
    (other : String) :
    (insertMember name value members).lookup other =
      if other = name then some value else members.lookup other := by
  induction members with
  | nil => exact lookup_cons_ite name value [] other
  | cons member members ih =>
    obtain ⟨key, old⟩ := member
    rw [insertMember]
    split
    · next heq => grind [lookup_cons_ite]
    · next hne =>
        split
        · exact lookup_cons_ite ..
        · grind [lookup_cons_ite]

lemma mem_names_iff : other ∈ members.map Prod.fst ↔ (members.lookup other).isSome := by
  induction members with
  | nil => simp
  | cons member members ih =>
    obtain ⟨key, value⟩ := member
    rw [lookup_cons_ite, List.map_cons, List.mem_cons, ih]
    split_ifs with heq <;> simp [heq]

lemma mem_insertMember_names :
    other ∈ (insertMember name value members).map Prod.fst ↔
      other = name ∨ other ∈ members.map Prod.fst := by
  rw [mem_names_iff, mem_names_iff, lookup_insertMember]
  split_ifs with heq <;> simp [heq]

lemma eq_or_mem_of_mem_insertMember {old : α}
    (h : (other, old) ∈ insertMember name value members) :
    other = name ∧ old = value ∨ (other, old) ∈ members := by
  induction members with
  | nil => simpa [insertMember] using h
  | cons member members ih =>
    obtain ⟨key, first⟩ := member
    rw [insertMember] at h
    split_ifs at h with heq hlt
    · rcases List.mem_cons.mp h with hnew | hrest
      · exact .inl (Prod.mk.inj hnew)
      · exact .inr (List.mem_cons_of_mem _ hrest)
    · rcases List.mem_cons.mp h with hnew | hrest
      · exact .inl (Prod.mk.inj hnew)
      · exact .inr hrest
    · rcases List.mem_cons.mp h with hfirst | hrest
      · exact .inr (hfirst ▸ List.mem_cons_self)
      · exact (ih hrest).imp_right (List.mem_cons_of_mem _)

lemma SortedNames.insertMember (h : SortedNames members) (name : String) (value : α) :
    SortedNames (insertMember name value members) := by
  induction members with
  | nil => simp [SortedNames, Json.insertMember]
  | cons member members ih =>
    obtain ⟨key, old⟩ := member
    obtain ⟨hfirst, hrest⟩ := List.pairwise_cons.mp h
    rw [Json.insertMember]
    split
    · next heq =>
        subst heq
        exact h
    · next hne =>
        split
        · next hlt =>
            refine List.pairwise_cons.mpr ⟨?_, h⟩
            rintro other (_ | ⟨_, hother⟩)
            · exact hlt
            · exact lt_trans hlt (hfirst other hother)
        · next hnot =>
            refine List.pairwise_cons.mpr ⟨fun other hother => ?_, ih hrest⟩
            rcases mem_insertMember_names.mp hother with rfl | hother
            · exact lt_of_le_of_ne (not_lt.mp hnot) (Ne.symm hne)
            · exact hfirst other hother

lemma lookup_append (members more : List (String × α)) (other : String) :
    (members ++ more).lookup other = (members.lookup other).or (more.lookup other) := by
  induction members with
  | nil => rfl
  | cons member members ih =>
    obtain ⟨key, value⟩ := member
    rw [List.cons_append, lookup_cons_ite, lookup_cons_ite, ih]
    split_ifs <;> rfl

lemma foldl_insertMember (members sorted : List (String × α)) (hsorted : SortedNames sorted) :
    let all := members.foldl (fun sorted (name, value) => insertMember name value sorted) sorted
    SortedNames all ∧ ∀ name, all.lookup name = (members.reverse ++ sorted).lookup name := by
  induction members generalizing sorted with
  | nil => exact ⟨hsorted, fun _ => rfl⟩
  | cons member members ih =>
    obtain ⟨key, value⟩ := member
    obtain ⟨hall, hlookup⟩ := ih _ (hsorted.insertMember key value)
    refine ⟨hall, fun name => ?_⟩
    rw [List.foldl_cons, hlookup, List.reverse_cons, List.append_assoc, lookup_append,
      lookup_append, lookup_insertMember, List.singleton_append, lookup_cons_ite]

lemma sortedNames_sortMembers (members : List (String × α)) : SortedNames (sortMembers members) :=
  (foldl_insertMember members [] .nil).1

/-- The value given last for a name stays. -/
lemma lookup_sortMembers (members : List (String × α)) (name : String) :
    (sortMembers members).lookup name = members.reverse.lookup name := by
  have hlookup := (foldl_insertMember members [] .nil).2 name
  rwa [List.append_nil] at hlookup

lemma mem_sortMembers_names :
    name ∈ (sortMembers members).map Prod.fst ↔ name ∈ members.map Prod.fst := by
  rw [mem_names_iff, lookup_sortMembers, ← mem_names_iff, List.map_reverse, List.mem_reverse]

lemma lookup_eq_some_of_mem (hnodup : (members.map Prod.fst).Nodup)
    (hmem : (name, value) ∈ members) : members.lookup name = some value := by
  induction members with
  | nil => cases hmem
  | cons member members ih =>
    obtain ⟨key, old⟩ := member
    obtain ⟨hfresh, hnodup⟩ := List.nodup_cons.mp hnodup
    rw [lookup_cons_ite]
    rcases List.mem_cons.mp hmem with heq | hrest
    · cases heq
      simp
    · have hne : name ≠ key := by
        rintro rfl
        exact hfresh (List.mem_map.mpr ⟨_, hrest, rfl⟩)
      rw [if_neg hne, ih hnodup hrest]

end ChantSearch.Proofs

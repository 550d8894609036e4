import ChantSearch.Proofs.Grammar.Operators

/-!
# What the evaluation accepts has a derivation

Rule by rule, a parser that succeeds has read a phrase of the grammar. The parser for groups
is a parameter of the rules that use it, and the nesting depth is the induction.
-/

namespace ChantSearch.Proofs
open Query Query.Parser

variable {c d : Cursor}

lemma separator_sound {k? : Option Connective} (h : (separator c).result = some (k?, d)) :
    Separator c k? d := by
  rcases orElse_cases h with h | h
  · obtain ⟨_, e, he, h⟩ := bind_eq_some_iff.mp h
    obtain ⟨k, f, hk, h⟩ := bind_eq_some_iff.mp h
    obtain ⟨_, hf, rfl⟩ := bind_pure_eq_some_iff.mp h
    exact .connective (blanks_eq_some_iff.mp he).1 (connective_eq_some_iff.mp hk)
      (blanks_eq_some_iff.mp hf).1
  · obtain ⟨x, e, he, h⟩ := bind_eq_some_iff.mp h
    obtain ⟨_, hd, rfl⟩ := bind_pure_eq_some_iff.mp h
    obtain ⟨hx, hread⟩ := satisfying_eq_some_iff.mp he
    obtain ⟨word, hword, hread'⟩ := (blanks_eq_some_iff.mp hd).1
    refine .blanks (by simp) (fun y hy => ?_) (hread.append hread')
    rcases List.mem_cons.mp hy with rfl | hy
    · exact hx
    · exact hword y hy

lemma namedField_parts {group : Parser Tree} {r : Option String × Value}
    (h : (namedField group c).result = some (r, d)) :
    ∃ name e f v, r = (some (String.ofList name), v) ∧ FieldName name ∧ Reads c name e ∧
      Reads e [':'] f ∧ (fieldValue group f).result = some (v, d) := by
  rw [namedField, result_rule] at h
  obtain ⟨s, e, hname, h⟩ := bind_eq_some_iff.mp h
  obtain ⟨_, f, hcolon, h⟩ := bind_eq_some_iff.mp h
  obtain ⟨v, hvalue, rfl⟩ := bind_pure_eq_some_iff.mp h
  obtain ⟨name, rfl, hname, hread, _⟩ := fieldName_eq_some_iff.mp hname
  exact ⟨name, e, f, v, rfl, hname, hread, characters_eq_some_iff.mp hcolon, hvalue⟩

/-- A parser that reads groups only where they have derivations. -/
def GroupsSound (group : Parser Tree) : Prop :=
  ∀ {c d members}, (group c).result = some (members, d) → Derives c (.group members) d

section Rules

variable {group : Parser Tree} (hgroup : GroupsSound group)
include hgroup

lemma fieldValue_sound {v : Value} (h : (fieldValue group c).result = some (v, d)) :
    Derives c (.value v) d := by
  unfold fieldValue at h
  rw [result_rule] at h
  rcases orElse_cases h with h | h
  · obtain ⟨s, hs, rfl⟩ := bind_pure_eq_some_iff.mp h
    obtain ⟨word, rfl, hword, hread⟩ := quotedText_eq_some_iff.mp hs
    exact .quotedText hword hread
  · rcases orElse_cases h with h | h
    · obtain ⟨s, hs, rfl⟩ := bind_pure_eq_some_iff.mp h
      obtain ⟨word, rfl, hword, hread, hend⟩ := text_eq_some_iff.mp hs
      exact .text hword hread hend
    · obtain ⟨members, hmembers, rfl⟩ := bind_pure_eq_some_iff.mp h
      exact .groupedTermList (hgroup hmembers)

lemma field_sound {name? : Option String} {v : Value}
    (h : (orElse (namedField group) (defaultField group) c).result = some ((name?, v), d)) :
    Derives c (.field name? v) d := by
  rcases orElse_cases h with h | h
  · obtain ⟨name, e, f, w, heq, hname, hread, hcolon, hvalue⟩ := namedField_parts h
    obtain ⟨rfl, rfl⟩ := Prod.mk.inj heq
    exact .namedField hname hread hcolon (fieldValue_sound hgroup hvalue)
  · rw [defaultField, result_rule] at h
    obtain ⟨w, hvalue, heq⟩ := bind_pure_eq_some_iff.mp h
    obtain ⟨rfl, rfl⟩ := Prod.mk.inj heq
    exact .defaultField (fieldValue_sound hgroup hvalue)

lemma term_sound {node : Node Span} (h : (term group c).result = some (node, d)) :
    Derives c (.term node) d := by
  unfold term at h
  rw [result_rule] at h
  obtain ⟨_, e, habsent, h⟩ := bind_eq_some_iff.mp h
  obtain ⟨hkeyword, rfl⟩ := absent_eq_some_iff.mp habsent
  obtain ⟨start, f, hstart, h⟩ := bind_eq_some_iff.mp h
  obtain ⟨rfl, rfl⟩ := offset_eq_some_iff.mp hstart
  obtain ⟨sign?, f, hsign, h⟩ := bind_eq_some_iff.mp h
  obtain ⟨⟨name?, v⟩, g, hfield, h⟩ := bind_eq_some_iff.mp h
  obtain ⟨stop, hstop, rfl⟩ := bind_pure_eq_some_iff.mp h
  obtain ⟨rfl, rfl⟩ := offset_eq_some_iff.mp hstop
  refine .term (keyword_eq_none_iff.mp hkeyword) ?_ (field_sound hgroup hfield)
  rcases optional_eq_some_iff.mp hsign with ⟨s, rfl, hs⟩ | ⟨rfl, rfl, _⟩
  · exact .signed (sign_eq_some_iff.mp hs)
  · exact .unsigned _

lemma many_furtherTerm_sound {limit : Nat} {chunks : List Tree}
    (h : (many limit (furtherTerm group) c).result = some (chunks, d)) :
    Derives c (.further chunks.flatten) d := by
  induction limit generalizing c chunks with
  | zero =>
    obtain ⟨rfl, rfl⟩ := Prod.mk.inj (Option.some.inj h)
    exact .lastTerm c
  | succ limit ih =>
    rcases many_succ_cases h with ⟨rfl, rfl⟩ | ⟨chunk, next, others, hchunk, hothers, rfl⟩
    · exact .lastTerm c
    · unfold furtherTerm at hchunk
      obtain ⟨k?, e, hsep, hchunk⟩ := bind_eq_some_iff.mp hchunk
      obtain ⟨node, hterm, rfl⟩ := bind_pure_eq_some_iff.mp hchunk
      have hmore := Derives.furtherTerm (separator_sound hsep) (term_sound hgroup hterm) (ih hothers)
      simpa using hmore

lemma termList_sound {limit : Nat} {nodes : Tree}
    (h : (termList limit group c).result = some (nodes, d)) : Derives c (.termList nodes) d := by
  unfold termList at h
  rw [result_rule] at h
  obtain ⟨first, e, hfirst, h⟩ := bind_eq_some_iff.mp h
  obtain ⟨chunks, hchunks, rfl⟩ := bind_pure_eq_some_iff.mp h
  exact .termList (term_sound hgroup hfirst) (many_furtherTerm_sound hgroup hchunks)

end Rules

lemma groupedTermList_sound (limit depth : Nat) : GroupsSound (groupedTermList limit depth) := by
  induction depth with
  | zero =>
    intro c d members h
    rw [groupedTermList, result_rule, result_fail] at h
    exact absurd h (by simp)
  | succ depth ih =>
    intro c d members h
    unfold groupedTermList at h
    rw [result_rule] at h
    obtain ⟨_, e, hopen, h⟩ := bind_eq_some_iff.mp h
    obtain ⟨_, f, hbefore, h⟩ := bind_eq_some_iff.mp h
    obtain ⟨nodes, g, hnodes, h⟩ := bind_eq_some_iff.mp h
    obtain ⟨_, k, hafter, h⟩ := bind_eq_some_iff.mp h
    obtain ⟨_, hclose, rfl⟩ := bind_pure_eq_some_iff.mp h
    exact .group (characters_eq_some_iff.mp hopen) (blanks_eq_some_iff.mp hbefore).1
      (termList_sound ih hnodes) (blanks_eq_some_iff.mp hafter).1
      (characters_eq_some_iff.mp hclose)

/-- A query that the grammar is evaluated to has a derivation. -/
theorem query_sound {limit depth : Nat} {raw : String} {tree : Tree}
    (h : (query limit depth (.ofString raw)).result = some (tree, d)) : DerivesQuery raw tree := by
  unfold Query.query at h
  rw [result_rule] at h
  obtain ⟨_, e, hbefore, h⟩ := bind_eq_some_iff.mp h
  obtain ⟨nodes, f, hnodes, h⟩ := bind_eq_some_iff.mp h
  obtain ⟨_, g, hafter, h⟩ := bind_eq_some_iff.mp h
  obtain ⟨_, hend, rfl⟩ := bind_pure_eq_some_iff.mp h
  rw [result_rule] at hend
  exact .query (blanks_eq_some_iff.mp hbefore).1
    (termList_sound (groupedTermList_sound limit depth) hnodes) (blanks_eq_some_iff.mp hafter).1
    (atEnd_eq_some_iff.mp hend).2

end ChantSearch.Proofs

import ChantSearch.Proofs.Grammar.Completeness
import ChantSearch.Proofs.Grammar.Nesting

/-!
# The queries that are accepted

Parsing accepts the texts that have a derivation whose groups nest no deeper than the limit,
and gives the tree of that derivation. A text has at most one.
-/

namespace ChantSearch.Proofs
open Query

variable {raw : String} {tree other : Tree}

lemma DerivesQuery.unique (h : DerivesQuery raw tree) (h' : DerivesQuery raw other) :
    other = tree := by
  obtain ⟨d, hd⟩ := h.evaluates
  obtain ⟨e, he⟩ := h'.evaluates
  exact (Prod.mk.inj (Option.some.inj (he.symm.trans hd))).1

lemma DerivesQuery.tooDeepAt_eq_none (h : DerivesQuery raw tree)
    (hdepth : Node.depthList tree ≤ maxDepth) : tooDeepAt raw.toList = none := by
  rw [← Option.not_isSome_iff_eq_none, h.tooDeepAt_isSome_iff]
  omega

lemma DerivesQuery.parse_eq (h : DerivesQuery raw tree)
    (hdepth : Node.depthList tree ≤ maxDepth) : parse raw = .ok tree := by
  obtain ⟨d, hd⟩ := h.evaluates
  rw [parse, h.tooDeepAt_eq_none hdepth]
  split
  · rename_i heq
    exact absurd heq (by simp)
  · split
    · rename_i found _ _ heq
      rw [heq] at hd
      rw [(Prod.mk.inj (Option.some.inj hd)).1]
    · rename_i heq
      rw [heq] at hd
      exact absurd hd (by simp)

lemma derivesQuery_of_parse (h : parse raw = .ok tree) : DerivesQuery raw tree := by
  rw [parse] at h
  split at h
  · exact absurd h (by simp)
  · split at h
    · rename_i heq
      obtain rfl := Except.ok.inj h
      exact query_sound (congrArg Outcome.result heq)
    · exact absurd h (by simp)

lemma depth_of_parse (h : parse raw = .ok tree) : Node.depthList tree ≤ maxDepth := by
  have hderives := derivesQuery_of_parse h
  by_contra hlt
  have hdeep := hderives.tooDeepAt_isSome_iff.mpr (by omega)
  rw [parse] at h
  split at h
  · exact absurd h (by simp)
  · rename_i hnone
    rw [hnone] at hdeep
    exact absurd hdeep (by simp)

/-- A text is parsed to a tree if and only if it has a derivation with that tree, byte ranges
included, whose groups nest at most 32 deep. No text has derivations with different trees, the
evaluation loses none of them, and the depth guard refuses a derivable text exactly when its
groups nest deeper. -/
theorem parse_ok_iff_derives (raw : String) (tree : Tree) :
    (parse raw = .ok tree ↔ DerivesQuery raw tree ∧ Node.depthList tree ≤ 32) ∧
      (DerivesQuery raw tree →
        (∀ other, DerivesQuery raw other → other = tree) ∧
        (∃ d, (evaluate raw.toList).result = some (tree, d)) ∧
        ((tooDeepAt raw.toList).isSome = true ↔ 32 < Node.depthList tree)) :=
  ⟨⟨fun h => ⟨derivesQuery_of_parse h, depth_of_parse h⟩, fun ⟨h, hdepth⟩ => h.parse_eq hdepth⟩,
    fun h => ⟨fun _ => h.unique, h.evaluates, h.tooDeepAt_isSome_iff⟩⟩

set_option maxRecDepth 10000 in
theorem derivesQuery_signed_group :
    DerivesQuery "-x:(a b)" [.group ⟨some .minus, some "x", ⟨0, 8⟩⟩
        [.literal ⟨none, none, ⟨4, 5⟩⟩ "a", .literal ⟨none, none, ⟨6, 7⟩⟩ "b"]] ∧
      ∀ other, DerivesQuery "-x:(a b)" other → other = [.group ⟨some .minus, some "x", ⟨0, 8⟩⟩
        [.literal ⟨none, none, ⟨4, 5⟩⟩ "a", .literal ⟨none, none, ⟨6, 7⟩⟩ "b"]] := by
  have hparse : parse "-x:(a b)" = .ok [.group ⟨some .minus, some "x", ⟨0, 8⟩⟩
      [.literal ⟨none, none, ⟨4, 5⟩⟩ "a", .literal ⟨none, none, ⟨6, 7⟩⟩ "b"]] := by
    cbv
  have hderives := ((parse_ok_iff_derives _ _).1.mp hparse).1
  exact ⟨hderives, ((parse_ok_iff_derives _ _).2 hderives).1⟩

end ChantSearch.Proofs

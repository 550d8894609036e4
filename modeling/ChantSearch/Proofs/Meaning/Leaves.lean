import ChantSearch.Proofs.Grammar.Acceptance
import ChantSearch.Proofs.Grammar.Spans
import ChantSearch.Proofs.Meaning.Evaluation
import ChantSearch.Proofs.Resolution.Refinement

/-!
# The leaves of a query

The leaves of a query are where its reading starts. Resolution looks up those of cross-referenced
fields, in their order and nothing else. In a parsed query no leaf occurs twice, for they begin at
different places.
-/

namespace ChantSearch.Proofs
open Query Resolution

variable {μ : Type} {schema : Schema} {tree : Tree}

/-- What is asked for a term of a cross-referenced field. -/
structure Lookup where
  field : String
  query : String
  ref : CrossRef

def lookupOf (schema : Schema) : Node μ → Option Lookup
  | .connective _ => none
  | .literal head text =>
    (crossRefOf schema head).map fun (name, ref) => ⟨name, ofType ref.resourceType text, ref⟩
  | .group head members =>
    (crossRefOf schema head).map fun (name, ref) =>
      ⟨name, render (flatten [.group (unsigned head) members]), ref⟩

def slotLookup? : Slot → Option Lookup
  | .keep _ => none
  | .value field text ref => some ⟨field, ofType ref.resourceType text, ref⟩
  | .group field subquery ref => some ⟨field, subquery, ref⟩

lemma filterMap_keep (cs : List Component) : (cs.map Slot.keep).filterMap slotLookup? = [] := by
  simp [slotLookup?, List.filterMap_eq_nil_iff]

mutual

lemma lookups_nodeSlots : ∀ node : Node μ, (nodeSlots schema node).filterMap slotLookup? =
    (nodeLeaves schema node).filterMap (lookupOf schema)
  | .connective k => rfl
  | .literal head text => by
    rw [nodeSlots, nodeLeaves, List.filterMap_append, filterMap_keep]
    cases href : crossRefOf schema head <;> simp [slotLookup?, lookupOf, href]
  | .group head members => by
    rw [nodeSlots, List.filterMap_append, filterMap_keep]
    cases href : crossRefOf schema head with
    | some found => simp [nodeLeaves_lookedUp href, slotLookup?, lookupOf, href]
    | none =>
      simp only
      rw [nodeLeaves_group href, ← lookups_nodesSlots members, List.filterMap_append,
        filterMap_keep, List.filterMap_append]
      simp [slotLookup?]

/-- The lookups of a query are those of its leaves, in their order. -/
lemma lookups_nodesSlots : ∀ nodes : List (Node μ),
    (nodesSlots schema nodes).filterMap slotLookup? =
      (leaves schema nodes).filterMap (lookupOf schema)
  | [] => rfl
  | node :: nodes => by
    rw [nodesSlots, leaves, List.filterMap_append, List.filterMap_append, lookups_nodeSlots node,
      lookups_nodesSlots nodes]

end

def startOf : Node Span → Nat
  | .connective _ => 0
  | .literal head _ => head.mark.start
  | .group head _ => head.mark.start

/-- The terms begin between the places, one after the other. -/
structure Ascending (lo hi : Nat) (terms : List (Node Span)) : Prop where
  pairwise : terms.Pairwise fun s t => startOf s < startOf t
  bounds : ∀ t ∈ terms, lo ≤ startOf t ∧ startOf t < hi

variable {lo mid hi : Nat} {node : Node Span}

lemma Ascending.nil : Ascending lo hi [] :=
  ⟨.nil, by simp⟩

lemma Ascending.append {ts us : List (Node Span)} (hts : Ascending lo mid ts)
    (hus : Ascending mid hi us) (hlo : lo ≤ mid) (hhi : mid ≤ hi) :
    Ascending lo hi (ts ++ us) := by
  constructor
  · refine List.pairwise_append.mpr ⟨hts.pairwise, hus.pairwise, fun t ht u hu => ?_⟩
    exact (hts.bounds t ht).2.trans_le (hus.bounds u hu).1
  · intro t ht
    rcases List.mem_append.mp ht with ht | ht
    · exact ⟨(hts.bounds t ht).1, (hts.bounds t ht).2.trans_le hhi⟩
    · exact ⟨hlo.trans (hus.bounds t ht).1, (hus.bounds t ht).2⟩

lemma Ascending.single (hlo : lo ≤ startOf node) (hhi : startOf node < hi) :
    Ascending lo hi [node] :=
  ⟨List.pairwise_singleton _ _, by simp [hlo, hhi]⟩

lemma Ascending.mono {lo' hi' : Nat} {ts : List (Node Span)} (h : Ascending lo hi ts)
    (hlo : lo' ≤ lo) (hhi : hi ≤ hi') : Ascending lo' hi' ts :=
  ⟨h.pairwise, fun t ht => ⟨hlo.trans (h.bounds t ht).1, (h.bounds t ht).2.trans_le hhi⟩⟩

mutual

lemma NodeWithin.ascending : ∀ (node : Node Span) {lo hi : Nat}, NodeWithin lo hi node →
    Ascending lo (behind lo node) (nodeLeaves schema node)
  | .connective _, _, _, _ => .nil
  | .literal _ _, _, _, h => .single h.lo_le (Nat.lt_succ_of_lt h.lt)
  | .group head members, _, _, h => by
    cases href : crossRefOf schema head with
    | some found =>
      rw [nodeLeaves_lookedUp href]
      exact .single h.1.lo_le (Nat.lt_succ_of_lt h.1.lt)
    | none =>
      rw [nodeLeaves_group href]
      refine (Within.ascending members h.2).mono (h.1.lo_le.trans (Nat.le_succ _)) ?_
      rw [behind]
      omega

/-- The leaves of a query stand in the order of its text. -/
lemma Within.ascending : ∀ (nodes : Tree) {lo hi : Nat}, Within lo hi nodes →
    Ascending lo (hi + 1) (leaves schema nodes)
  | [], _, _, _ => .nil
  | node :: nodes, _, _, h => by
    have hbounds := h.1.behind_bounds
    exact (NodeWithin.ascending node h.1).append (Within.ascending nodes h.2) hbounds.1 hbounds.2

end

lemma leaves_nodup {raw : String} (hparse : parse raw = .ok tree) :
    (leaves schema tree).Nodup :=
  (Within.ascending tree (derivesQuery_of_parse hparse).within).pairwise.imp fun hlt heq =>
    hlt.ne (congrArg startOf heq)

end ChantSearch.Proofs

import ChantSearch.Proofs.Resolution.Plan

/-!
# Resolution refines the resolver on trees

To ask for the slots of a tree one after the other is to resolve the tree. So resolution, which
walks through the components and counts parentheses, agrees with the resolver that never sees
one.
-/

namespace ChantSearch.Proofs
open Index Query Resolution

variable {μ : Type} {schema : Schema} {service : Service}

/-- The requests of slots, and what fills them. -/
def inquire (service : Service) (slots : List Slot) : Inquiry QueryError (List Component) :=
  ⟨slots.filterMap Slot.request?, slots.mapM (Slot.fill service)⟩

lemma resolve_eq_inquire {cs : List Component} {slots : List Slot}
    (h : slotsOf schema cs = .ok slots) : resolve schema service cs = inquire service slots := by
  unfold resolve inquire
  rw [h]

lemma slotsOf_of_parse {raw : String} {tree : Tree} (hparse : parse raw = .ok tree) :
    slotsOf schema (flatten tree) = .ok (nodesSlots schema tree) :=
  (plans_flatten tree (wellFormed_of_parse hparse).fieldLiteralsNonempty).slotsOf_eq

lemma inquire_append (slots slots' : List Slot) :
    inquire service (slots ++ slots') =
      followedBy (inquire service slots) (inquire service slots') := by
  simp only [inquire, followedBy, List.filterMap_append, List.mapM_append]

lemma inquire_keep (cs : List Component) : inquire service (cs.map .keep) = settled cs := by
  induction cs with
  | nil => rfl
  | cons c cs ih =>
    have happend := @inquire_append service [.keep c] (cs.map .keep)
    rw [ih] at happend
    exact happend

lemma inquire_lookup {slot : Slot} {name query : String} {make : List String → Component}
    (hrequest : slot.request? = some (.ofQuery query))
    (hfill : slot.fill service = (idsFor service name query).map make) :
    inquire service [slot] = lookedUp service name query make := by
  unfold inquire lookedUp
  rw [List.filterMap_cons, hrequest, List.filterMap_nil, List.mapM_cons, List.mapM_nil, hfill]
  cases idsFor service name query <;> rfl

mutual

lemma inquire_nodeSlots :
    ∀ node : Node μ, inquire service (nodeSlots schema node) = resolveNode schema service node
  | .connective c => inquire_keep [_]
  | .literal head text => by
    rw [nodeSlots, resolveNode, inquire_append, inquire_keep]
    cases crossRefOf schema head with
    | none => exact congrArg _ (inquire_keep [_])
    | some found => exact congrArg _ (inquire_lookup rfl rfl)
  | .group head members => by
    rw [nodeSlots, resolveNode, inquire_append, inquire_keep]
    cases crossRefOf schema head with
    | none =>
      have hclose : inquire service [.keep (.marker .closing)] = settled [.marker .closing] :=
        inquire_keep [_]
      simp only [inquire_append, inquire_keep, inquire_nodesSlots members, hclose]
    | some found => exact congrArg _ (inquire_lookup rfl rfl)

lemma inquire_nodesSlots :
    ∀ nodes : List (Node μ),
      inquire service (nodesSlots schema nodes) = resolveNodes schema service nodes
  | [] => rfl
  | node :: nodes => by
    rw [nodesSlots, resolveNodes, inquire_append, inquire_nodeSlots node,
      inquire_nodesSlots nodes]

end

lemma resolveNodes_append (ts us : List (Node μ)) :
    resolveNodes schema service (ts ++ us) =
      followedBy (resolveNodes schema service ts) (resolveNodes schema service us) := by
  simp only [← inquire_nodesSlots, nodesSlots_append, inquire_append]

end ChantSearch.Proofs

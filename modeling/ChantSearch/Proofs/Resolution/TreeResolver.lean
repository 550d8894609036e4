import ChantSearch.Proofs.Rendering.RoundTrip
import ChantSearch.Resolution.Replacement

/-!
# Resolution on trees

A resolver that follows the tree of a query. It meets every cross-reference at its term, so it
counts no parentheses and skips nothing but the members of a group that is looked up as a
whole. Resolution of the components issues the same requests and comes to the same outcome.
-/

namespace ChantSearch.Proofs
open Index Query Resolution

variable {μ : Type}

/-- Components that stay, for which nothing is asked. -/
def settled (components : List Component) : Inquiry QueryError (List Component) :=
  ⟨[], .ok components⟩

/-- One request for the ids that a field designates, and the component that they make. -/
def lookedUp (service : Service) (field query : String) (make : List String → Component) :
    Inquiry QueryError (List Component) :=
  ⟨[.ofQuery query], (idsFor service field query).map fun ids => [make ids]⟩

/-- Two inquiries in a row. The requests of both are issued, whether the first fails or not,
and the error of the first comes before that of the second. -/
def followedBy (first second : Inquiry QueryError (List Component)) :
    Inquiry QueryError (List Component) :=
  ⟨first.requests ++ second.requests, do return (← first.outcome) ++ (← second.outcome)⟩

/-- The cross-reference of the field of a term, with the name of the field. -/
def crossRefOf (schema : Schema) (head : Head μ) : Option (String × CrossRef) :=
  head.field?.bind fun name => (schema.crossRef? name).map (name, ·)

def unsigned (head : Head μ) : Head μ :=
  { head with sign? := none }

mutual

def resolveNode (schema : Schema) (service : Service) :
    Node μ → Inquiry QueryError (List Component)
  | .connective c => settled [.marker (.connective c)]
  | .literal head text =>
    followedBy (settled head.signMarker) <|
      match crossRefOf schema head with
      | some (name, ref) =>
        lookedUp service name (ofType ref.resourceType text) (ranked ref.idField)
      | none => settled [head.literalComponent text]
  | .group head members =>
    followedBy (settled head.signMarker) <|
      match crossRefOf schema head with
      | some (name, ref) =>
        lookedUp service name (render (flatten [.group (unsigned head) members]))
          (unweighted ref.idField)
      | none =>
        followedBy (settled (head.scope ++ [.marker .opening])) <|
          followedBy (resolveNodes schema service members) (settled [.marker .closing])

/-- The resolution of a list of terms, in the order of its text. -/
def resolveNodes (schema : Schema) (service : Service) :
    List (Node μ) → Inquiry QueryError (List Component)
  | [] => settled []
  | node :: nodes => followedBy (resolveNode schema service node) (resolveNodes schema service nodes)

end

mutual

/-- The literals of the node that have a field are not empty. -/
def FieldLiteralsNonempty : Node μ → Prop
  | .connective _ => True
  | .literal head text => head.field? ≠ none → text ≠ ""
  | .group _ members => AllFieldLiteralsNonempty members

def AllFieldLiteralsNonempty : List (Node μ) → Prop
  | [] => True
  | node :: nodes => FieldLiteralsNonempty node ∧ AllFieldLiteralsNonempty nodes

end

lemma allFieldLiteralsNonempty_append {ts us : List (Node μ)} :
    AllFieldLiteralsNonempty (ts ++ us) ↔
      AllFieldLiteralsNonempty ts ∧ AllFieldLiteralsNonempty us := by
  induction ts with
  | nil => simp [AllFieldLiteralsNonempty]
  | cons t ts ih => simp [AllFieldLiteralsNonempty, ih, and_assoc]

lemma WellFormed.fieldLiteralsNonempty {ts : List (Node μ)} (h : WellFormed ts) :
    AllFieldLiteralsNonempty ts := by
  induction h with
  | literal _ htext => exact ⟨fun _ => htext.ne_empty, trivial⟩
  | group _ _ ih => exact ⟨ih, trivial⟩
  | joined k? _ _ ihts ihus =>
    refine allFieldLiteralsNonempty_append.mpr ⟨ihts, allFieldLiteralsNonempty_append.mpr ⟨?_, ihus⟩⟩
    cases k? <;> simp [AllFieldLiteralsNonempty, FieldLiteralsNonempty]

end ChantSearch.Proofs

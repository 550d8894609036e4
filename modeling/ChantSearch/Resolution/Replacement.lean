import ChantSearch.QueryError
import ChantSearch.Resolution.Slot

/-!
# Replacing cross-references

Replaces cross-referenced fields by the ids of the records they designate. The requests of
all slots are issued, from left to right, whether earlier ones fail or not. If slots fail,
the leftmost of their errors is the error of the whole.
-/

namespace ChantSearch.Resolution

open Index (Inquiry Results Service)
open Query (Component)

def weightedTerms (idField : String) : List String → List String
  | [] => []
  | id :: ids => s!"{idField}:{id}^{ids.length + 1}" :: weightedTerms idField ids

def alternatives (terms : List String) : Component :=
  .bare ("(" ++ " OR ".intercalate terms ++ ")")

/-- The component for the ids that a value designates. A single id needs no weight. -/
def ranked (idField : String) : List String → Component
  | [id] => .field idField id
  | ids => alternatives (weightedTerms idField ids)

def unweighted (idField : String) (ids : List String) : Component :=
  alternatives (ids.map fun id => s!"{idField}:{id}")

/-- The ids that a lookup of a field found, of which there must be some. -/
def foundIds (field : String) (results : Results) : Except QueryError (List String) :=
  if results.docs.isEmpty then
    .error (.noResults field)
  else
    results.ids.mapError .service

/-- The ids that the index gives for a lookup of a field. -/
def idsFor (service : Service) (field query : String) : Except QueryError (List String) :=
  match service (.ofQuery query) with
  | .error e => .error (.service e)
  | .ok results => foundIds field results

def Slot.fill (service : Service) : Slot → Except QueryError Component
  | keep component => .ok component
  | value field text ref =>
    (idsFor service field (ofType ref.resourceType text)).map (ranked ref.idField)
  | group field subquery ref =>
    (idsFor service field subquery).map (unweighted ref.idField)

def resolve (schema : Schema) (service : Service) (components : List Component) :
    Inquiry QueryError (List Component) :=
  match slotsOf schema components with
  | .error fault => ⟨[], .error (.malformedSubquery fault.message)⟩
  | .ok slots => ⟨slots.filterMap Slot.request?, slots.mapM (Slot.fill service)⟩

end ChantSearch.Resolution

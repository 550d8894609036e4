import ChantSearch.Resolution.Replacement
import ChantSearch.Text.Blank

/-!
# Translating a query

A query is parsed, checked against the schema, resolved, and limited to one type of record.
-/

namespace ChantSearch

open Index (Inquiry Service)
open Query (Component flatten parse render)
open Resolution (ofType resolve)

def knownComponents (schema : Schema) (raw : String) : Except QueryError (List Component) :=
  match parse raw with
  | .error e => .error (.illFormed e)
  | .ok tree =>
    match schema.unknownField? (flatten tree) with
    | some field => .error (.unknownField field)
    | none => .ok (flatten tree)

/-- The query for the index that a query means, limited to records of a type. The type is
inserted as it is, so an asterisk stands for all. -/
def translate (schema : Schema) (service : Service) (resourceType raw : String) :
    Inquiry QueryError String :=
  match knownComponents schema raw with
  | .error e => ⟨[], .error e⟩
  | .ok components =>
    let resolved := resolve schema service components
    ⟨resolved.requests,
      resolved.outcome.map fun components => ofType resourceType (Text.trim (render components))⟩

end ChantSearch

import ChantSearch.Query.Component

/-!
# Schemas

A schema lists the fields that can be searched and the cross-references: fields whose values
are looked up among the records of another type, and the field that holds the ids of those
records. A cross-referenced field can be searched whether it is listed or not.
-/

namespace ChantSearch

open Query (Component)

/-- The records a field refers to, and the field that holds their ids. -/
structure CrossRef where
  resourceType : String
  idField : String
  deriving DecidableEq, Repr

/-- The fields of an index. -/
structure Schema where
  fields : List String
  crossRefs : List (String × CrossRef)
  deriving DecidableEq, Repr

/-- Insert a name in its place, unless it is there already. -/
def insertName (name : String) : List String → List String
  | [] => [name]
  | other :: names =>
    if name = other then other :: names
    else if name < other then name :: other :: names
    else other :: insertName name names

namespace Schema

def crossRef? (schema : Schema) (field : String) : Option CrossRef :=
  schema.crossRefs.lookup field

def isSearchable (schema : Schema) (field : String) : Bool :=
  schema.fields.contains field || (schema.crossRef? field).isSome

def fieldNames (schema : Schema) : List String :=
  schema.fields.foldr insertName []

def unknownField? (schema : Schema) : List Component → Option String
  | [] => none
  | .field name _ :: components =>
    if schema.isSearchable name then schema.unknownField? components else some name
  | _ :: components => schema.unknownField? components

end Schema

end ChantSearch

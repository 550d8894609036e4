import ChantSearch.Query.Tree

/-!
# Components

A query flattened to a list: terms and, between them, the markers that carry precedence and
grouping by their position. A field that scopes a group stands as a field with an empty value
right before the opening marker.
-/

namespace ChantSearch.Query

/-- A marker between terms. -/
inductive Marker where
  | connective (c : Connective)
  | sign (s : Sign)
  | opening
  | closing
  deriving DecidableEq, Repr

def Marker.toString : Marker → String
  | connective c => c.toString
  | sign s => s.toString
  | opening => "("
  | closing => ")"

/-- One element of a flattened query: a value for the default field, a value for a named
field, or a marker. -/
inductive Component where
  | bare (value : String)
  | field (name value : String)
  | marker (m : Marker)
  deriving DecidableEq, Repr

def defaultFieldName : String := "default"

namespace Component

def fieldName? : Component → Option String
  | bare _ => some defaultFieldName
  | field name _ => some name
  | marker _ => none

def describe : Component → String
  | bare value => s!"({defaultFieldName}, {value})"
  | field name value => s!"({name}, {value})"
  | marker m => m.toString

end Component

variable {μ : Type}

/-- The marker of the sign of a term, if it has one. -/
def Head.signMarker (head : Head μ) : List Component :=
  head.sign?.toList.map fun s => .marker (.sign s)

def Head.literalComponent (head : Head μ) (text : String) : Component :=
  match head.field? with
  | none => .bare text
  | some name => .field name text

/-- The empty-valued field in front of a group, if the group has a field. -/
def Head.scope (head : Head μ) : List Component :=
  head.field?.toList.map fun name => .field name ""

mutual

def Node.components : Node μ → List Component
  | .connective c => [.marker (.connective c)]
  | .literal head text => head.signMarker ++ [head.literalComponent text]
  | .group head members =>
    head.signMarker ++ head.scope ++
      .marker .opening :: (flatten members ++ [.marker .closing])

/-- The components of a query, in the order of its text. -/
def flatten : List (Node μ) → List Component
  | [] => []
  | node :: nodes => node.components ++ flatten nodes

end

end ChantSearch.Query

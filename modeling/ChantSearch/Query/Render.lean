import ChantSearch.Query.Component

/-!
# Query text

Renders components as the text of a query. Values are followed by a blank, connectives and
parentheses stand between blanks, and a sign has a blank before it. An opening parenthesis
behind a sign or behind the empty-valued field that scopes it is glued to it, as the grammar
demands.
-/

namespace ChantSearch.Query

namespace Component

/-- Whether an opening parenthesis behind this component is glued to it. -/
def glues : Component → Bool
  | bare _ => false
  | field _ value => value.isEmpty
  | marker (.sign _) => true
  | marker _ => false

/-- The text of a component, given whether the component before it glues. -/
def piece (glued : Bool) : Component → String
  | bare value => value ++ " "
  | field name value => if value.isEmpty then name ++ ":" else name ++ ":" ++ value ++ " "
  | marker .opening => if glued then "( " else " ( "
  | marker (.sign s) => " " ++ s.toString
  | marker m => " " ++ m.toString ++ " "

end Component

/-- The texts of components that stand behind one that glues or does not. -/
def pieces (glued : Bool) : List Component → List String
  | [] => []
  | c :: cs => c.piece glued :: pieces c.glues cs

def render (components : List Component) : String :=
  String.join (pieces false components)

end ChantSearch.Query

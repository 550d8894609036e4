/-!
# Query trees

A query is a list of terms with connectives between them. A term is a literal text or a
parenthesised list of further nodes, with an optional sign in front and an optional field it
is searched in. Trees carry a mark on every term: the byte range a term was read from, or
nothing where only the shape matters.
-/

namespace ChantSearch.Query

/-- An operator between two terms. -/
inductive Connective where
  | and
  | or
  | not
  | ampersands
  | pipes
  deriving DecidableEq, Repr

def Connective.toString : Connective → String
  | and => "AND"
  | or => "OR"
  | not => "NOT"
  | ampersands => "&&"
  | pipes => "||"

/-- An operator glued to the front of a term. -/
inductive Sign where
  | bang
  | plus
  | minus
  deriving DecidableEq, Repr

def Sign.toString : Sign → String
  | bang => "!"
  | plus => "+"
  | minus => "-"

/-- A byte range of the query text, the end excluded. -/
structure Span where
  start : Nat
  stop : Nat
  deriving DecidableEq, Repr

/-- What stands in front of the value of a term, and the mark of the term. -/
structure Head (μ : Type) where
  sign? : Option Sign
  field? : Option String
  mark : μ
  deriving DecidableEq, Repr

/-- A member of a list of terms. Literals keep their quotes and wildcards. -/
inductive Node (μ : Type) where
  | connective (c : Connective)
  | literal (head : Head μ) (text : String)
  | group (head : Head μ) (members : List (Node μ))
  deriving Repr

/-- A parsed query: its terms with the byte ranges they were read from. -/
abbrev Tree := List (Node Span)

abbrev Shape := List (Node Unit)

variable {μ ν : Type}

def Head.map (f : μ → ν) (head : Head μ) : Head ν :=
  ⟨head.sign?, head.field?, f head.mark⟩

mutual

def Node.map (f : μ → ν) : Node μ → Node ν
  | .connective c => .connective c
  | .literal head text => .literal (head.map f) text
  | .group head members => .group (head.map f) (Node.mapList f members)

def Node.mapList (f : μ → ν) : List (Node μ) → List (Node ν)
  | [] => []
  | node :: nodes => node.map f :: Node.mapList f nodes

end

def Node.shape (nodes : List (Node μ)) : Shape :=
  Node.mapList (fun _ => ()) nodes

mutual

/-- The number of groups that enclose the innermost part of a node. -/
def Node.depth : Node μ → Nat
  | .connective _ => 0
  | .literal _ _ => 0
  | .group _ members => Node.depthList members + 1

/-- The number of groups that enclose the innermost part of the nodes. -/
def Node.depthList : List (Node μ) → Nat
  | [] => 0
  | node :: nodes => max node.depth (Node.depthList nodes)

end

end ChantSearch.Query

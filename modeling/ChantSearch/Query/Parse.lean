import ChantSearch.Query.Grammar

/-!
# Parsing a query

A query is parsed as a whole: text left over is an error like a malformed term. Parentheses
nested too deep are refused before the grammar is evaluated, which bounds its recursion.
-/

namespace ChantSearch.Query

/-- Where a query departs from the grammar, and how. -/
structure SyntaxError where
  position : Nat
  message : String
  deriving DecidableEq, Repr

def maxDepth : Nat := 32

/-- The byte offset of the first parenthesis outside quotes that leaves more than `maxDepth`
of them open. Quotes open and close in turn, and a closing parenthesis too many counts for
nothing. -/
def tooDeepFrom (quoted : Bool) (depth offset : Nat) : List Char → Option Nat
  | [] => none
  | c :: rest =>
    let next := offset + c.utf8Size
    if c = '"' then
      tooDeepFrom (!quoted) depth next rest
    else if c = '(' ∧ !quoted then
      if maxDepth ≤ depth then some offset else tooDeepFrom quoted (depth + 1) next rest
    else if c = ')' ∧ !quoted then
      tooDeepFrom quoted (depth - 1) next rest
    else
      tooDeepFrom quoted depth next rest

/-- The byte offset of the parenthesis that nests groups too deep, if there is one. -/
def tooDeepAt (text : List Char) : Option Nat :=
  tooDeepFrom false 0 0 text

/-- The evaluation of the grammar on a text. Neither a list of terms nor a nest of groups has
more parts than the text has characters, so no limit is felt. -/
def evaluate (text : List Char) : Outcome Tree :=
  query text.length text.length ⟨0, text⟩

/-- The tree of a query, or where and how it departs from the grammar. -/
def parse (raw : String) : Except SyntaxError Tree :=
  match tooDeepAt raw.toList with
  | some position => .error ⟨position, s!"parentheses nested deeper than {maxDepth}"⟩
  | none =>
    match evaluate raw.toList with
    | ⟨some (tree, _), _⟩ => .ok tree
    | ⟨none, trace⟩ =>
      let diagnosis := Diagnosis.ofTrace trace
      .error ⟨diagnosis.position, diagnosis.message⟩

end ChantSearch.Query

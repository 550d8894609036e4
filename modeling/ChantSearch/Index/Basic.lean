import ChantSearch.Json.Writer

/-!
# The search index

The index is a service that answers requests with records or fails. Records are JSON objects
with an id that is a text or a number.
-/

namespace ChantSearch.Index

/-- What the index is asked for: records that match a query, a range of them if given, and
their order. -/
structure Request where
  query : String
  start? : Option Nat
  rows? : Option Nat
  sort? : Option String
  deriving DecidableEq, Repr

def Request.ofQuery (query : String) : Request :=
  ⟨query, none, none, none⟩

abbrev Document := List (String × Json.Value)

/-- The records that the index returned, the most relevant first, and the number of all that
match, of which these may be a part. -/
structure Results where
  docs : List Document
  hits : Nat

/-- Why the index gave no records. -/
inductive ServiceError where
  | unavailable (reason : String)
  | status (code : Nat) (reply : String)
  | invalidResponse (reason : String)
  deriving DecidableEq, Repr

namespace ServiceError

def kind : ServiceError → String
  | unavailable _ => "Unavailable"
  | status _ _ => "Status"
  | invalidResponse _ => "InvalidResponse"

def message : ServiceError → String
  | unavailable reason => s!"Unavailable: {reason}"
  | status code reply => s!"Status {code}: {reply}"
  | invalidResponse reason => s!"InvalidResponse: {reason}"

end ServiceError

abbrev Service := Request → Except ServiceError Results

/-- An outcome, and the requests that were issued on the way to it. -/
structure Inquiry (ε α : Type) where
  requests : List Request
  outcome : Except ε α

def idOf (doc : Document) : Except ServiceError String :=
  match doc.lookup "id" with
  | some (.text id) => .ok id
  | some (.number id) => .ok id.write
  | some _ => .error (.invalidResponse "id expected to be a string or a number")
  | none => .error (.invalidResponse "id expected on document")

/-- The ids of the records in their order, or the error of the first record without one. -/
def Results.ids (results : Results) : Except ServiceError (List String) :=
  results.docs.mapM idOf

end ChantSearch.Index

import ChantSearch.QueryError

/-!
# Refusals

Why a call is answered without records, with the status code and the reason it is answered
with. A refused page size tells the greatest one there is.
-/

namespace ChantSearch.Api

/-- Why a call is refused. -/
inductive Refusal where
  | notSearchable (path : String)
  | noResource (path : String)
  | methodNotAllowed (method : String)
  | invalidBody
  | invalidPerPage
  | negativePerPage
  | excessivePerPage (greatest : Nat)
  | invalidPage
  | pageBelowOne
  | query (e : QueryError)
  | pageBeyondEnd
  | noResults
  | missingId
  | missingType
  deriving DecidableEq, Repr

def queryAnswer : QueryError → Nat × String
  | .illFormed _ => (400, "SEARCH query is malformed")
  | .malformedSubquery _ => (400, "SEARCH query is malformed")
  | .unknownField field => (400, (QueryError.unknownField field).message)
  | .noResults _ => (404, "SEARCH query returned no results")
  | .service _ => (502, "Bad Gateway (Problem with Solr Server)")

namespace Refusal

def answer : Refusal → Nat × String
  | notSearchable path => (404, s!"Cannot SEARCH {path}")
  | noResource path => (404, s!"No resource at {path}")
  | methodNotAllowed method => (405, s!"{method} is not allowed here")
  | invalidBody => (400, "Request body was malformed or missing")
  | invalidPerPage => (400, "Invalid \"X-Cantus-Per-Page\" header")
  | negativePerPage => (400, "\"X-Cantus-Per-Page\" must be 0 or greater")
  | excessivePerPage _ => (507, "\"X-Cantus-Per-Page\" is too high")
  | invalidPage => (400, "Invalid \"X-Cantus-Page\" header")
  | pageBelowOne => (400, "\"X-Cantus-Page\" must be greater than 0")
  | query e => queryAnswer e
  | pageBeyondEnd => (409, "\"X-Cantus-Page\" is too high (there are not that many pages)")
  | noResults => (404, "SEARCH query returned no results")
  | missingId => (502, "Solr returned a resource without an \"id\" field.")
  | missingType => (502, "Solr returned a resource without a \"type\" field.")

def status (refusal : Refusal) : Nat :=
  refusal.answer.1

def reason (refusal : Refusal) : String :=
  refusal.answer.2

def perPage? : Refusal → Option Nat
  | excessivePerPage greatest => some greatest
  | _ => none

end Refusal

end ChantSearch.Api

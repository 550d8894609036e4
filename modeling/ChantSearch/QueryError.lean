import ChantSearch.Index.Basic
import ChantSearch.Query.Parse

/-!
# Why a query fails
-/

namespace ChantSearch

open Index (ServiceError)
open Query (SyntaxError)

/-- Why a query has no translation: it departs from the grammar, the group of a field is not
closed, a cross-reference designates nothing, a field is not known, or the index failed. -/
inductive QueryError where
  | illFormed (e : SyntaxError)
  | malformedSubquery (reason : String)
  | noResults (field : String)
  | unknownField (field : String)
  | service (e : ServiceError)
  deriving DecidableEq, Repr

namespace QueryError

def message : QueryError → String
  | illFormed e => s!"Invalid search query at {e.position}: {e.message}"
  | malformedSubquery reason => s!"Malformed subquery: {reason}"
  | noResults field => s!"No results for cross-referenced field \"{field}\""
  | unknownField field => s!"Invalid search field: \"{field}\""
  | service e => s!"Search service error: {e.message}"

def cause? : QueryError → Option ServiceError
  | service e => some e
  | _ => none

end QueryError

end ChantSearch

import ChantSearch.Api.Refusal

/-!
# Calls and responses

HTTP calls and responses as data. Header names are kept in lower case, each once.
-/

namespace ChantSearch.Api

/-- Header names with their values. Values are texts: one that is no UTF-8 is not represented. It
would count as absent in a call, like any other that is no plain text. -/
structure Headers where
  entries : List (String × String)
  deriving DecidableEq, Repr

namespace Headers

def empty : Headers := ⟨[]⟩

/-- The headers with one more, which replaces a header of the same name. -/
def set (headers : Headers) (name value : String) : Headers :=
  let name := name.toLower
  ⟨headers.entries.filter (·.1 != name) ++ [(name, value)]⟩

def get? (headers : Headers) (name : String) : Option String :=
  headers.entries.lookup name

end Headers

/-- Whether a header value is plain text: visible ASCII characters, spaces and tabs. -/
def isPlain (value : String) : Bool :=
  value.toList.all fun c => c == '\t' || (' ' ≤ c && c ≤ '~')

/-- A call. The path has no query string. -/
structure Call where
  method : String
  path : String
  headers : Headers
  body : List UInt8

def pathOf (target : String) : String :=
  String.ofList (target.toList.takeWhile fun c => c != '?' && c != '#')

/-- A response. -/
structure Response where
  status : Nat
  headers : Headers
  body : String
  deriving DecidableEq, Repr

def perPageHeader : String := "x-cantus-per-page"

def pageHeader : String := "x-cantus-page"

def totalResultsHeader : String := "x-cantus-total-results"

def allowedMethods : String := "OPTIONS, SEARCH"

def Refusal.toResponse (refusal : Refusal) : Response :=
  let headers := if refusal.status = 405 then Headers.empty.set "allow" allowedMethods else .empty
  let headers := match refusal.perPage? with
    | some perPage => headers.set perPageHeader (toString perPage)
    | none => headers
  ⟨refusal.status, headers, s!"{refusal.status}: {refusal.reason}"⟩

end ChantSearch.Api

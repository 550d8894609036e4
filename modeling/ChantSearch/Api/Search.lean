import ChantSearch.Api.Body
import ChantSearch.Api.Http
import ChantSearch.Api.Resource
import ChantSearch.Translation

/-!
# Search calls

A search call names a resource by its path, and gives a query and a page in its body; the
page can be given in headers instead. It is refused at the first stage that fails. The
answer holds the records by id and their order.
-/

namespace ChantSearch.Api

open Index (Document Inquiry Request Results Service idOf)
open Json (Value)

/-- What all calls share. -/
structure Site where
  schema : Schema
  service : Service
  paging : Paging

def trimSlashes (cs : List Char) : List Char :=
  ((cs.dropWhile (· == '/')).reverse.dropWhile (· == '/')).reverse

def resourceAt (path : String) : Except Refusal Resource :=
  let word := trimSlashes path.toList
  if word.contains '/' then
    .error (.notSearchable path)
  else
    match Resource.ofPlural? (String.ofList word) with
    | some resource => .ok resource
    | none => .error (.noResource path)

/-- A page value in a header. A value that is no plain text counts as absent. -/
def headerValue? (headers : Headers) (name : String) : Option PageValue :=
  ((headers.get? name).filter isPlain).map .text

/-- A search call that passed all checks of its own: the type of record, the query, and the
page. -/
structure SearchOrder where
  typeName : String
  query : String
  page : Page
  deriving DecidableEq, Repr

/-- What the body of a call asks of a resource. Members of the body win over headers. -/
def orderOf (paging : Paging) (resource : Resource) (call : Call) :
    Except Refusal SearchOrder := do
  let body ← SearchBody.parse call.body
  let page ← paging.page
    (body.page?.or (headerValue? call.headers pageHeader))
    (body.perPage?.or (headerValue? call.headers perPageHeader))
  pure ⟨resource.typeName, body.query, page⟩

def recordId (doc : Document) : Except Refusal String :=
  match idOf doc with
  | .error _ => .error .missingId
  | .ok id => if (doc.lookup "type").isSome then .ok id else .error .missingType

/-- The records by id, and their order. Of records with equal ids the last one stays. -/
def recordsObject (ids : List String) (docs : List Document) : Value :=
  .object <|
    Json.insertMember "sort_order" (.array (ids.map .text)) <|
      Json.sortMembers (ids.zip (docs.map .object))

def recordsResponse (page : Page) (results : Results) (ids : List String) : Response where
  status := 200
  headers :=
    (((Headers.empty.set "content-type" "application/json").set totalResultsHeader
      (toString results.hits)).set pageHeader (toString page.page)).set perPageHeader
        (toString page.perPage)
  body := (recordsObject ids results.docs).write

/-- The response to the results for a page. Without records the page is beyond the end, or
nothing matches at all. -/
def respond (page : Page) (results : Results) : Except Refusal Response :=
  if results.docs.isEmpty then
    .error (if 0 < results.hits then .pageBeyondEnd else .noResults)
  else
    (results.docs.mapM recordId).map (recordsResponse page results)

/-- The request for a page of the matches of a query. -/
def pageRequest (page : Page) (query : String) : Request :=
  ⟨query, some page.start, some page.perPage, none⟩

/-- The outcome of a search order, with all requests issued for it. -/
def fulfil (site : Site) (order : SearchOrder) : Inquiry Refusal Response :=
  let translated := translate site.schema site.service order.typeName order.query
  match translated.outcome with
  | .error e => ⟨translated.requests, .error (.query e)⟩
  | .ok query =>
    let request := pageRequest order.page query
    ⟨translated.requests ++ [request],
      match site.service request with
      | .error e => .error (.query (.service e))
      | .ok results => respond order.page results⟩

/-- The response to a question for the methods of a resource. -/
def optionsResponse : Response :=
  ⟨200, Headers.empty.set "allow" allowedMethods, ""⟩

/-- The outcome of a call, with all requests issued for it. -/
def callOutcome (site : Site) (call : Call) : Inquiry Refusal Response :=
  match resourceAt call.path with
  | .error refusal => ⟨[], .error refusal⟩
  | .ok resource =>
    if call.method = "OPTIONS" then
      ⟨[], .ok optionsResponse⟩
    else if call.method = "SEARCH" then
      match orderOf site.paging resource call with
      | .error refusal => ⟨[], .error refusal⟩
      | .ok order => fulfil site order
    else
      ⟨[], .error (.methodNotAllowed call.method)⟩

/-- The response to a call, with all requests issued for it. -/
def search (site : Site) (call : Call) : List Request × Response :=
  match callOutcome site call with
  | ⟨requests, .ok response⟩ => (requests, response)
  | ⟨requests, .error refusal⟩ => (requests, refusal.toResponse)

end ChantSearch.Api

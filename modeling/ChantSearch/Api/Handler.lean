import ChantSearch.Api.Search

/-!
# Routes

The root lists the resources; every other call is a search call. The length of a body is
known before it is read, and limited.
-/

namespace ChantSearch.Api

open Index (Request)
open Json (Value)

def rootListing : Value :=
  let resources := Resource.all.map fun resource => (resource.plural, Value.text resource.url)
  let browse := Value.ofMembers (resources ++ [("all", .text Resource.everything.url)])
  .ofMembers [("resources", .ofMembers [("browse", browse)])]

def rootResponse : Response :=
  ⟨200, Headers.empty.set "content-type" "application/json", rootListing.write⟩

def maxBodySize : Nat := 64 * 1024

/-- Why the body of a call is not read. -/
inductive BodyFault where
  | lengthRequired
  | tooLarge
  deriving DecidableEq, Repr

def BodyFault.toResponse (fault : BodyFault) : Response :=
  let headers := Headers.empty.set "content-type" "text/plain; charset=utf-8"
  match fault with
  | lengthRequired => ⟨411, headers, "A content-length header is required"⟩
  | tooLarge => ⟨413, headers, "The request payload is too large"⟩

/-- The body of a call as its length announces it. Without a length there is no body. -/
def receivedBody (call : Call) : Except BodyFault (List UInt8) :=
  match call.headers.get? "content-length" with
  | none => .ok []
  | some length =>
    match Text.readNat64 length with
    | none => .error .lengthRequired
    | some n => if maxBodySize < n then .error .tooLarge else .ok call.body

/-- The response to a call, with all requests issued for it. -/
def handle (site : Site) (call : Call) : List Request × Response :=
  if call.method = "GET" ∧ call.path = "/" then
    ([], rootResponse)
  else
    match receivedBody call with
    | .error fault => ([], fault.toResponse)
    | .ok body => search site { call with body }

end ChantSearch.Api

import ChantSearch.Api.Paging
import ChantSearch.Json.Record

/-!
# Search bodies

The body of a search call is a record of the query and, optionally, the page and the page
size. These may be null, which counts as absent.
-/

namespace ChantSearch.Api

open Json (Number Reader Value)
open Numeric (Binary64)

/-- What a search call asks for. -/
structure SearchBody where
  query : String
  page? : Option PageValue
  perPage? : Option PageValue
  deriving DecidableEq, Repr

/-- The page value that a number is. Integers beyond 64 bits with a sign count as doubles. -/
def PageValue.ofNumber? : Number → Option PageValue
  | .integer n => if n < Nat.pow 2 63 then some (number n) else (Binary64.ofNat n.toNat).map real
  | .real x => some (real x)

def readPageValue : Reader (Option PageValue) := do
  match ← Reader.value Reader.maxDepth with
  | .null => pure none
  | .number n => return some (← Reader.demand (PageValue.ofNumber? n))
  | .text s => pure (some (.text s))
  | _ => failure

/-- A search body that is partly read. -/
structure PartialBody where
  query? : Option String
  page? : Option (Option PageValue)
  perPage? : Option (Option PageValue)

def readSearchBody : Reader SearchBody := do
  let s ← Reader.record
    [Reader.slot "query" PartialBody.query?
       (fun s query => { s with query? := some query }) Reader.text,
     Reader.slot "page" PartialBody.page?
       (fun s page => { s with page? := some page }) readPageValue,
     Reader.slot "per_page" PartialBody.perPage?
       (fun s perPage => { s with perPage? := some perPage }) readPageValue]
    ⟨none, none, none⟩
  pure ⟨← Reader.demand s.query?, s.page?.join, s.perPage?.join⟩

def SearchBody.parse (body : List UInt8) : Except Refusal SearchBody :=
  match readSearchBody.run? body with
  | some searchBody => .ok searchBody
  | none => .error .invalidBody

end ChantSearch.Api

import ChantSearch.Api.Refusal
import ChantSearch.Numeric.Binary64
import ChantSearch.Text.Blank
import ChantSearch.Text.Integer

/-!
# Paging

Pages are numbered from 1. Page numbers and page sizes come as integers, as doubles, or as
text, and mean the integer they denote. The page size is checked before the page number.
-/

namespace ChantSearch.Api

open Numeric (Binary64)

/-- A page number or a page size as it was given. -/
inductive PageValue where
  | number (n : Int)
  | real (x : Binary64)
  | text (s : String)
  deriving DecidableEq, Repr

/-- The integer that a value denotes, if it denotes one of 64 bits. Doubles denote none from
2^63 up or from -2^63 down. -/
def PageValue.toInt? : PageValue → Option Int
  | number n => some n
  | real x => x.toInt?.filter fun n => n.natAbs < Nat.pow 2 63
  | text s => Text.readInt64 (Text.trim s)

/-- The page size when none is asked for, and the greatest one. -/
structure Paging where
  defaultPerPage : Nat
  maxPerPage : Nat
  deriving DecidableEq, Repr

/-- A page: its number and its size. -/
structure Page where
  page : Nat
  perPage : Nat
  deriving DecidableEq, Repr

/-- The position of the first match of a page. Positions stop at the greatest number of 64
bits. -/
def Page.start (p : Page) : Nat :=
  min ((p.page - 1) * p.perPage) (Nat.pow 2 64 - 1)

namespace Paging

/-- The page size that is granted. Zero asks for the greatest one. -/
def perPage (paging : Paging) : Option PageValue → Except Refusal Nat
  | none => .ok paging.defaultPerPage
  | some value =>
    match value.toInt? with
    | none => .error .invalidPerPage
    | some n =>
      if n < 0 then .error .negativePerPage
      else if n = 0 then .ok paging.maxPerPage
      else if paging.maxPerPage < n.toNat then .error (.excessivePerPage paging.maxPerPage)
      else .ok n.toNat

def pageNumber : Option PageValue → Except Refusal Nat
  | none => .ok 1
  | some value =>
    match value.toInt? with
    | none => .error .invalidPage
    | some n => if n < 1 then .error .pageBelowOne else .ok n.toNat

def page (paging : Paging) (page? perPage? : Option PageValue) : Except Refusal Page := do
  let perPage ← paging.perPage perPage?
  let page ← pageNumber page?
  pure ⟨page, perPage⟩

end Paging

end ChantSearch.Api

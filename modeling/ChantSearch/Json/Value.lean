import ChantSearch.Numeric.Binary64

/-!
# JSON values

Integers from -2^63 to 2^64 - 1 are kept as integers; every other number is a double. The
members of an object are sorted by name, each name occurring once.
-/

namespace ChantSearch.Json

open Numeric (Binary64)

/-- A JSON number: an integer of at most 64 bits, or a double. -/
inductive Number where
  | integer (n : Int)
  | real (x : Binary64)
  deriving DecidableEq, Repr

/-- A JSON value. -/
inductive Value where
  | null
  | bool (b : Bool)
  | number (n : Number)
  | text (s : String)
  | array (items : List Value)
  | object (members : List (String × Value))
  deriving Repr

/-- The members with one more, in its place by name. It replaces a member of the same name. -/
def insertMember {α : Type} (name : String) (value : α) :
    List (String × α) → List (String × α)
  | [] => [(name, value)]
  | (other, old) :: members =>
    if name = other then (name, value) :: members
    else if name < other then (name, value) :: (other, old) :: members
    else (other, old) :: insertMember name value members

/-- The members of a list in their order by name. Of members with equal names the last one
stays. -/
def sortMembers {α : Type} (members : List (String × α)) : List (String × α) :=
  members.foldl (fun sorted (name, value) => insertMember name value sorted) []

namespace Value

def ofMembers (members : List (String × Value)) : Value :=
  object (sortMembers members)

def ofNat (n : Nat) : Value :=
  number (.integer n)

def member? (name : String) : Value → Option Value
  | object members => members.lookup name
  | _ => none

def toNat? : Value → Option Nat
  | number (.integer n) => n.toNat?
  | _ => none

def toText? : Value → Option String
  | text s => some s
  | _ => none

def toItems? : Value → Option (List Value)
  | array items => some items
  | _ => none

def toMembers? : Value → Option (List (String × Value))
  | object members => some members
  | _ => none

end Value

end ChantSearch.Json

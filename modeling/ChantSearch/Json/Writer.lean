import ChantSearch.Json.Value
import ChantSearch.Numeric.Shortest

/-!
# JSON text

Writes values without blanks. Doubles are written with the fewest digits that read back.
-/

namespace ChantSearch.Json

open Numeric (Binary64 Decimal)

/-- Which doubles are written without an exponent. -/
structure RealLayout where
  /-- The least exponent of a leading digit written without an exponent. -/
  least : Int
  /-- The greatest exponent of a leading digit written without an exponent. -/
  greatest : Int

/-- Doubles from 0.00001 up to, but without, 10^16 are written without an exponent. -/
def realLayout : RealLayout := ⟨-5, 15⟩

/-- The digits with a point behind the first `whole` of them, filled up with zeros. -/
def withPoint (digits : String) (whole : Int) : String :=
  if whole ≤ 0 then
    "0." ++ "".pushn '0' (-whole).toNat ++ digits
  else if whole < digits.length then
    String.ofList (digits.toList.take whole.toNat) ++ "." ++
      String.ofList (digits.toList.drop whole.toNat)
  else
    digits.pushn '0' (whole.toNat - digits.length) ++ ".0"

/-- The digits with a point behind the first of them, unless there is only one. -/
def scientificDigits (digits : String) : String :=
  match digits.toList with
  | [] => ""
  | [c] => c.toString
  | c :: cs => c.toString ++ "." ++ String.ofList cs

/-- A decimal in a layout. An exponent has its sign always. -/
def RealLayout.write (layout : RealLayout) (x : Decimal) : String :=
  let e := x.leading
  if layout.least ≤ e ∧ e ≤ layout.greatest then
    withPoint x.text (e + 1)
  else
    scientificDigits x.text ++ "e" ++ (if e < 0 then "" else "+") ++ toString e

def writeReal (x : Binary64) : String :=
  (if x.negative then "-" else "") ++
    if x.isZero then "0.0" else realLayout.write x.shortest

def Number.write : Number → String
  | integer n => toString n
  | real x => writeReal x

def escape (c : Char) : String :=
  if c = '"' then "\\\""
  else if c = '\\' then "\\\\"
  else if c = '\x08' then "\\b"
  else if c = '\x0c' then "\\f"
  else if c = '\n' then "\\n"
  else if c = '\r' then "\\r"
  else if c = '\t' then "\\t"
  else if c.toNat < 0x20 then
    "\\u00" ++ String.ofList [Nat.digitChar (c.toNat / 16), Nat.digitChar (c.toNat % 16)]
  else c.toString

def quote (s : String) : String :=
  "\"" ++ String.join (s.toList.map escape) ++ "\""

mutual

def Value.write : Value → String
  | .null => "null"
  | .bool b => if b then "true" else "false"
  | .number n => n.write
  | .text s => quote s
  | .array items => "[" ++ ",".intercalate (Value.writeItems items) ++ "]"
  | .object members => "\x7b" ++ ",".intercalate (Value.writeMembers members) ++ "\x7d"

def Value.writeItems : List Value → List String
  | [] => []
  | item :: items => item.write :: Value.writeItems items

def Value.writeMembers : List (String × Value) → List String
  | [] => []
  | (name, value) :: members => (quote name ++ ":" ++ value.write) :: Value.writeMembers members

end

end ChantSearch.Json

/-!
# Integers in text

Reads integers from ASCII digits with an optional sign. Zeros may lead.
-/

namespace ChantSearch.Text

def readDigits (cs : List Char) : Option Nat :=
  if cs.isEmpty || !cs.all Char.isDigit then
    none
  else
    some (cs.foldl (fun n c => 10 * n + (c.toNat - '0'.toNat)) 0)

def readSigned (s : String) : Option Int :=
  match s.toList with
  | '-' :: cs => (readDigits cs).map fun n => -(n : Int)
  | '+' :: cs => (readDigits cs).map fun n => (n : Int)
  | cs => (readDigits cs).map fun n => (n : Int)

def readUnsigned (s : String) : Option Nat :=
  match s.toList with
  | '+' :: cs => readDigits cs
  | cs => readDigits cs

def readInt64 (s : String) : Option Int :=
  (readSigned s).filter fun n => -(Nat.pow 2 63 : Int) ≤ n && n < Nat.pow 2 63

def readNat64 (s : String) : Option Nat :=
  (readUnsigned s).filter fun n => n < Nat.pow 2 64

end ChantSearch.Text

import ChantSearch.Json.Value

/-!
# JSON numerals

A numeral is scanned to its digits first; its value is computed from them. The value of a
numeral that is not an integer of 64 bits is the double that the significand of at most 64
bits gives when it is scaled by a power of ten, with every step rounded.
-/

namespace ChantSearch.Json

open Numeric (Binary64)

/-- The parts of a numeral, the exponent included if there is one. -/
structure Numeral where
  negative : Bool
  whole : List Nat
  fraction? : Option (List Nat)
  exponent? : Option Int
  deriving DecidableEq, Repr

def isDigit (b : UInt8) : Bool :=
  0x30 ≤ b && b ≤ 0x39

def digitValue (b : UInt8) : Nat :=
  b.toNat - 0x30

def ofDigits (digits : List Nat) : Nat :=
  digits.foldl (fun n d => 10 * n + d) 0

namespace Numeral

def scanDigits (input : List UInt8) : Option (List Nat × List UInt8) :=
  match input.takeWhile isDigit with
  | [] => none
  | digits => some (digits.map digitValue, input.dropWhile isDigit)

/-- The digits before the point. A zero is not followed by more of them. -/
def scanWhole (input : List UInt8) : Option (List Nat × List UInt8) := do
  let (digits, rest) ← scanDigits input
  match digits with
  | 0 :: _ :: _ => none
  | _ => some (digits, rest)

/-- A point and the digits behind it, if there is a point. -/
def scanFraction : List UInt8 → Option (Option (List Nat) × List UInt8)
  | 0x2e :: input => do
    let (digits, rest) ← scanDigits input
    some (some digits, rest)
  | input => some (none, input)

def scanSignedDigits : List UInt8 → Option (Int × List UInt8)
  | 0x2d :: input => do
    let (digits, rest) ← scanDigits input
    some (-(ofDigits digits : Int), rest)
  | 0x2b :: input => do
    let (digits, rest) ← scanDigits input
    some (ofDigits digits, rest)
  | input => do
    let (digits, rest) ← scanDigits input
    some (ofDigits digits, rest)

def scanExponent : List UInt8 → Option (Option Int × List UInt8)
  | b :: input =>
    if b = 0x65 ∨ b = 0x45 then do
      let (e, rest) ← scanSignedDigits input
      some (some e, rest)
    else
      some (none, b :: input)
  | [] => some (none, [])

def scanMinus : List UInt8 → Bool × List UInt8
  | 0x2d :: input => (true, input)
  | input => (false, input)

def scan (input : List UInt8) : Option (Numeral × List UInt8) := do
  let (negative, input) := scanMinus input
  let (whole, input) ← scanWhole input
  let (fraction?, input) ← scanFraction input
  let (exponent?, input) ← scanExponent input
  some (⟨negative, whole, fraction?, exponent?⟩, input)

def maxSignificand : Nat := Nat.pow 2 64 - 1

/-- Append digits to a significand as long as it stays in range. The digits that no longer fit
are returned. -/
def gather (significand : Nat) : List Nat → Nat × List Nat
  | [] => (significand, [])
  | d :: ds =>
    if significand * 10 + d ≤ maxSignificand then gather (significand * 10 + d) ds
    else (significand, d :: ds)

def tenTo (e : Nat) : Option Binary64 :=
  Binary64.ofNat (Nat.pow 10 e)

/-- The greatest power of ten that a double is multiplied or divided by in one step. -/
def maxStep : Nat := 308

/-- A double divided by a power of ten. Beyond two steps nothing is left of a significand of
64 bits. -/
def scaleDown (x : Binary64) (e : Nat) : Option Binary64 := do
  if e ≤ maxStep then
    x.div (← tenTo e)
  else if e ≤ 2 * maxStep then
    let y ← x.div (← tenTo maxStep)
    y.div (← tenTo (e - maxStep))
  else
    some (Binary64.zero x.negative)

/-- A significand scaled by a power of ten, unless it is beyond the largest double. -/
def scale (significand : Nat) (e : Int) : Option Binary64 := do
  let x ← Binary64.ofNat significand
  if e < 0 then scaleDown x (-e).toNat
  else if e ≤ maxStep then x.mul (← tenTo e.toNat)
  else if x.isZero then some x
  else none

/-- The double that a numeral gives. Digits before the point that no longer fit the
significand count as zeros; digits behind it that do not fit are dropped. -/
def toReal? (numeral : Numeral) : Option Binary64 := do
  let (significand, overWhole) := gather 0 numeral.whole
  let fraction := numeral.fraction?.getD []
  let (significand, overFraction) := gather significand fraction
  let e : Int := overWhole.length - ((fraction.length - overFraction.length : Nat) : Int)
  let x ← scale significand (e + numeral.exponent?.getD 0)
  some (if numeral.negative then x.neg else x)

/-- The integer that a numeral gives, if it has the form of one and is in range. Minus zero is
no integer. -/
def toInteger? (numeral : Numeral) : Option Int :=
  if numeral.fraction?.isSome || numeral.exponent?.isSome then
    none
  else
    let n := ofDigits numeral.whole
    if numeral.negative then
      if 0 < n ∧ n ≤ Nat.pow 2 63 then some (-(n : Int)) else none
    else
      if n ≤ maxSignificand then some n else none

/-- The number that a numeral gives, unless it is beyond the largest double. -/
def number? (numeral : Numeral) : Option Number :=
  match numeral.toInteger? with
  | some n => some (.integer n)
  | none => numeral.toReal?.map .real

end Numeral

end ChantSearch.Json

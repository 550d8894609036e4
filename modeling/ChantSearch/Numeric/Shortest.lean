import ChantSearch.Numeric.Binary64

/-!
# Shortest decimal form

The fewest decimal digits that read back as a given double: among the decimals with that many
digits the one nearest to the double, and of two equally near ones the one with an even last
digit. All arithmetic is exact.
-/

namespace ChantSearch.Numeric

/-- The number `digits * 10 ^ exponent`. -/
structure Decimal where
  digits : Nat
  exponent : Int
  deriving DecidableEq, Repr

namespace Decimal

/-- The decimal without trailing zeros, of which at most `limit` are removed. -/
def trim (limit : Nat) (x : Decimal) : Decimal :=
  match limit with
  | 0 => x
  | limit + 1 =>
    if x.digits % 10 = 0 then trim limit ⟨x.digits / 10, x.exponent + 1⟩ else x

def text (x : Decimal) : String :=
  toString x.digits

def leading (x : Decimal) : Int :=
  x.exponent + x.text.length - 1

end Decimal

def tenTo (e : Int) : Nat × Nat :=
  if 0 ≤ e then (Nat.pow 10 e.toNat, 1) else (1, Nat.pow 10 (-e).toNat)

namespace Binary64

/-- The exponent of the leading decimal digit of the fraction `num / den`. -/
def leadingDigit (num den : Nat) : Int :=
  if den ≤ num then
    ((toString (num / den)).length : Int) - 1
  else
    let width := (toString (den / num)).length
    if den ≤ num * Nat.pow 10 (width - 1) then -((width : Int) - 1) else -(width : Int)

/-- The decimals `digits * 10 ^ exponent` that round to a double `m * 2 ^ e` are those in an
interval. In units of `2 ^ (e - 2)` it reaches from `4 * m - 2` to `4 * m + 2`, or begins at
`4 * m - 1` where the next smaller double is nearer. The ends belong to it if `m` is even. -/
def roundsTo (x : Binary64) (candidate : Decimal) : Bool :=
  let (unitNum, unitDen) := Binary64.ratio ⟨false, 1, x.exponent - 2⟩
  let (tenNum, tenDen) := tenTo candidate.exponent
  let low := if x.significand = Nat.pow 2 52 ∧ minExponent < x.exponent then 4 * x.significand - 1
    else 4 * x.significand - 2
  let high := 4 * x.significand + 2
  let unit := unitNum * tenDen
  let point := candidate.digits * tenNum * unitDen
  if x.significand % 2 = 0 then low * unit ≤ point && point ≤ high * unit
  else low * unit < point && point < high * unit

/-- The better of two neighbouring decimals below and above the double, of those that round
to it: the nearer one, or the even one where both are equally near. -/
def choose (x : Binary64) (below above : Decimal) : Option Decimal :=
  let (num, den) := x.ratio
  let (tenNum, tenDen) := tenTo below.exponent
  let value := num * tenDen
  let distanceBelow := value - below.digits * tenNum * den
  let distanceAbove := above.digits * tenNum * den - value
  match x.roundsTo below, x.roundsTo above with
  | false, false => none
  | true, false => some below
  | false, true => some above
  | true, true =>
    if distanceBelow < distanceAbove then some below
    else if distanceAbove < distanceBelow then some above
    else if below.digits % 2 = 0 then some below else some above

/-- A decimal with a given number of digits that rounds to the double, if there is one. -/
def withDigits (x : Binary64) (count : Nat) : Option Decimal :=
  let (num, den) := x.ratio
  let exponent := leadingDigit num den - (count - 1)
  let (tenNum, tenDen) := tenTo exponent
  let floor := num * tenDen / (den * tenNum)
  x.choose ⟨floor, exponent⟩ ⟨floor + 1, exponent⟩

/-- The shortest decimal that rounds to a double other than zero. Seventeen digits always
suffice. -/
def shortest (x : Binary64) : Decimal :=
  (((List.range 17).findSome? fun n => x.withDigits (n + 1)).getD ⟨0, 0⟩).trim 17

end Binary64

end ChantSearch.Numeric

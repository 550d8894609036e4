import Mathlib
import ChantSearch.Numeric.Binary64

/-!
# Exact values of doubles

A double denotes a rational number, a multiple of a power of two. It is taken for an integer if and
only if it denotes that integer, whichever significand and exponent it is given with.
-/

namespace ChantSearch.Proofs
open Numeric

variable {x : Binary64} {a b : Nat} {n : Int}

/-- The rational number that a double denotes. -/
def exactValue (x : Binary64) : ℚ :=
  (if x.negative then -1 else 1) * (x.significand * 2 ^ x.exponent)

lemma ratio_pos (x : Binary64) : 0 < x.ratio.2 := by
  unfold Binary64.ratio
  split
  · exact Nat.one_pos
  · exact Nat.two_pow_pos _

lemma ratio_eq (x : Binary64) :
    (x.ratio.1 : ℚ) / x.ratio.2 = x.significand * 2 ^ x.exponent := by
  unfold Binary64.ratio
  by_cases hexponent : 0 ≤ x.exponent
  · obtain ⟨e, he⟩ := Int.eq_ofNat_of_zero_le hexponent
    simp [he]
  · obtain ⟨e, he⟩ := Int.eq_ofNat_of_zero_le (by omega : 0 ≤ -x.exponent)
    have hneg : x.exponent = -e := by omega
    rw [if_neg hexponent, he, hneg]
    simp [div_eq_mul_inv]

lemma natCast_eq_mul_iff (hb : 0 < b) :
    (a : Int) = n * b ↔ a % b = 0 ∧ ((a / b : Nat) : Int) = n := by
  constructor
  · intro h
    have hn : 0 ≤ n := by
      by_contra hneg
      have hprod : n * b < 0 := mul_neg_of_neg_of_pos (by omega) (by exact_mod_cast hb)
      omega
    obtain ⟨m, rfl⟩ := Int.eq_ofNat_of_zero_le hn
    obtain rfl : a = m * b := by exact_mod_cast h
    exact ⟨Nat.mul_mod_left m b, by rw [Nat.mul_div_cancel m hb]⟩
  · rintro ⟨hmod, rfl⟩
    have hmul : a / b * b = a := Nat.div_mul_cancel (Nat.dvd_of_mod_eq_zero hmod)
    exact_mod_cast hmul.symm

lemma div_eq_intCast_iff (hb : 0 < b) :
    (a : ℚ) / b = n ↔ a % b = 0 ∧ ((a / b : Nat) : Int) = n := by
  have hne : (b : ℚ) ≠ 0 := by exact_mod_cast hb.ne'
  rw [div_eq_iff hne, ← natCast_eq_mul_iff hb]
  exact_mod_cast Iff.rfl

/-- A double is taken for the integer that it denotes, and for none if it denotes none. -/
lemma toInt?_eq_some_iff : x.toInt? = some n ↔ exactValue x = n := by
  have hpos := ratio_pos x
  unfold Binary64.toInt? exactValue
  rw [← ratio_eq x]
  simp only [Option.ite_none_right_eq_some, Option.some.injEq]
  by_cases hneg : x.negative
  · rw [if_pos hneg, if_pos hneg, neg_one_mul, neg_eq_iff_eq_neg, neg_eq_iff_eq_neg]
    exact_mod_cast (div_eq_intCast_iff hpos).symm
  · rw [if_neg hneg, if_neg hneg, one_mul]
    exact (div_eq_intCast_iff hpos).symm

end ChantSearch.Proofs

import ChantSearch.Proofs.Api.Granting
import ChantSearch.Proofs.Numeric.Exact
import ChantSearch.Proofs.Text.Integers

/-!
# Notations of page values

A page number or a page size means the integer that it denotes, as a number, as a double or as a
text. A value that denotes no integer of 64 bits is denied.
-/

namespace ChantSearch.Proofs
open Api Numeric

variable {paging : Paging} {value other : PageValue} {asked : Option PageValue} {n : Int}

/-- The integer of 64 bits that a value denotes. A double may denote none beyond 2^63, nor that
number itself with either sign. -/
inductive Denotes : PageValue → Int → Prop
  | number (n : Int) : Denotes (.number n) n
  | real {x : Binary64} {n : Int} (hvalue : exactValue x = n) (hbound : |n| < 2 ^ 63) :
      Denotes (.real x) n
  | text {s : String} {n : Int} (hwrites : Writes s n) (hfits : -2 ^ 63 ≤ n ∧ n < 2 ^ 63) :
      Denotes (.text s) n

/-- A value is taken for the integer that it denotes. -/
lemma toInt?_eq_some_iff_denotes : value.toInt? = some n ↔ Denotes value n := by
  cases value with
  | number m =>
    constructor
    · intro h
      obtain rfl := Option.some.inj h
      exact .number m
    · rintro ⟨⟩
      rfl
  | real x =>
    have hbound : decide (n.natAbs < Nat.pow 2 63) = true ↔ |n| < 2 ^ 63 := by
      rw [decide_eq_true_iff, Nat.pow_eq, Int.abs_eq_natAbs]
      omega
    rw [PageValue.toInt?, Option.filter_eq_some_iff, toInt?_eq_some_iff, hbound]
    constructor
    · rintro ⟨hvalue, hbound⟩
      exact .real hvalue hbound
    · intro h
      cases h with
      | real hvalue hbound => exact ⟨hvalue, hbound⟩
  | text s =>
    rw [PageValue.toInt?, readInt64_trim_eq_some_iff]
    constructor
    · rintro ⟨hwrites, hfits⟩
      exact .text hwrites hfits
    · intro h
      cases h with
      | text hwrites hfits => exact ⟨hwrites, hfits⟩

lemma toInt?_eq_none (h : ∀ n, ¬Denotes value n) : value.toInt? = none := by
  apply Option.eq_none_iff_forall_ne_some.mpr
  intro n hvalue
  exact h n (toInt?_eq_some_iff_denotes.mp hvalue)

/-- A double zero with its sign, and a text with blanks, a sign and zeros in front. -/
example : Denotes (.real (.zero true)) 0 ∧ Denotes (.text "\u2003+007 ") 7 :=
  ⟨.real (by simp [exactValue, Binary64.zero]) (by simp),
    toInt?_eq_some_iff_denotes.mp (by decide)⟩

lemma page_of_denied {refusal : Refusal} (h : paging.perPage asked = .error refusal)
    (number : Option PageValue) : paging.page number asked = .error refusal := by
  simp only [Paging.page, h, bind, Except.bind]

lemma page_of_granted {size : Nat} (h : paging.perPage asked = .ok size)
    (number : Option PageValue) :
    paging.page number asked = (Paging.pageNumber number).map (⟨·, size⟩) := by
  simp only [Paging.page, h, bind, Except.bind]
  cases Paging.pageNumber number <;> rfl

/-- Only the integers of the values tell the page. -/
lemma page_congr (h : value.toInt? = other.toInt?) (asked : Option PageValue) :
    paging.page (some value) asked = paging.page (some other) asked ∧
      paging.page asked (some value) = paging.page asked (some other) := by
  have hnumber : Paging.pageNumber (some value) = Paging.pageNumber (some other) := by
    simp only [Paging.pageNumber, h]
  have hsize : paging.perPage (some value) = paging.perPage (some other) := by
    simp only [Paging.perPage, h]
  constructor
  · unfold Paging.page
    rw [hnumber]
  · unfold Paging.page
    rw [hsize]

/-- A value in either place, whatever is in the other, gets the page or the refusal of the integer
that it denotes. A value that denotes none is refused with 400, for the place that it is in: a page
size always, a page number if the page size is granted, which comes first. -/
theorem page_by_denoted_integer (paging : Paging) (value : PageValue) :
    (∀ n, Denotes value n → ∀ asked,
      paging.page (some value) asked = paging.page (some (.number n)) asked ∧
      paging.page asked (some value) = paging.page asked (some (.number n))) ∧
    ((∀ n, ¬Denotes value n) →
      (∀ asked, paging.page asked (some value) = .error .invalidPerPage) ∧
      (∀ asked size, GrantsSize paging asked size →
        paging.page (some value) asked = .error .invalidPage) ∧
      ∀ asked refusal, DeniesSize paging asked refusal →
        paging.page (some value) asked = .error refusal) ∧
    Refusal.invalidPerPage.answer = (400, "Invalid \"X-Cantus-Per-Page\" header") ∧
    Refusal.invalidPage.answer = (400, "Invalid \"X-Cantus-Page\" header") := by
  refine ⟨fun n h asked => ?_, fun h => ⟨fun asked => ?_, fun asked size hsize => ?_,
    fun asked refusal hdenied => ?_⟩, rfl, rfl⟩
  · apply page_congr
    rw [toInt?_eq_some_iff_denotes.mpr h]
    rfl
  · apply page_of_denied
    exact ((told_perPage _ _).error_iff _).mpr (.noInteger (toInt?_eq_none h))
  · have hnumber : Paging.pageNumber (some value) = .error .invalidPage :=
      ((told_pageNumber _).error_iff _).mpr (.noInteger (toInt?_eq_none h))
    rw [page_of_granted (((told_perPage _ _).ok_iff size).mpr hsize), hnumber]
    rfl
  · exact page_of_denied (((told_perPage _ _).error_iff _).mpr hdenied) (some value)

end ChantSearch.Proofs

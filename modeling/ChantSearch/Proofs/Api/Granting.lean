import ChantSearch.Api.Search
import ChantSearch.Proofs.Outcomes

/-!
# Granted pages

Which page sizes and page numbers are granted, and why others are denied. A call that asks for
none is granted the default, and a size of zero stands for the greatest one.
-/

namespace ChantSearch.Proofs
open Api

/-- The page size for what a call asks for. -/
inductive GrantsSize (paging : Paging) : Option PageValue → Nat → Prop
  | absent : GrantsSize paging none paging.defaultPerPage
  | greatest {value : PageValue} (hvalue : value.toInt? = some 0) :
      GrantsSize paging (some value) paging.maxPerPage
  | asked {value : PageValue} {n : Nat} (hvalue : value.toInt? = some n) (hpos : 0 < n)
      (hle : n ≤ paging.maxPerPage) : GrantsSize paging (some value) n

/-- Why a page size is denied. -/
inductive DeniesSize (paging : Paging) : Option PageValue → Refusal → Prop
  | noInteger {value : PageValue} (hvalue : value.toInt? = none) :
      DeniesSize paging (some value) .invalidPerPage
  | negative {value : PageValue} {n : Int} (hvalue : value.toInt? = some n) (hneg : n < 0) :
      DeniesSize paging (some value) .negativePerPage
  | excessive {value : PageValue} {n : Nat} (hvalue : value.toInt? = some n)
      (hlt : paging.maxPerPage < n) (hpos : 0 < n) :
      DeniesSize paging (some value) (.excessivePerPage paging.maxPerPage)

/-- The page number for what a call asks for. -/
inductive GrantsNumber : Option PageValue → Nat → Prop
  | absent : GrantsNumber none 1
  | asked {value : PageValue} {n : Nat} (hvalue : value.toInt? = some n) (hpos : 1 ≤ n) :
      GrantsNumber (some value) n

/-- Why a page number is denied. -/
inductive DeniesNumber : Option PageValue → Refusal → Prop
  | noInteger {value : PageValue} (hvalue : value.toInt? = none) :
      DeniesNumber (some value) .invalidPage
  | belowOne {value : PageValue} {n : Int} (hvalue : value.toInt? = some n) (hlt : n < 1) :
      DeniesNumber (some value) .pageBelowOne

lemma told_perPage (paging : Paging) (value? : Option PageValue) :
    Told (paging.perPage value?) (GrantsSize paging value?) (DeniesSize paging value?) := by
  refine told_of_total (fun n h => ?_) (fun refusal h => ?_) ?_
  · cases h with
    | absent => rfl
    | greatest hvalue => simp [Paging.perPage, hvalue]
    | asked hvalue hpos hle =>
      simp [Paging.perPage, hvalue, hpos.ne', Nat.not_lt.mpr hle]
  · cases h with
    | noInteger hvalue => simp [Paging.perPage, hvalue]
    | negative hvalue hneg => simp [Paging.perPage, hvalue, hneg]
    | excessive hvalue hlt hpos => simp [Paging.perPage, hvalue, hpos.ne', hlt]
  · cases value? with
    | none => exact .inl ⟨_, .absent⟩
    | some value =>
      cases hvalue : value.toInt? with
      | none => exact .inr ⟨_, .noInteger hvalue⟩
      | some n =>
        rcases lt_or_ge n 0 with hneg | hnonneg
        · exact .inr ⟨_, .negative hvalue hneg⟩
        obtain ⟨n, rfl⟩ := Int.eq_ofNat_of_zero_le hnonneg
        rcases Nat.eq_zero_or_pos n with rfl | hpos
        · exact .inl ⟨_, .greatest hvalue⟩
        rcases Nat.lt_or_ge paging.maxPerPage n with hlt | hle
        · exact .inr ⟨_, .excessive hvalue hlt hpos⟩
        · exact .inl ⟨_, .asked hvalue hpos hle⟩

lemma told_pageNumber (value? : Option PageValue) :
    Told (Paging.pageNumber value?) (GrantsNumber value?) (DeniesNumber value?) := by
  refine told_of_total (fun n h => ?_) (fun refusal h => ?_) ?_
  · cases h with
    | absent => rfl
    | asked hvalue hpos => simp [Paging.pageNumber, hvalue, Nat.ne_of_gt hpos]
  · cases h with
    | noInteger hvalue => simp [Paging.pageNumber, hvalue]
    | belowOne hvalue hlt => simp [Paging.pageNumber, hvalue, hlt]
  · cases value? with
    | none => exact .inl ⟨_, .absent⟩
    | some value =>
      cases hvalue : value.toInt? with
      | none => exact .inr ⟨_, .noInteger hvalue⟩
      | some n =>
        rcases lt_or_ge n 1 with hlt | hge
        · exact .inr ⟨_, .belowOne hvalue hlt⟩
        obtain ⟨n, rfl⟩ := Int.eq_ofNat_of_zero_le (by omega : 0 ≤ n)
        exact .inl ⟨_, .asked hvalue (by omega)⟩

/-- A page is denied for its size, or else for its number. -/
lemma told_page (paging : Paging) (number? size? : Option PageValue) :
    Told (paging.page number? size?)
      (fun page => GrantsNumber number? page.page ∧ GrantsSize paging size? page.perPage)
      (fun refusal => DeniesSize paging size? refusal ∨
        (∃ size, GrantsSize paging size? size) ∧ DeniesNumber number? refusal) := by
  have hsteps := (told_perPage paging size?).bind fun size _ =>
    (told_pageNumber number?).bind fun number _ => told_pure (Page.mk number size)
  refine ⟨fun page => (hsteps.ok_iff page).trans ⟨?_, ?_⟩,
    fun refusal => (hsteps.error_iff refusal).trans ⟨?_, ?_⟩⟩
  · rintro ⟨size, hsize, number, hnumber, rfl⟩
    exact ⟨hnumber, hsize⟩
  · rintro ⟨hnumber, hsize⟩
    exact ⟨_, hsize, _, hnumber, rfl⟩
  · rintro (hdenied | ⟨size, hsize, hdenied | ⟨_, _, ⟨⟩⟩⟩)
    · exact .inl hdenied
    · exact .inr ⟨⟨size, hsize⟩, hdenied⟩
  · rintro (hdenied | ⟨⟨size, hsize⟩, hdenied⟩)
    · exact .inl hdenied
    · exact .inr ⟨size, hsize, .inl hdenied⟩

end ChantSearch.Proofs

import ChantSearch.Proofs.Text.Trimming
import ChantSearch.Text.Integer

/-!
# Integers and the texts that denote them

A text denotes an integer if it is digits, to which a sign may be put in front, between blanks. The
integers of 64 bits are read from exactly the texts that denote them. The digits that a number is
written with denote it.
-/

namespace ChantSearch.Proofs

variable {cs ds : List Char} {m : Nat} {n : Int} {s : String}

def digitValue (c : Char) : Nat :=
  c.toNat - '0'.toNat

/-- The number that decimal digits denote. The last digit counts ones. -/
def decimalValue (ds : List Char) : Nat :=
  Nat.ofDigits 10 (ds.reverse.map digitValue)

/-- One or more decimal digits. -/
structure Digits (ds : List Char) : Prop where
  nonempty : ds ≠ []
  digits : ∀ c ∈ ds, c.isDigit = true

lemma decimalValue_eq (ds : List Char) : decimalValue ds = Nat.ofDigitChars 10 ds 0 := by
  rw [decimalValue, Nat.ofDigits_eq_foldr, List.foldr_map, List.foldr_reverse]
  simp only [Nat.cast_id, Nat.add_comm]
  rfl

lemma readDigits_eq_some_iff :
    Text.readDigits ds = some m ↔ Digits ds ∧ m = decimalValue ds := by
  have hvalue : decimalValue ds =
      ds.foldl (fun n c => 10 * n + (c.toNat - '0'.toNat)) 0 := decimalValue_eq ds
  rw [Text.readDigits, ← hvalue]
  constructor
  · intro h
    split at h
    · simp at h
    · next hnot =>
      simp only [Bool.or_eq_true, Bool.not_eq_true', not_or, List.isEmpty_iff, Bool.not_eq_false,
        List.all_eq_true] at hnot
      exact ⟨⟨hnot.1, hnot.2⟩, (Option.some.inj h).symm⟩
  · rintro ⟨⟨hne, hdigits⟩, rfl⟩
    rw [if_neg]
    simpa [hne] using hdigits

lemma readDigits_toString (n : Nat) : Text.readDigits (toString n).toList = some n := by
  have htext : (toString n).toList = Nat.toDigits 10 n := Nat.toList_repr
  rw [htext, readDigits_eq_some_iff, decimalValue_eq, Nat.ofDigitChars_ten_toDigits]
  refine ⟨⟨Nat.toDigits_ne_nil, fun c hc => ?_⟩, rfl⟩
  exact Nat.isDigit_of_mem_toDigits (by decide) (by decide) hc

/-- Digits for an integer, with a sign in front or without. -/
inductive SpellsInteger : List Char → Int → Prop
  | unsigned {ds : List Char} (h : Digits ds) : SpellsInteger ds (decimalValue ds)
  | plus {ds : List Char} (h : Digits ds) : SpellsInteger ('+' :: ds) (decimalValue ds)
  | minus {ds : List Char} (h : Digits ds) : SpellsInteger ('-' :: ds) (-decimalValue ds)

/-- The text is blanks, the spelling of an integer, and blanks. -/
def Writes (s : String) (n : Int) : Prop :=
  ∃ before word after, s.toList = before ++ (word ++ after) ∧
    (∀ c ∈ before, Text.isBlank c = true) ∧ (∀ c ∈ after, Text.isBlank c = true) ∧
    SpellsInteger word n

lemma readDigits_map_eq_some_iff {f : Int → Int} :
    (Text.readDigits ds >>= fun m => pure (m : Int)).map f = some n ↔
      Digits ds ∧ n = f (decimalValue ds) := by
  cases hread : Text.readDigits ds with
  | none =>
    have hnone : ¬Digits ds := fun h => by simp [readDigits_eq_some_iff.mpr ⟨h, rfl⟩] at hread
    simp [hnone]
  | some m =>
    obtain ⟨hdigits, rfl⟩ := readDigits_eq_some_iff.mp hread
    simp [hdigits, eq_comm]

lemma readSigned_eq_some_iff : Text.readSigned s = some n ↔ SpellsInteger s.toList n := by
  unfold Text.readSigned
  split
  · next ds hs =>
    rw [readDigits_map_eq_some_iff, hs]
    constructor
    · rintro ⟨hdigits, rfl⟩
      exact .minus hdigits
    · intro h
      cases h with
      | unsigned h => exact absurd (h.digits '-' List.mem_cons_self) (by decide)
      | minus h => exact ⟨h, rfl⟩
  · next ds hs =>
    rw [readDigits_map_eq_some_iff, hs]
    constructor
    · rintro ⟨hdigits, rfl⟩
      exact .plus hdigits
    · intro h
      cases h with
      | unsigned h => exact absurd (h.digits '+' List.mem_cons_self) (by decide)
      | plus h => exact ⟨h, rfl⟩
  · next hminus hplus =>
    rw [readDigits_map_eq_some_iff]
    constructor
    · rintro ⟨hdigits, rfl⟩
      exact .unsigned hdigits
    · intro h
      generalize hs : s.toList = ds at h
      cases h with
      | unsigned h => exact ⟨h, rfl⟩
      | plus h => exact absurd hs (hplus _)
      | minus h => exact absurd hs (hminus _)

/-- Nothing in the spelling of an integer is a blank. -/
lemma SpellsInteger.not_blank (h : SpellsInteger cs n) : ∀ c ∈ cs, Text.isBlank c = false := by
  have hdigit {ds : List Char} (hds : Digits ds) : ∀ c ∈ ds, Text.isBlank c = false := by
    intro c hc
    obtain ⟨hlow, hhigh⟩ : 48 ≤ c.toNat ∧ c.toNat ≤ 57 :=
      Char.isDigit_iff_toNat.mp (hds.digits c hc)
    simp only [Text.isBlank, Text.blankRanges, List.any_cons, List.any_nil, Bool.or_eq_false_iff,
      Bool.and_eq_false_iff, decide_eq_false_iff_not, and_true]
    omega
  cases h with
  | unsigned hds => exact hdigit hds
  | plus hds => exact List.forall_mem_cons.mpr ⟨by decide, hdigit hds⟩
  | minus hds => exact List.forall_mem_cons.mpr ⟨by decide, hdigit hds⟩

lemma SpellsInteger.ne_nil (h : SpellsInteger cs n) : cs ≠ [] := by
  cases h with
  | unsigned hds => exact hds.nonempty
  | plus hds => simp
  | minus hds => simp

/-- Trimming the text of an integer leaves its spelling. -/
lemma SpellsInteger.trim_eq (h : SpellsInteger cs n) {before after : List Char}
    (hs : s.toList = before ++ (cs ++ after)) (hbefore : ∀ c ∈ before, Text.isBlank c = true)
    (hafter : ∀ c ∈ after, Text.isBlank c = true) : (Text.trim s).toList = cs := by
  apply Proofs.trim_eq hs hbefore hafter
  · obtain ⟨c, rest, rfl⟩ := List.exists_cons_of_ne_nil h.ne_nil
    exact stops_cons.mpr (h.not_blank c List.mem_cons_self)
  · refine ⟨cs.dropLast, cs.getLast h.ne_nil, (List.dropLast_append_getLast h.ne_nil).symm, ?_⟩
    simpa using h.not_blank _ (List.getLast_mem h.ne_nil)

/-- An integer of 64 bits is read from exactly the texts that write it. -/
lemma readInt64_trim_eq_some_iff :
    Text.readInt64 (Text.trim s) = some n ↔ Writes s n ∧ -2 ^ 63 ≤ n ∧ n < 2 ^ 63 := by
  have hfits : (decide (-(Nat.pow 2 63 : Int) ≤ n) && decide (n < (Nat.pow 2 63 : Int))) = true ↔
      -2 ^ 63 ≤ n ∧ n < 2 ^ 63 := by
    simp
  rw [Text.readInt64, Option.filter_eq_some_iff, readSigned_eq_some_iff, hfits]
  apply and_congr_left
  intro _
  constructor
  · intro h
    obtain ⟨before, after, hs, hbefore, hafter⟩ := trim_split s
    exact ⟨before, _, after, hs, hbefore, hafter, h⟩
  · rintro ⟨before, word, after, hs, hbefore, hafter, h⟩
    rwa [h.trim_eq hs hbefore hafter]

end ChantSearch.Proofs

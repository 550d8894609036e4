import ChantSearch.Proofs.Grammar.Nesting
import ChantSearch.Text.Blank

/-!
# Contained texts

A text can be put between parentheses without closing them if its own parentheses are closed in
it, its quotes come in pairs, and no parenthesis stands in quotes. Each character changes at
most one of two things, whether a quote is open and how many parentheses are; a text that ends
as it began, and never closes more than it opened, has all of these properties.
-/

namespace ChantSearch.Proofs
open Query

variable {xs ys : List Char} {x : Char}

/-- Where in a text one is: between quotes or not, and in how many parentheses. -/
structure Place where
  quoted : Bool
  depth : Nat
  deriving DecidableEq

namespace Place

/-- The place behind a character. Parentheses must not stand in quotes nor close what is not
open. -/
def step (p : Place) (x : Char) : Option Place :=
  if x = '"' then some ⟨!p.quoted, p.depth⟩
  else if x = '(' then if p.quoted then none else some ⟨false, p.depth + 1⟩
  else if x = ')' then if p.quoted ∨ p.depth = 0 then none else some ⟨false, p.depth - 1⟩
  else some p

def behind (p : Place) (xs : List Char) : Option Place :=
  xs.foldlM step p

/-- The same place in one more pair of parentheses. -/
def inside (p : Place) : Place :=
  ⟨p.quoted, p.depth + 1⟩

/-- How many characters stand before the parenthesis that closes the outermost one. -/
def closing? (p : Place) : List Char → Option Nat
  | [] => none
  | x :: xs =>
    if x = ')' ∧ p = ⟨false, 1⟩ then some 0
    else (p.step x).bind fun q => (q.closing? xs).map (· + 1)

variable {p q : Place}

lemma behind_cons : p.behind (x :: xs) = (p.step x).bind (behind · xs) :=
  rfl

lemma behind_append : p.behind (xs ++ ys) = (p.behind xs).bind (behind · ys) :=
  List.foldlM_append

lemma step_uncounted (p : Place) (hx : isUncounted x = true) : p.step x = some p := by
  obtain ⟨hquote, hopen, hclose⟩ := isUncounted_iff.mp hx
  rw [step, if_neg hquote, if_neg hopen, if_neg hclose]

lemma behind_uncounted (p : Place) (hxs : ∀ x ∈ xs, isUncounted x = true) :
    p.behind xs = some p := by
  induction xs with
  | nil => rfl
  | cons x xs ih =>
    rw [behind_cons, p.step_uncounted (hxs x (by simp)), Option.bind_some]
    exact ih fun y hy => hxs y (by simp [hy])

/-- The four ways on from a place. -/
inductive Moves : Place → Char → Place → Prop
  | quote (p : Place) : Moves p '"' ⟨!p.quoted, p.depth⟩
  | opening (depth : Nat) : Moves ⟨false, depth⟩ '(' ⟨false, depth + 1⟩
  | closing (depth : Nat) : Moves ⟨false, depth + 1⟩ ')' ⟨false, depth⟩
  | other (p : Place) {x : Char} (hx : isUncounted x = true) : Moves p x p

lemma step_eq_some_iff : p.step x = some q ↔ Moves p x q := by
  constructor
  · intro h
    obtain ⟨quoted, depth⟩ := p
    rw [step] at h
    split at h
    · next hx =>
        obtain rfl := Option.some.inj h
        exact hx ▸ .quote _
    split at h
    · next hx =>
        cases quoted with
        | true => exact absurd h (by simp)
        | false =>
          obtain rfl := Option.some.inj h
          exact hx ▸ .opening depth
    split at h
    · next hx =>
        cases quoted with
        | true => exact absurd h (by simp)
        | false =>
          cases depth with
          | zero => exact absurd h (by simp)
          | succ depth =>
            obtain rfl := Option.some.inj h
            exact hx ▸ .closing depth
    · next hquote hopen hclose =>
        obtain rfl := Option.some.inj h
        exact .other _ (isUncounted_iff.mpr ⟨hquote, hopen, hclose⟩)
  · intro h
    cases h with
    | other _ hx => exact p.step_uncounted hx
    | quote | opening | closing => rfl

/-- What a text has closed, it had opened, and it is in quotes after an odd number of them. -/
lemma behind_counts (h : p.behind xs = some q) :
    q.depth + xs.count ')' = p.depth + xs.count '(' ∧
      (q.quoted = p.quoted ↔ Even (xs.count '"')) := by
  induction xs generalizing p with
  | nil =>
    obtain rfl := Option.some.inj h
    simp
  | cons x xs ih =>
    rw [behind_cons, Option.bind_eq_some_iff] at h
    obtain ⟨next, hstep, hrest⟩ := h
    obtain ⟨hdepth, hquoted⟩ := ih hrest
    cases step_eq_some_iff.mp hstep with
    | quote =>
      refine ⟨by simpa using hdepth, ?_⟩
      rw [List.count_cons_self, Nat.even_add_one, ← hquoted]
      simp
    | opening depth =>
      refine ⟨?_, by simpa using hquoted⟩
      rw [List.count_cons_self, List.count_cons_of_ne (by decide), hdepth]
      exact Nat.add_right_comm depth 1 _
    | closing depth =>
      refine ⟨?_, by simpa using hquoted⟩
      rw [List.count_cons_self, List.count_cons_of_ne (by decide), ← Nat.add_assoc, hdepth]
      exact Nat.add_right_comm depth _ 1
    | other _ hx =>
      obtain ⟨hquote, hopen, hclose⟩ := isUncounted_iff.mp hx
      rw [List.count_cons_of_ne hquote, List.count_cons_of_ne hopen, List.count_cons_of_ne hclose]
      exact ⟨hdepth, hquoted⟩

lemma step_inside (h : p.step x = some q) : p.inside.step x = some q.inside := by
  rw [step_eq_some_iff] at h ⊢
  cases h with
  | quote => exact .quote _
  | opening depth => exact .opening _
  | closing depth => exact .closing _
  | other _ hx => exact .other _ hx

/-- The parenthesis that closes the outermost one is not in a text that can be passed over. -/
lemma closing?_inside (h : p.behind xs = some q) (rest : List Char) :
    p.inside.closing? (xs ++ rest) = (q.inside.closing? rest).map (· + xs.length) := by
  induction xs generalizing p with
  | nil =>
    obtain rfl := Option.some.inj h
    simp
  | cons x xs ih =>
    rw [behind_cons, Option.bind_eq_some_iff] at h
    obtain ⟨next, hstep, hrest⟩ := h
    have hnot : ¬(x = ')' ∧ p.inside = ⟨false, 1⟩) := by
      rintro ⟨rfl, hp⟩
      obtain ⟨quoted, depth⟩ := p
      obtain ⟨rfl, rfl⟩ : quoted = false ∧ depth = 0 := by simpa [inside] using hp
      exact absurd hstep (by simp [step])
    rw [List.cons_append, closing?, if_neg hnot, step_inside hstep, Option.bind_some, ih hrest,
      Option.map_map]
    rfl

end Place

/-- Outside of quotes, the text leads back to the place before it. -/
def Contained (xs : List Char) : Prop :=
  ∀ depth, Place.behind ⟨false, depth⟩ xs = some ⟨false, depth⟩

lemma contained_uncounted (hxs : ∀ x ∈ xs, isUncounted x = true) : Contained xs :=
  fun _ => Place.behind_uncounted _ hxs

lemma contained_of_all (hxs : xs.all isUncounted = true) : Contained xs :=
  contained_uncounted (List.all_eq_true.mp hxs)

lemma contained_nil : Contained [] :=
  fun _ => rfl

lemma Contained.append (hxs : Contained xs) (hys : Contained ys) : Contained (xs ++ ys) := by
  intro depth
  rw [Place.behind_append, hxs, Option.bind_some, hys]

lemma Contained.parenthesised (h : Contained xs) : Contained ('(' :: (xs ++ [')'])) := by
  intro depth
  have hopen : Place.step ⟨false, depth⟩ '(' = some ⟨false, depth + 1⟩ := rfl
  rw [Place.behind_cons, hopen, Option.bind_some, Place.behind_append, h, Option.bind_some]
  rfl

lemma contained_quoted (hxs : ∀ x ∈ xs, isUncounted x = true) :
    Contained ('"' :: xs ++ ['"']) := by
  intro depth
  have hopen : Place.step ⟨false, depth⟩ '"' = some ⟨true, depth⟩ := rfl
  rw [List.cons_append, Place.behind_cons, hopen, Option.bind_some, Place.behind_append,
    Place.behind_uncounted _ hxs]
  rfl

/-- Characters at the ends that are neither quotes nor parentheses make no difference. -/
lemma Contained.middle {before after : List Char} (h : Contained (before ++ (xs ++ after)))
    (hbefore : ∀ x ∈ before, isUncounted x = true) (hafter : ∀ x ∈ after, isUncounted x = true) :
    Contained xs := by
  intro depth
  have hall := h depth
  rw [Place.behind_append, Place.behind_uncounted _ hbefore, Option.bind_some, Place.behind_append,
    Option.bind_eq_some_iff] at hall
  obtain ⟨p, hxs, hp⟩ := hall
  rw [Place.behind_uncounted _ hafter] at hp
  rw [hxs, hp]

namespace Contained

lemma even_quotes (h : Contained xs) : Even (xs.count '"') := by
  simpa using (Place.behind_counts (h 0)).2

lemma balanced (h : Contained xs) : xs.count '(' = xs.count ')' := by
  have hcounts := (Place.behind_counts (h 0)).1
  omega

/-- No parenthesis has an odd number of quotes before it. -/
lemma unquoted {before after : List Char} (h : Contained (before ++ x :: after))
    (hx : x = '(' ∨ x = ')') : Even (before.count '"') := by
  have hall := h 0
  rw [Place.behind_append, Option.bind_eq_some_iff] at hall
  obtain ⟨p, hbefore, hall⟩ := hall
  rw [Place.behind_cons, Option.bind_eq_some_iff] at hall
  obtain ⟨q, hstep, _⟩ := hall
  have hquoted : p.quoted = false := by
    cases Place.step_eq_some_iff.mp hstep with
    | quote => exact absurd hx (by decide)
    | opening depth => rfl
    | closing depth => rfl
    | other _ hcounted => rcases hx with rfl | rfl <;> exact absurd hcounted (by decide)
  exact (Place.behind_counts hbefore).2.mp hquoted

lemma nested {before after : List Char} (h : Contained (before ++ after)) :
    before.count ')' ≤ before.count '(' := by
  have hall := h 0
  rw [Place.behind_append, Option.bind_eq_some_iff] at hall
  obtain ⟨p, hbefore, _⟩ := hall
  have hcounts : p.depth + before.count ')' = 0 + before.count '(' :=
    (Place.behind_counts hbefore).1
  omega

/-- The parenthesis behind the text is the one that closes the parenthesis before it. -/
lemma closing?_eq (h : Contained xs) (rest : List Char) :
    Place.closing? ⟨false, 1⟩ (xs ++ ')' :: rest) = some xs.length := by
  have hinside := Place.closing?_inside (h 0) (')' :: rest)
  have hfirst : Place.closing? ⟨false, 1⟩ (')' :: rest) = some 0 := rfl
  rw [Place.inside, hfirst] at hinside
  simpa using hinside

end Contained

end ChantSearch.Proofs

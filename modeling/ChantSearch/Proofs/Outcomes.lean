import Mathlib

/-!
# Outcomes told by relations

An outcome is told by two relations if the one holds of what it succeeds with and the other of
what it fails with. Outcomes in a row fail as the first of them that fails.
-/

namespace ChantSearch.Proofs

variable {ε α β : Type}

/-- The outcome succeeds and fails with what the relations say. -/
structure Told (outcome : Except ε α) (Good : α → Prop) (Bad : ε → Prop) : Prop where
  ok_iff : ∀ a, outcome = .ok a ↔ Good a
  error_iff : ∀ e, outcome = .error e ↔ Bad e

/-- Relations that leave no case out tell an outcome if it agrees with them. -/
lemma told_of_total {outcome : Except ε α} {Good : α → Prop} {Bad : ε → Prop}
    (hgood : ∀ a, Good a → outcome = .ok a) (hbad : ∀ e, Bad e → outcome = .error e)
    (htotal : (∃ a, Good a) ∨ ∃ e, Bad e) : Told outcome Good Bad where
  ok_iff a := by
    refine ⟨fun h => ?_, hgood a⟩
    rcases htotal with ⟨b, hb⟩ | ⟨e, he⟩
    · rw [hgood b hb] at h
      cases h
      exact hb
    · rw [hbad e he] at h
      cases h
  error_iff e := by
    refine ⟨fun h => ?_, hbad e⟩
    rcases htotal with ⟨a, ha⟩ | ⟨e', he⟩
    · rw [hgood a ha] at h
      cases h
    · rw [hbad e' he] at h
      cases h
      exact he

lemma Told.total {outcome : Except ε α} {Good : α → Prop} {Bad : ε → Prop}
    (h : Told outcome Good Bad) : (∃ a, Good a) ∨ ∃ e, Bad e := by
  cases houtcome : outcome with
  | ok a => exact .inl ⟨a, (h.ok_iff a).mp houtcome⟩
  | error e => exact .inr ⟨e, (h.error_iff e).mp houtcome⟩

lemma Told.unique {outcome : Except ε α} {Good : α → Prop} {Bad : ε → Prop}
    (h : Told outcome Good Bad) {a b : α} (ha : Good a) (hb : Good b) : a = b :=
  Except.ok.inj (((h.ok_iff a).mpr ha).symm.trans ((h.ok_iff b).mpr hb))

lemma Told.disjoint {outcome : Except ε α} {Good : α → Prop} {Bad : ε → Prop}
    (h : Told outcome Good Bad) {a : α} {e : ε} (ha : Good a) : ¬Bad e := by
  intro he
  have hok := (h.ok_iff a).mpr ha
  rw [(h.error_iff e).mpr he] at hok
  cases hok

lemma told_pure (a : α) : Told (pure a : Except ε α) (· = a) fun _ => False :=
  ⟨fun _ => ⟨fun h => (Except.ok.inj h).symm, fun h => congrArg Except.ok h.symm⟩,
    fun _ => ⟨nofun, nofun⟩⟩

/-- A step fails, or else what follows it does. -/
lemma Told.bind {step : Except ε α} {rest : α → Except ε β} {Good : α → Prop} {Bad : ε → Prop}
    {Good' : α → β → Prop} {Bad' : α → ε → Prop} (h : Told step Good Bad)
    (hrest : ∀ a, Good a → Told (rest a) (Good' a) (Bad' a)) :
    Told (step >>= rest) (fun b => ∃ a, Good a ∧ Good' a b)
      (fun e => Bad e ∨ ∃ a, Good a ∧ Bad' a e) := by
  refine told_of_total (fun b ⟨a, ha, hb⟩ => ?_) (fun e he => ?_) ?_
  · rw [(h.ok_iff a).mpr ha]
    exact ((hrest a ha).ok_iff b).mpr hb
  · rcases he with he | ⟨a, ha, he⟩
    · rw [(h.error_iff e).mpr he]
      rfl
    · rw [(h.ok_iff a).mpr ha]
      exact ((hrest a ha).error_iff e).mpr he
  · rcases h.total with ⟨a, ha⟩ | ⟨e, he⟩
    · rcases (hrest a ha).total with ⟨b, hb⟩ | ⟨e, he⟩
      · exact .inl ⟨b, a, ha, hb⟩
      · exact .inr ⟨e, .inr ⟨a, ha, he⟩⟩
    · exact .inr ⟨e, .inl he⟩

lemma eq_ok_of_toOption {outcome : Except ε α} {a : α} (h : outcome.toOption = some a) :
    outcome = .ok a := by
  cases outcome with
  | ok b => exact congrArg Except.ok (Option.some.inj h)
  | error e => cases h

lemma mapError_eq_ok_iff {outcome : Except ε α} {g : ε → β} {a : α} :
    outcome.mapError g = .ok a ↔ outcome = .ok a := by
  cases outcome <;> simp [Except.mapError]

lemma mapError_eq_error_iff {outcome : Except ε α} {g : ε → β} {b : β} :
    outcome.mapError g = .error b ↔ ∃ e, outcome = .error e ∧ g e = b := by
  cases outcome <;> simp [Except.mapError]

/-- The first member of a list that fails, fails so. -/
def FirstFailure (Good : α → β → Prop) (Bad : α → ε → Prop) (xs : List α) (e : ε) : Prop :=
  ∃ before x after, xs = before ++ x :: after ∧ (∀ y ∈ before, ∃ b, Good y b) ∧ Bad x e

variable {Good : α → β → Prop} {Bad : α → ε → Prop} {f : α → Except ε β}

lemma mapM_eq_ok {xs : List α} {ys : List β} (h : List.Forall₂ (fun x y => f x = .ok y) xs ys) :
    xs.mapM f = .ok ys := by
  induction h with
  | nil => rfl
  | cons hhead _ ih =>
    rw [List.mapM_cons, hhead, ih]
    rfl

lemma mapM_eq_error {before after : List α} {x : α} {e : ε}
    (hbefore : ∀ y ∈ before, ∃ b, f y = .ok b) (hx : f x = .error e) :
    (before ++ x :: after).mapM f = .error e := by
  induction before with
  | nil =>
    rw [List.nil_append, List.mapM_cons, hx]
    rfl
  | cons y before ih =>
    obtain ⟨b, hb⟩ := hbefore y List.mem_cons_self
    have hrest := ih fun z hz => hbefore z (List.mem_cons_of_mem y hz)
    rw [List.cons_append, List.mapM_cons, hb, hrest]
    rfl

lemma forall₂_or_firstFailure (h : ∀ x, (∃ b, Good x b) ∨ ∃ e, Bad x e) (xs : List α) :
    (∃ ys, List.Forall₂ Good xs ys) ∨ ∃ e, FirstFailure Good Bad xs e := by
  induction xs with
  | nil => exact .inl ⟨[], .nil⟩
  | cons x xs ih =>
    rcases h x with ⟨b, hb⟩ | ⟨e, he⟩
    · rcases ih with ⟨ys, hys⟩ | ⟨e, before, z, after, rfl, hbefore, hz⟩
      · exact .inl ⟨b :: ys, .cons hb hys⟩
      · refine .inr ⟨e, x :: before, z, after, rfl, ?_, hz⟩
        rintro y (_ | ⟨_, hy⟩)
        · exact ⟨b, hb⟩
        · exact hbefore y hy
    · exact .inr ⟨e, [], x, xs, rfl, by simp, he⟩

lemma exists_forall₂_iff {R : α → β → Prop} {xs : List α} :
    (∃ ys, List.Forall₂ R xs ys) ↔ ∀ x ∈ xs, ∃ y, R x y := by
  induction xs with
  | nil => simp
  | cons x xs ih =>
    rw [List.forall_mem_cons, ← ih]
    constructor
    · rintro ⟨_, _ | ⟨hx, hxs⟩⟩
      exact ⟨⟨_, hx⟩, _, hxs⟩
    · rintro ⟨⟨y, hx⟩, ys, hxs⟩
      exact ⟨y :: ys, .cons hx hxs⟩

/-- A member of the one list has a partner at its place in the other. -/
lemma forall₂_split {R : α → β → Prop} {xs : List α} {before after : List β} {y : β}
    (h : List.Forall₂ R xs (before ++ y :: after)) :
    ∃ first x others, xs = first ++ x :: others ∧ first.length = before.length ∧ R x y ∧
      List.Forall₂ R others after := by
  have hfirst := List.forall₂_take_append xs before _ h
  have hrest := List.forall₂_drop_append xs before _ h
  obtain ⟨x, others, hx, hothers, hdrop⟩ := List.forall₂_cons_right_iff.mp hrest
  refine ⟨xs.take before.length, x, others, ?_, hfirst.length_eq, hx, hothers⟩
  rw [← hdrop, List.take_append_drop]

lemma forall₂_comp {γ : Type} {R : α → β → Prop} {S : β → γ → Prop} {xs : List α} {ys : List β}
    {zs : List γ} (h : List.Forall₂ R xs ys) (h' : List.Forall₂ S ys zs) :
    List.Forall₂ (Relation.Comp R S) xs zs := by
  induction h generalizing zs with
  | nil =>
    cases h' with
    | nil => exact .nil
  | cons hhead _ ih =>
    cases h' with
    | cons hhead' htail' => exact .cons ⟨_, hhead, hhead'⟩ (ih htail')

/-- Outcomes in a row all succeed, or the first failure is that of the whole. -/
lemma told_mapM (h : ∀ x, Told (f x) (Good x) (Bad x)) (xs : List α) :
    Told (xs.mapM f) (List.Forall₂ Good xs) (FirstFailure Good Bad xs) := by
  refine told_of_total (fun ys hys => ?_) (fun e he => ?_)
    (forall₂_or_firstFailure (fun x => (h x).total) xs)
  · exact mapM_eq_ok (hys.imp fun x y hxy => ((h x).ok_iff y).mpr hxy)
  · obtain ⟨before, x, after, rfl, hbefore, hx⟩ := he
    refine mapM_eq_error (fun y hy => ?_) (((h x).error_iff e).mpr hx)
    obtain ⟨b, hb⟩ := hbefore y hy
    exact ⟨b, ((h y).ok_iff b).mpr hb⟩

end ChantSearch.Proofs

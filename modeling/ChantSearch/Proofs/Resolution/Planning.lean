import Mathlib
import ChantSearch.Resolution.Slot

/-!
# Planning a list of components

Any list of components is planned from its front, whether it comes from a query or not: the
component there has a slot of its own, or one that it shares with the group behind it. A slot
does not depend on what stands behind its components.
-/

namespace ChantSearch.Proofs
open Query Resolution

variable {schema : Schema} {slot : Slot} {component : Component} {cs : List Component}

/-- One step of the search for a closing marker ends it or leaves it to the rest. -/
lemma closingAt_cons (depth : Nat) (c : Component) :
    (∀ cs, closingAt depth (c :: cs) = some 1) ∨
      ∃ next, ∀ cs, closingAt depth (c :: cs) = (closingAt next cs).map (· + 1) := by
  cases c with
  | bare value => exact .inr ⟨depth, fun _ => rfl⟩
  | field name value => exact .inr ⟨depth, fun _ => rfl⟩
  | marker m =>
    cases m with
    | connective k => exact .inr ⟨depth, fun _ => rfl⟩
    | sign s => exact .inr ⟨depth, fun _ => rfl⟩
    | opening => exact .inr ⟨depth + 1, fun _ => rfl⟩
    | closing =>
      by_cases hdepth : depth ≤ 1
      · exact .inl fun cs => by rw [closingAt, if_pos hdepth]
      · exact .inr ⟨depth - 1, fun cs => by rw [closingAt, if_neg hdepth]⟩

/-- A marker that closes a group is found without a look at what follows it. -/
lemma closingAt_of_append {depth n : Nat} {rest : List Component}
    (h : closingAt depth (cs ++ rest) = some n) (hn : n ≤ cs.length) :
    closingAt depth cs = some n := by
  induction cs generalizing depth n with
  | nil =>
    obtain rfl := Nat.le_zero.mp hn
    cases rest with
    | nil => exact h
    | cons c rest =>
      rcases closingAt_cons depth c with hend | ⟨next, hnext⟩
      · simp [hend] at h
      · simp [hnext] at h
  | cons c cs ih =>
    rcases closingAt_cons depth c with hend | ⟨next, hnext⟩
    · rw [List.cons_append, hend] at h
      rw [hend, h]
    · rw [List.cons_append, hnext] at h
      obtain ⟨m, hm, rfl⟩ := Option.map_eq_some_iff.mp h
      rw [hnext, ih hm (by simpa using hn)]
      rfl

lemma scopedGroup_of_append {c : Component} {rest : List Component} {group : ScopedGroup}
    (h : scopedGroup 0 (c :: (cs ++ rest)) = .ok group) (hlength : group.length ≤ cs.length + 1) :
    scopedGroup 0 (c :: cs) = .ok group := by
  unfold scopedGroup at h ⊢
  simp only [List.head?_cons, Option.bind_some, List.tail_cons] at h ⊢
  cases hfield : c.fieldName? with
  | none => simp [hfield] at h
  | some field =>
    simp only [hfield] at h ⊢
    split at h
    · next members hmembers =>
      split at h
      · cases h
      · next n hn =>
        obtain rfl := Except.ok.inj h
        cases cs with
        | nil => simp at hlength
        | cons d cs =>
          obtain ⟨rfl, rfl⟩ := List.cons.inj hmembers
          simp only [List.length_cons] at hlength
          have hn' : closingAt 1 cs = some n := closingAt_of_append hn (by omega)
          have htake : ((c :: .marker .opening :: cs) ++ rest).take (n + 2) =
              (c :: .marker .opening :: cs).take (n + 2) :=
            List.take_append_of_le_length (by simp only [List.length_cons]; omega)
          rw [List.cons_append] at htake
          simp only [hn', htake]
    · cases h

/-- What planning makes of the component at the front of others: its slot, and how many of the
others belong to it. -/
inductive PlansFront (schema : Schema) : Component → List Component → Slot → Nat → Prop
  | keep {c : Component} {cs : List Component}
      (hfield : ∀ name value, c = .field name value → schema.crossRef? name = none) :
      PlansFront schema c cs (.keep c) 0
  | value {name value : String} {ref : CrossRef} {cs : List Component}
      (href : schema.crossRef? name = some ref) (hvalue : value ≠ "") :
      PlansFront schema (.field name value) cs (.value name value ref) 0
  | group {name : String} {ref : CrossRef} {cs : List Component} {group : ScopedGroup}
      (href : schema.crossRef? name = some ref)
      (hgroup : scopedGroup 0 (.field name "" :: cs) = .ok group) :
      PlansFront schema (.field name "") cs (.group name group.text ref) (group.length - 1)

lemma PlansFront.slotsFrom_eq {c : Component} {skip : Nat} (h : PlansFront schema c cs slot skip) :
    slotsFrom schema 0 (c :: cs) = (slotsFrom schema skip cs).map (slot :: ·) := by
  cases h with
  | keep hfield =>
    cases c with
    | bare value => rfl
    | marker m => rfl
    | field name value => simp only [slotsFrom, hfield name value rfl]
  | value href hvalue => simp only [slotsFrom, href, String.isEmpty_iff, hvalue, if_false]
  | group href hgroup =>
    simp only [slotsFrom, href, hgroup]
    rw [if_pos (by rfl)]

lemma plansFront_or_fault (schema : Schema) (c : Component) (cs : List Component) :
    (∃ slot skip, PlansFront schema c cs slot skip) ∨
      ∃ fault, slotsFrom schema 0 (c :: cs) = .error fault := by
  cases c with
  | bare value => exact .inl ⟨_, _, .keep (by simp)⟩
  | marker m => exact .inl ⟨_, _, .keep (by simp)⟩
  | field name value =>
    cases href : schema.crossRef? name with
    | none =>
      refine .inl ⟨_, _, .keep fun other _ hother => ?_⟩
      obtain ⟨rfl, _⟩ := Component.field.inj hother
      exact href
    | some ref =>
      by_cases hvalue : value = ""
      · subst hvalue
        cases hgroup : scopedGroup 0 (.field name "" :: cs) with
        | error fault => exact .inr ⟨fault, by simp [slotsFrom, href, hgroup]⟩
        | ok group => exact .inl ⟨_, _, .group href hgroup⟩
      · exact .inl ⟨_, _, .value href hvalue⟩

lemma slotsFrom_cons_eq_ok_iff {c : Component} {slots : List Slot} :
    slotsFrom schema 0 (c :: cs) = .ok slots ↔
      ∃ slot skip others, PlansFront schema c cs slot skip ∧
        slotsFrom schema skip cs = .ok others ∧ slots = slot :: others := by
  constructor
  · intro h
    rcases plansFront_or_fault schema c cs with ⟨slot, skip, hslot⟩ | ⟨fault, hfault⟩
    · rw [hslot.slotsFrom_eq] at h
      cases hothers : slotsFrom schema skip cs with
      | error fault => simp [hothers, Except.map] at h
      | ok others =>
        simp only [hothers, Except.map, Except.ok.injEq] at h
        exact ⟨slot, skip, others, hslot, hothers, h.symm⟩
    · simp [hfault] at h
  · rintro ⟨slot, skip, others, hslot, hothers, rfl⟩
    rw [hslot.slotsFrom_eq, hothers]
    rfl

/-- A component that stays has a place of its own: the slots in front of it are those of the
components in front of it. -/
lemma slotsFrom_split {skip : Nat} {first others : List Slot}
    (h : slotsFrom schema skip cs = .ok (first ++ .keep component :: others)) :
    ∃ front back, cs = front ++ component :: back ∧ skip ≤ front.length ∧
      slotsFrom schema skip front = .ok first ∧ slotsFrom schema 0 back = .ok others ∧
      ∀ name value, component = .field name value → schema.crossRef? name = none := by
  -- Along the walk. What it skips belongs to a slot in front, so it adds no slot to either side.
  induction cs generalizing skip first with
  | nil => simp [slotsFrom] at h
  | cons c cs ih =>
    cases skip with
    | succ skip =>
      obtain ⟨front, back, rfl, hskip, hfront, hback⟩ := ih h
      exact ⟨c :: front, back, rfl, by simpa using hskip, hfront, hback⟩
    | zero =>
      obtain ⟨slot, skip, rest, hslot, hrest, hslots⟩ := slotsFrom_cons_eq_ok_iff.mp h
      cases first with
      | nil =>
        obtain ⟨rfl, rfl⟩ := List.cons.inj hslots
        cases hslot with
        | keep hfield => exact ⟨[], cs, rfl, le_rfl, rfl, hrest, hfield⟩
      | cons other first =>
        obtain ⟨rfl, rfl⟩ := List.cons.inj hslots
        obtain ⟨front, back, rfl, hskip, hfront, hback, hfield⟩ := ih hrest
        refine ⟨c :: front, back, rfl, Nat.zero_le _, ?_, hback, hfield⟩
        refine slotsFrom_cons_eq_ok_iff.mpr ⟨_, skip, first, ?_, hfront, rfl⟩
        cases hslot with
        | keep hkeep => exact .keep hkeep
        | value href hvalue => exact .value href hvalue
        | group href hgroup =>
          exact .group href (scopedGroup_of_append hgroup (by omega))

end ChantSearch.Proofs

import ChantSearch.Proofs.Outcomes
import ChantSearch.Proofs.Resolution.Plan

/-!
# Groups and the markers that close them

Where a group ends is a matter of counting: up to there no front of its members closes more groups
than it opens, and the members close all that they open. There is at most one such place, and it is
the one that the search for the closing marker comes to, in any list of components.
-/

namespace ChantSearch.Proofs
open Query Resolution

variable {c : Component} {cs inner rest members back others after : List Component}
  {depth n position : Nat} {field : String} {group : ScopedGroup} {fault : GroupFault}

def opened (cs : List Component) : Nat :=
  cs.count (.marker .opening)

def closed (cs : List Component) : Nat :=
  cs.count (.marker .closing)

/-- The components close `depth` groups that are open in front of them, and all that they open.
No front of them closes more than are open. -/
structure Closes (depth : Nat) (cs : List Component) : Prop where
  front : ∀ front, front <+: cs → closed front ≤ opened front + depth
  whole : closed cs = opened cs + depth

/-- Every group that is opened is closed, and no other. -/
def Paired (cs : List Component) : Prop :=
  Closes 0 cs

instance (depth : Nat) (cs : List Component) : Decidable (Closes depth cs) :=
  decidable_of_iff ((∀ front ∈ cs.inits, closed front ≤ opened front + depth) ∧
      closed cs = opened cs + depth)
    ⟨fun ⟨hfront, hwhole⟩ => ⟨fun front h => hfront front ((List.mem_inits front cs).mpr h), hwhole⟩,
      fun h => ⟨fun front hmem => h.front front ((List.mem_inits front cs).mp hmem), h.whole⟩⟩

instance (cs : List Component) : Decidable (Paired cs) :=
  inferInstanceAs (Decidable (Closes 0 cs))

lemma opened_cons (c : Component) (cs : List Component) :
    opened (c :: cs) = opened [c] + opened cs := by
  simp [opened, List.count_cons, Nat.add_comm]

lemma closed_cons (c : Component) (cs : List Component) :
    closed (c :: cs) = closed [c] + closed cs := by
  simp [closed, List.count_cons, Nat.add_comm]

lemma closes_nil_iff : Closes depth [] ↔ depth = 0 := by
  constructor
  · intro h
    simpa [opened, closed, eq_comm] using h.whole
  · rintro rfl
    refine ⟨fun front hfront => ?_, rfl⟩
    rw [List.prefix_nil.mp hfront]
    exact le_rfl

lemma closes_cons_iff :
    Closes depth (c :: cs) ↔
      closed [c] ≤ opened [c] + depth ∧ Closes (depth + opened [c] - closed [c]) cs := by
  constructor
  · intro h
    have hone := h.front [c] ⟨cs, rfl⟩
    refine ⟨hone, fun front hfront => ?_, ?_⟩
    · have hmore := h.front (c :: front) (List.prefix_cons_inj c |>.mpr hfront)
      rw [opened_cons, closed_cons] at hmore
      omega
    · have hwhole := h.whole
      rw [opened_cons, closed_cons] at hwhole
      omega
  · rintro ⟨hone, h⟩
    refine ⟨fun front hfront => ?_, ?_⟩
    · rcases List.prefix_cons_iff.mp hfront with rfl | ⟨more, rfl, hmore⟩
      · exact Nat.zero_le _
      · have hrest := h.front more hmore
        rw [opened_cons, closed_cons]
        omega
    · have hwhole := h.whole
      rw [opened_cons, closed_cons]
      omega

lemma closes_opening_iff : Closes depth (.marker .opening :: cs) ↔ Closes (depth + 1) cs := by
  rw [closes_cons_iff]
  simp [opened, closed]

lemma closes_closing_iff :
    Closes depth (.marker .closing :: cs) ↔ 1 ≤ depth ∧ Closes (depth - 1) cs := by
  rw [closes_cons_iff]
  simp [opened, closed]

lemma closes_other_iff (hopen : c ≠ .marker .opening) (hclose : c ≠ .marker .closing) :
    Closes depth (c :: cs) ↔ Closes depth cs := by
  rw [closes_cons_iff]
  simp [opened, closed, hopen, hclose]

lemma closingAt_other (hopen : c ≠ .marker .opening) (hclose : c ≠ .marker .closing) :
    closingAt depth (c :: cs) = (closingAt depth cs).map (· + 1) := by
  cases c with
  | bare value => rfl
  | field name value => rfl
  | marker m =>
    cases m with
    | connective k => rfl
    | sign s => rfl
    | opening => exact absurd rfl hopen
    | closing => exact absurd rfl hclose

/-- The search passes over components that close their groups, and with them over the groups in
front that they close. -/
lemma Closes.closingAt_append (h : Closes n cs) (depth : Nat) (rest : List Component) :
    closingAt (depth + n + 1) (cs ++ rest) =
      (closingAt (depth + 1) rest).map (· + cs.length) := by
  induction cs generalizing n with
  | nil =>
    obtain rfl := closes_nil_iff.mp h
    simp
  | cons c cs ih =>
    have hlength : ∀ found : Option Nat, (found.map (· + cs.length)).map (· + 1) =
        found.map (· + (c :: cs).length) := by
      intro found
      rw [Option.map_map]
      rfl
    by_cases hopen : c = .marker .opening
    · subst hopen
      rw [List.cons_append, closingAt, Nat.add_assoc depth, ih (closes_opening_iff.mp h), hlength]
    · by_cases hclose : c = .marker .closing
      · subst hclose
        obtain ⟨hpos, hrest⟩ := closes_closing_iff.mp h
        have hdepth : depth + n + 1 - 1 = depth + (n - 1) + 1 := by omega
        rw [List.cons_append, closingAt, if_neg (by omega), hdepth, ih hrest, hlength]
      · rw [List.cons_append, closingAt_other hopen hclose,
          ih ((closes_other_iff hopen hclose).mp h), hlength]

lemma exists_of_closingAt (h : closingAt (depth + 1) cs = some n) :
    ∃ inner back, cs = inner ++ .marker .closing :: back ∧ n = inner.length + 1 ∧
      Closes depth inner := by
  induction cs generalizing depth n with
  | nil => simp [closingAt] at h
  | cons c cs ih =>
    by_cases hopen : c = .marker .opening
    · subst hopen
      obtain ⟨m, hm, rfl⟩ := Option.map_eq_some_iff.mp h
      obtain ⟨inner, back, rfl, rfl, hinner⟩ := ih hm
      exact ⟨_ :: inner, back, rfl, rfl, closes_opening_iff.mpr hinner⟩
    · by_cases hclose : c = .marker .closing
      · subst hclose
        cases depth with
        | zero =>
          obtain rfl := Option.some.inj h
          exact ⟨[], cs, rfl, rfl, closes_nil_iff.mpr rfl⟩
        | succ depth =>
          rw [closingAt, if_neg (by omega)] at h
          obtain ⟨m, hm, rfl⟩ := Option.map_eq_some_iff.mp h
          obtain ⟨inner, back, rfl, rfl, hinner⟩ := ih hm
          exact ⟨_ :: inner, back, rfl, rfl, closes_closing_iff.mpr ⟨by omega, hinner⟩⟩
      · rw [closingAt_other hopen hclose] at h
        obtain ⟨m, hm, rfl⟩ := Option.map_eq_some_iff.mp h
        obtain ⟨inner, back, rfl, rfl, hinner⟩ := ih hm
        exact ⟨c :: inner, back, rfl, rfl, (closes_other_iff hopen hclose).mpr hinner⟩

lemma Paired.closingAt_eq (h : Paired inner) (back : List Component) :
    closingAt 1 (inner ++ .marker .closing :: back) = some (inner.length + 1) := by
  have hpass : closingAt 1 (inner ++ .marker .closing :: back) = _ := h.closingAt_append 0 _
  rw [hpass]
  simp [closingAt, Nat.add_comm]

lemma balanced_iff_paired : Balanced cs ↔ Paired cs := by
  constructor
  · intro h
    have hend : closingAt 1 (cs ++ [.marker .closing]) = some (cs.length + 1) := by
      rw [h 0]
      simp [closingAt, Nat.add_comm]
    obtain ⟨inner, back, hsplit, hlength, hinner⟩ := exists_of_closingAt hend
    have hfront : cs = inner := (List.append_inj hsplit (by omega)).1
    rwa [hfront]
  · intro h depth rest
    exact h.closingAt_append depth rest

/-- The components begin with a group that has these members. -/
structure BeginsGroup (cs members back : List Component) : Prop where
  eq : cs = .marker .opening :: (members ++ .marker .closing :: back)
  paired : Paired members

/-- The components of a group and of the field that scopes it. -/
def scopedBy (name : String) (members : List Component) : List Component :=
  .field name "" :: .marker .opening :: (members ++ [.marker .closing])

lemma BeginsGroup.unique (h : BeginsGroup cs members back) (h' : BeginsGroup cs others after) :
    members = others ∧ back = after := by
  have hrest := (List.cons.inj (h.eq.symm.trans h'.eq)).2
  have hlength : members.length = others.length := by
    have hfound := h.paired.closingAt_eq back
    rw [hrest, h'.paired.closingAt_eq] at hfound
    simpa using hfound.symm
  obtain ⟨hmembers, hback⟩ := List.append_inj hrest hlength
  exact ⟨hmembers, (List.cons.inj hback).2⟩

lemma scopedBy_append (name : String) (members back : List Component) :
    scopedBy name members ++ back =
      .field name "" :: .marker .opening :: (members ++ .marker .closing :: back) := by
  simp [scopedBy]

lemma scopedBy_cancel {name name' : String} (h : Paired members) (h' : Paired others)
    (heq : scopedBy name members ++ back = scopedBy name' others ++ after) :
    name = name' ∧ members = others ∧ back = after := by
  rw [scopedBy_append, scopedBy_append] at heq
  obtain ⟨hfield, hgroup⟩ := List.cons.inj heq
  have hbegins : BeginsGroup _ others after := ⟨hgroup, h'⟩
  exact ⟨(Component.field.inj hfield).1, BeginsGroup.unique ⟨rfl, h⟩ hbegins⟩

/-- A field at the front is taken with the group behind it, up to the marker that closes the group.
Otherwise it is told whether it is the opening or the closing marker that is missing. -/
lemma told_scopedGroup (position : Nat) (cs : List Component) (hfield : c.fieldName? = some field) :
    Told (scopedGroup position (c :: cs))
      (fun group => ∃ members back, BeginsGroup cs members back ∧
        group = ⟨members.length + 3,
          render (c :: .marker .opening :: (members ++ [.marker .closing]))⟩)
      (fun fault => (¬∃ members back, BeginsGroup cs members back) ∧
        fault = if cs.head? = some (.marker .opening) then .unclosed field else .unopened field) := by
  refine told_of_total ?_ ?_ ?_
  · rintro _ ⟨members, back, ⟨rfl, hpaired⟩, rfl⟩
    have htake : (c :: .marker .opening :: (members ++ .marker .closing :: back)).take
        (members.length + 1 + 2) = c :: .marker .opening :: (members ++ [.marker .closing]) := by
      rw [List.take_succ_cons, List.take_succ_cons, List.take_length_add_append]
      rfl
    simp only [scopedGroup, List.head?_cons, Option.bind_some, hfield, List.tail_cons,
      hpaired.closingAt_eq, htake]
  · rintro _ ⟨hnone, rfl⟩
    unfold scopedGroup
    simp only [List.head?_cons, Option.bind_some, hfield, List.tail_cons]
    split
    · next members =>
      split
      · simp
      · next n hn =>
        obtain ⟨inner, back, rfl, _, hinner⟩ := exists_of_closingAt hn
        exact absurd ⟨inner, back, rfl, hinner⟩ hnone
    · next hopen =>
      rw [if_neg]
      intro hhead
      obtain ⟨members, rfl⟩ := List.head?_eq_some_iff.mp hhead
      exact hopen members rfl
  · by_cases hgroup : ∃ members back, BeginsGroup cs members back
    · obtain ⟨members, back, hgroup⟩ := hgroup
      exact .inl ⟨_, members, back, hgroup, rfl⟩
    · exact .inr ⟨_, hgroup, rfl⟩

end ChantSearch.Proofs

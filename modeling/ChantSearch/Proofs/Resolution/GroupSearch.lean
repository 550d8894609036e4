import ChantSearch.Proofs.Components.Pairing

/-!
# The group at a position

A term has a group if an opening marker stands behind it and as many groups are closed as opened up
to some place behind that. The first such place is the end of the group, in any list of components.
A walk from position to position finds it too; its counter of open groups is never lowered at zero,
and it never looks outside the list.
-/

namespace ChantSearch.Proofs
open Query Resolution

variable {components cs members back : List Component} {c : Component} {depth n start : Nat}
  {group : ScopedGroup} {field : String}

/-- The first `n` components close all groups that they open and `depth` more, and fewer of them
do not. -/
structure ClosesFirst (depth : Nat) (cs : List Component) (n : Nat) : Prop where
  within : n ≤ cs.length
  level : closed (cs.take n) = opened (cs.take n) + depth
  first : ∀ m < n, closed (cs.take m) ≠ opened (cs.take m) + depth

lemma closesFirst_zero_iff : ClosesFirst 0 cs n ↔ n = 0 := by
  constructor
  · intro h
    by_contra hne
    exact h.first 0 (by omega) rfl
  · rintro rfl
    exact ⟨Nat.zero_le _, rfl, by omega⟩

lemma not_closesFirst_nil : ¬ClosesFirst (depth + 1) [] n := by
  intro h
  have hlevel := h.level
  simp [opened, closed] at hlevel

lemma closesFirst_cons_iff :
    ClosesFirst (depth + 1) (c :: cs) n ↔
      ∃ m, n = m + 1 ∧ ClosesFirst (depth + 1 + opened [c] - closed [c]) cs m := by
  have hone : closed [c] ≤ 1 := List.count_le_length
  constructor
  · intro h
    cases n with
    | zero =>
      have hlevel := h.level
      simp [opened, closed] at hlevel
    | succ m =>
      refine ⟨m, rfl, Nat.le_of_succ_le_succ h.within, ?_, fun k hk => ?_⟩
      · have hlevel := h.level
        rw [List.take_succ_cons, opened_cons, closed_cons] at hlevel
        omega
      · have hfirst := h.first (k + 1) (by omega)
        rw [List.take_succ_cons, opened_cons, closed_cons] at hfirst
        omega
  · rintro ⟨m, rfl, h⟩
    refine ⟨Nat.succ_le_succ h.within, ?_, fun k hk => ?_⟩
    · have hlevel := h.level
      rw [List.take_succ_cons, opened_cons, closed_cons]
      omega
    · cases k with
      | zero => simp [opened, closed]
      | succ k =>
        have hfirst := h.first k (by omega)
        rw [List.take_succ_cons, opened_cons, closed_cons]
        omega

/-- A component in front of the search changes the number of open groups. If that leaves none, the
search is over. -/
lemma closingAt_step (depth : Nat) (c : Component) (cs : List Component) :
    closingAt (depth + 1) (c :: cs) =
      if depth + 1 + opened [c] - closed [c] = 0 then some 1
      else (closingAt (depth + 1 + opened [c] - closed [c]) cs).map (· + 1) := by
  by_cases hopen : c = .marker .opening
  · subst hopen
    simp [closingAt, opened, closed]
  · by_cases hclose : c = .marker .closing
    · subst hclose
      simp [closingAt, opened, closed]
    · simp [closingAt_other hopen hclose, opened, closed, hopen, hclose]

/-- The search comes to the first place where all open groups are closed. -/
lemma closingAt_eq_some_iff :
    closingAt (depth + 1) cs = some n ↔ ClosesFirst (depth + 1) cs n := by
  induction cs generalizing depth n with
  | nil => simp [closingAt, not_closesFirst_nil]
  | cons c cs ih =>
    rw [closesFirst_cons_iff, closingAt_step]
    by_cases hlast : depth + 1 + opened [c] - closed [c] = 0
    · simp [hlast, closesFirst_zero_iff, eq_comm]
    · obtain ⟨next, hnext⟩ := Nat.exists_eq_succ_of_ne_zero hlast
      rw [if_neg hlast, hnext, Option.map_eq_some_iff]
      simp only [Nat.succ_eq_add_one, ih]
      constructor
      · rintro ⟨m, hm, rfl⟩
        exact ⟨m, rfl, hm⟩
      · rintro ⟨m, rfl, hm⟩
        exact ⟨m, hm, rfl⟩

/-- As many groups are opened as closed in the first `n` components, and not in fewer of them unless
there are none. -/
structure ShortestLevel (cs : List Component) (n : Nat) : Prop where
  pos : 0 < n
  within : n ≤ cs.length
  level : opened (cs.take n) = closed (cs.take n)
  first : ∀ m, 0 < m → m < n → opened (cs.take m) ≠ closed (cs.take m)

lemma shortestLevel_opening_iff :
    ShortestLevel (.marker .opening :: cs) (n + 1) ↔ ClosesFirst 1 cs n := by
  have hfront (m : Nat) : opened ((.marker .opening :: cs).take (m + 1)) = opened (cs.take m) + 1 ∧
      closed ((.marker .opening :: cs).take (m + 1)) = closed (cs.take m) := by
    simp [opened, closed]
  constructor
  · intro h
    refine ⟨Nat.le_of_succ_le_succ h.within, ?_, fun m hm => ?_⟩
    · rw [← (hfront n).1, ← (hfront n).2, h.level]
    · have hfirst := h.first (m + 1) (by omega) (by omega)
      rw [(hfront m).1, (hfront m).2] at hfirst
      exact hfirst.symm
  · intro h
    refine ⟨by omega, Nat.succ_le_succ h.within, ?_, fun m hpos hm => ?_⟩
    · rw [(hfront n).1, (hfront n).2, h.level]
    · obtain ⟨m, rfl⟩ := Nat.exists_eq_succ_of_ne_zero (by omega : m ≠ 0)
      rw [Nat.succ_eq_add_one, (hfront m).1, (hfront m).2]
      exact (h.first m (by omega)).symm

/-- Behind an opening marker the shortest level front is the group that the marker begins. -/
lemma BeginsGroup.shortestLevel (h : BeginsGroup cs members back) :
    ShortestLevel cs (members.length + 2) := by
  rw [h.eq]
  exact shortestLevel_opening_iff.mpr (closingAt_eq_some_iff.mp (h.paired.closingAt_eq back))

lemma exists_beginsGroup (hopen : cs.head? = some (.marker .opening)) (h : ShortestLevel cs n) :
    ∃ members back, BeginsGroup cs members back ∧ n = members.length + 2 := by
  obtain ⟨rest, rfl⟩ := List.head?_eq_some_iff.mp hopen
  obtain ⟨m, rfl⟩ := Nat.exists_eq_succ_of_ne_zero (Nat.ne_of_gt h.pos)
  obtain ⟨members, back, rfl, rfl, hmembers⟩ :=
    exists_of_closingAt (closingAt_eq_some_iff.mpr (shortestLevel_opening_iff.mp h))
  exact ⟨members, back, ⟨rfl, hmembers⟩, rfl⟩

/-- A value for the default field or for a named one stands at the position. -/
def TermAt (components : List Component) (start : Nat) : Prop :=
  (∃ value, components[start]? = some (.bare value)) ∨
    ∃ name value, components[start]? = some (.field name value)

/-- The term at a position and the group behind it are this long and have this text. -/
structure SpansGroup (components : List Component) (start : Nat) (group : ScopedGroup) : Prop where
  term : TermAt components start
  opening : components[start + 1]? = some (.marker .opening)
  shortest : ShortestLevel (components.drop (start + 1)) (group.length - 1)
  text : group.text = render ((components.drop start).take group.length)

/-- Why there is no group at a position. -/
inductive LacksSpan (components : List Component) (start : Nat) : GroupFault → Prop
  | noField (hterm : ¬TermAt components start) : LacksSpan components start (.noField start)
  | unopened {c : Component} {field : String} (hterm : components[start]? = some c)
      (hfield : c.fieldName? = some field)
      (hopen : components[start + 1]? ≠ some (.marker .opening)) :
      LacksSpan components start (.unopened field)
  | unclosed {c : Component} {field : String} (hterm : components[start]? = some c)
      (hfield : c.fieldName? = some field)
      (hopen : components[start + 1]? = some (.marker .opening))
      (hnone : ∀ n, ¬ShortestLevel (components.drop (start + 1)) n) :
      LacksSpan components start (.unclosed field)

lemma termAt_iff : TermAt components start ↔
    ∃ c field, components[start]? = some c ∧ c.fieldName? = some field := by
  constructor
  · rintro (⟨value, h⟩ | ⟨name, value, h⟩)
    · exact ⟨_, _, h, rfl⟩
    · exact ⟨_, _, h, rfl⟩
  · rintro ⟨c, field, h, hfield⟩
    cases c with
    | bare value => exact .inl ⟨value, h⟩
    | field name value => exact .inr ⟨name, value, h⟩
    | marker m => simp [Component.fieldName?] at hfield

lemma termAt_of_fieldName (hc : components[start]? = some c)
    (hfield : c.fieldName? = some field) : TermAt components start :=
  termAt_iff.mpr ⟨c, field, hc, hfield⟩

lemma SpansGroup.three_le (h : SpansGroup components start group) : 3 ≤ group.length := by
  obtain ⟨members, back, _, hlength⟩ :=
    exists_beginsGroup (by rw [List.head?_drop, h.opening]) h.shortest
  omega

lemma BeginsGroup.take_eq (h : BeginsGroup cs members back) :
    cs.take (members.length + 2) = .marker .opening :: (members ++ [.marker .closing]) := by
  rw [h.eq, List.take_succ_cons, List.take_length_add_append]
  rfl

lemma spansGroup_iff (hc : components[start]? = some c) (hfield : c.fieldName? = some field) :
    SpansGroup components start group ↔
      ∃ members back, BeginsGroup (components.drop (start + 1)) members back ∧
        group = ⟨members.length + 3,
          render (c :: .marker .opening :: (members ++ [.marker .closing]))⟩ := by
  obtain ⟨hstart, hget⟩ := List.getElem?_eq_some_iff.mp hc
  have hdrop : components.drop start = c :: components.drop (start + 1) := by
    rw [List.drop_eq_getElem_cons hstart, hget]
  constructor
  · intro h
    obtain ⟨members, back, hgroup, hlength⟩ :=
      exists_beginsGroup (by rw [List.head?_drop, h.opening]) h.shortest
    refine ⟨members, back, hgroup, ?_⟩
    obtain ⟨length, text⟩ := group
    obtain rfl : length = members.length + 3 := by
      simp only at hlength
      omega
    have htext := h.text
    simp only [hdrop, List.take_succ_cons, hgroup.take_eq] at htext
    rw [htext]
  · rintro ⟨members, back, hgroup, rfl⟩
    refine ⟨termAt_of_fieldName hc hfield, ?_, hgroup.shortestLevel, ?_⟩
    · rw [← List.head?_drop, hgroup.eq, List.head?_cons]
    · simp only [hdrop, List.take_succ_cons, hgroup.take_eq]

lemma lacksSpan_iff {fault : GroupFault} (hc : components[start]? = some c)
    (hfield : c.fieldName? = some field) :
    LacksSpan components start fault ↔
      (¬∃ members back, BeginsGroup (components.drop (start + 1)) members back) ∧
        fault = if (components.drop (start + 1)).head? = some (.marker .opening) then
          .unclosed field else .unopened field := by
  rw [List.head?_drop]
  constructor
  · intro h
    cases h with
    | noField hterm => exact absurd (termAt_of_fieldName hc hfield) hterm
    | unopened hterm hname hopen =>
      obtain rfl := Option.some.inj (hc.symm.trans hterm)
      obtain rfl := Option.some.inj (hfield.symm.trans hname)
      refine ⟨fun ⟨members, back, hgroup⟩ => hopen ?_, by rw [if_neg hopen]⟩
      rw [← List.head?_drop, hgroup.eq, List.head?_cons]
    | unclosed hterm hname hopen hnone =>
      obtain rfl := Option.some.inj (hc.symm.trans hterm)
      obtain rfl := Option.some.inj (hfield.symm.trans hname)
      exact ⟨fun ⟨_, _, hgroup⟩ => hnone _ hgroup.shortestLevel, by rw [if_pos hopen]⟩
  · rintro ⟨hnone, rfl⟩
    by_cases hopen : components[start + 1]? = some (.marker .opening)
    · rw [if_pos hopen]
      apply LacksSpan.unclosed hc hfield hopen
      intro n hshortest
      obtain ⟨members, back, hgroup, _⟩ :=
        exists_beginsGroup (by rw [List.head?_drop, hopen]) hshortest
      exact hnone ⟨members, back, hgroup⟩
    · rw [if_neg hopen]
      exact .unopened hc hfield hopen

lemma told_scopedGroupAt (components : List Component) (start : Nat) :
    Told (scopedGroupAt components start) (SpansGroup components start)
      (LacksSpan components start) := by
  by_cases hterm : TermAt components start
  · obtain ⟨c, field, hc, hfield⟩ := termAt_iff.mp hterm
    obtain ⟨hstart, hget⟩ := List.getElem?_eq_some_iff.mp hc
    have htold := told_scopedGroup start (components.drop (start + 1)) hfield
    rw [← hget, ← List.drop_eq_getElem_cons hstart, hget] at htold
    exact ⟨fun group => (htold.ok_iff group).trans (spansGroup_iff hc hfield).symm,
      fun fault => (htold.error_iff fault).trans (lacksSpan_iff hc hfield).symm⟩
  · have hnone : components[start]?.bind Component.fieldName? = none := by
      rw [Option.bind_eq_none_iff]
      intro c hc
      by_contra hfield
      obtain ⟨field, hfield⟩ := Option.ne_none_iff_exists'.mp hfield
      exact hterm (termAt_of_fieldName hc hfield)
    have herror : scopedGroupAt components start = .error (.noField start) := by
      simp [scopedGroupAt, scopedGroup, List.head?_drop, hnone]
    refine told_of_total (fun group h => absurd h.term hterm) (fun fault h => ?_)
      (.inr ⟨_, .noField hterm⟩)
    cases h with
    | noField _ => exact herror
    | unopened hc hfield _ => exact absurd (termAt_of_fieldName hc hfield) hterm
    | unclosed hc hfield _ _ => exact absurd (termAt_of_fieldName hc hfield) hterm

/-! ### The walk over positions -/

/-- What cannot be done with numbers that have no sign and with the positions of a list. -/
inductive Trap where
  | belowZero
  | outside
  deriving DecidableEq

def difference (m n : Nat) : Except Trap Nat :=
  if n ≤ m then .ok (m - n) else .error .belowZero

def componentAt (components : List Component) (position : Nat) : Except Trap Component :=
  match components[position]? with
  | some c => .ok c
  | none => .error .outside

/-- The components from one position to another, both included. -/
def between (components : List Component) (first last : Nat) : Except Trap (List Component) :=
  if first ≤ last ∧ last < components.length then
    .ok ((components.drop first).take (last + 1 - first))
  else
    .error .outside

/-- The position of the marker that closes the last of the open groups, of which there are `depth`
in front of `position`. No more than `steps` components are looked at. -/
def walk (components : List Component) :
    (steps position depth : Nat) → Except Trap (Option Nat)
  | 0, _, _ => pure none
  | steps + 1, position, depth => do
    match ← componentAt components position with
    | .marker .opening => walk components steps (position + 1) (depth + 1)
    | .marker .closing =>
      let depth ← difference depth 1
      if depth = 0 then pure (some position) else walk components steps (position + 1) depth
    | _ => walk components steps (position + 1) depth

/-- The term at a position with its group, found by a walk from the position behind it. -/
def walkGroup (components : List Component) (start : Nat) :
    Except Trap (Except GroupFault ScopedGroup) :=
  match components[start]?.bind Component.fieldName? with
  | none => pure (.error (.noField start))
  | some field =>
    if components[start + 1]? = some (.marker .opening) then do
      match ← walk components (components.length - (start + 1)) (start + 1) 0 with
      | none => pure (.error (.unclosed field))
      | some last =>
        let length ← difference last start
        let group ← between components start last
        pure (.ok ⟨length + 1, render group⟩)
    else
      pure (.error (.unopened field))

lemma walk_step {steps position : Nat} (depth : Nat) (hc : components[position]? = some c) :
    walk components (steps + 1) position depth =
      if c = .marker .opening then walk components steps (position + 1) (depth + 1)
      else if c = .marker .closing then do
        let depth ← difference depth 1
        if depth = 0 then pure (some position) else walk components steps (position + 1) depth
      else walk components steps (position + 1) depth := by
  have hget : componentAt components position = .ok c := by simp [componentAt, hc]
  rw [walk, hget]
  cases c with
  | bare value => rfl
  | field name value => rfl
  | marker m => cases m <;> rfl

/-- Where a group is open, the walk goes on as the search does, and nothing stops it. -/
lemma walk_eq_closingAt {steps position : Nat} (depth : Nat)
    (hsteps : position + steps = components.length) :
    walk components steps position (depth + 1) =
      .ok ((closingAt (depth + 1) (components.drop position)).map (position + · - 1)) := by
  induction steps generalizing position depth with
  | zero =>
    rw [List.drop_of_length_le (by omega)]
    rfl
  | succ steps ih =>
    have hposition : position < components.length := by omega
    have hnext : position + 1 + steps = components.length := by omega
    have hmap (found : Option Nat) : (found.map (· + 1)).map (position + · - 1) =
        found.map (position + 1 + · - 1) := by
      rw [Option.map_map]
      congr 1
      funext n
      simp only [Function.comp]
      omega
    rw [List.drop_eq_getElem_cons hposition, walk_step _ (List.getElem?_eq_getElem hposition)]
    by_cases hopen : components[position] = .marker .opening
    · rw [if_pos hopen, hopen, ih (depth + 1) hnext, closingAt, hmap]
    · rw [if_neg hopen]
      by_cases hclose : components[position] = .marker .closing
      · -- A group is open, so the counter can be lowered.
        have hlower : difference (depth + 1) 1 = .ok depth := by simp [difference]
        rw [if_pos hclose, hclose, hlower]
        cases depth with
        | zero => simp [closingAt, bind, Except.bind, pure, Except.pure]
        | succ depth =>
          simp only [bind, Except.bind, Nat.succ_ne_zero, if_false]
          rw [ih depth hnext, closingAt, if_neg (by omega), hmap]
          rfl
      · rw [if_neg hclose, ih depth hnext, closingAt_other hopen hclose, hmap]

/-- The walk behind an opening marker, where no group is open yet. -/
lemma walk_of_opening {position : Nat} (hopen : components[position]? = some (.marker .opening)) :
    walk components (components.length - position) position 0 =
      .ok ((closingAt 1 (components.drop (position + 1))).map (position + 1 + · - 1)) := by
  obtain ⟨hposition, _⟩ := List.getElem?_eq_some_iff.mp hopen
  obtain ⟨steps, hsteps⟩ : ∃ steps, components.length - position = steps + 1 :=
    ⟨components.length - position - 1, by omega⟩
  rw [hsteps, walk_step 0 hopen, if_pos rfl]
  exact walk_eq_closingAt 0 (by omega)

/-- Were there no opening marker, the counter would have to be lowered at zero. -/
example : walk [.bare "x", .marker .closing] 1 1 0 = .error .belowZero := rfl

lemma walkGroup_eq (components : List Component) (start : Nat) :
    walkGroup components start = .ok (scopedGroupAt components start) := by
  unfold walkGroup scopedGroupAt scopedGroup
  rw [List.head?_drop, List.tail_drop]
  cases components[start]?.bind Component.fieldName? with
  | none => rfl
  | some field =>
    by_cases hopen : components[start + 1]? = some (.marker .opening)
    · obtain ⟨hlength, hget⟩ := List.getElem?_eq_some_iff.mp hopen
      simp only [if_pos hopen, walk_of_opening hopen, List.drop_eq_getElem_cons hlength, hget]
      cases hfound : closingAt 1 (components.drop (start + 1 + 1)) with
      | none => rfl
      | some n =>
        have hwithin := (closingAt_eq_some_iff.mp hfound).within
        rw [List.length_drop] at hwithin
        have hlast : start + 1 + 1 + n - 1 = start + (n + 1) := by omega
        have hdifference : difference (start + (n + 1)) start = .ok (n + 1) := by
          simp [difference]
        have hbetween : between components start (start + (n + 1)) =
            .ok ((components.drop start).take (n + 2)) := by
          rw [between, if_pos (by omega)]
          congr 2
          omega
        simp only [Option.map_some, bind, Except.bind, hlast, hdifference, hbetween]
        rfl
    · simp only [if_neg hopen]
      rw [← List.head?_drop] at hopen
      cases hdrop : components.drop (start + 1) with
      | nil => rfl
      | cons c rest =>
        rw [hdrop, List.head?_cons] at hopen
        split
        · next members heq => exact absurd (by rw [(List.cons.inj heq).1]) hopen
        · rfl

/-- There is a group at a position of any list of components if and only if a term stands there, an
opening marker behind it, and from that marker on there is a shortest run in which as many groups
are opened as closed. The term with this run is the group, of three components at least, and it is
given as text. Otherwise there is a fault, which tells what is missing. A walk over the positions
that counts open groups comes to the same result: it neither lowers its counter at zero nor looks
outside the list. -/
theorem scopedGroupAt_shortest (components : List Component) (start : Nat) :
    Told (scopedGroupAt components start) (SpansGroup components start)
      (LacksSpan components start) ∧
    (∀ group, scopedGroupAt components start = .ok group → 3 ≤ group.length) ∧
    walkGroup components start = .ok (scopedGroupAt components start) := by
  have htold := told_scopedGroupAt components start
  refine ⟨htold, fun group h => ?_, walkGroup_eq components start⟩
  exact ((htold.ok_iff group).mp h).three_le

end ChantSearch.Proofs

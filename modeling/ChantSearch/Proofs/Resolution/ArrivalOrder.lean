import ChantSearch.Proofs.Resolution.Fanout

/-!
# Every order of arrivals

The lookups never get stuck: from each state they may reach, the slots that wait can be begun
and the answers that are awaited can arrive in any order whatever. All of these runs have the
result of resolution.
-/

namespace ChantSearch.Proofs
open Index Query Resolution

variable {service : Service} {slots : List Slot} {s : Fanout}

/-- An order in which the answers for slots may arrive: the positions with a request, each
once. -/
structure ArrivalOrder (slots : List Slot) (order : List Nat) : Prop where
  nodup : order.Nodup
  mem_iff : ∀ position, position ∈ order ↔ (slots[position]?.bind Slot.request?).isSome = true

/-- The answer for the slot at a position is still to come. -/
def Awaits (cells : List Cell) (position : Nat) : Prop :=
  ∃ slot, cells[position]? = some (.awaiting slot)

lemma run_begins (service : Service) (cells : List Cell) (waiting : List Slot)
    (issued : List Request) :
    Run service ⟨cells, waiting, issued⟩ (waiting.map fun _ => .begin)
      ⟨cells ++ waiting.map begun, [], issued ++ waiting.filterMap Slot.request?⟩ := by
  induction waiting generalizing cells issued with
  | nil =>
    rw [List.map_nil, List.map_nil, List.filterMap_nil, List.append_nil, List.append_nil]
    exact .nil _
  | cons slot waiting ih =>
    have hrun := ih (cells ++ [begun slot]) (issued ++ slot.request?.toList)
    have hissued : slot.request?.toList ++ waiting.filterMap Slot.request? =
        (slot :: waiting).filterMap Slot.request? := by
      cases hrequest : slot.request? <;> simp [hrequest]
    rw [List.append_assoc, List.append_assoc, hissued] at hrun
    exact .cons (.begin cells slot waiting issued) hrun

lemma outcomes_isSome {cells : List Cell} (h : ∀ position, ¬ Awaits cells position) :
    (cells.mapM Cell.outcome?).isSome = true := by
  induction cells with
  | nil => rfl
  | cons cell cells ih =>
    have hrest := ih fun position ⟨slot, hslot⟩ => h (position + 1) ⟨slot, hslot⟩
    obtain ⟨outcomes, houtcomes⟩ := Option.isSome_iff_exists.mp hrest
    cases cell with
    | awaiting slot => exact absurd ⟨slot, rfl⟩ (h 0)
    | finished outcome => simp [Cell.outcome?, houtcomes]

lemma Fits.request_ne_none (h : Fits service slots s) {position : Nat} {slot : Slot}
    (hcell : s.cells[position]? = some (.awaiting slot)) : slot.request? ≠ none := by
  obtain ⟨taken, _, hcells, _⟩ := h
  obtain ⟨hlt, hget⟩ := List.getElem?_eq_some_iff.mp hcell
  have hfits := hcells.get (by rw [hcells.length_eq]; exact hlt) hlt
  rw [List.get_eq_getElem, List.get_eq_getElem, hget] at hfits
  cases hfits with
  | awaiting hrequest => exact hrequest

lemma awaits_set_iff {cells : List Cell} {position other : Nat}
    {outcome : Except QueryError Component} :
    Awaits (cells.set position (.finished outcome)) other ↔
      other ≠ position ∧ Awaits cells other := by
  rw [Awaits, List.getElem?_set]
  split
  · next heq =>
      subst heq
      split <;> simp
  · next hne => simp [Awaits, Ne.symm hne]

lemma run_arrivals {order : List Nat} {cells : List Cell} {issued : List Request}
    (hfits : Fits service slots ⟨cells, [], issued⟩) (hnodup : order.Nodup)
    (horder : ∀ position, position ∈ order ↔ Awaits cells position) :
    ∃ last, Run service ⟨cells, [], issued⟩ (order.map .arrive) last ∧
      last.result?.isSome = true := by
  induction order generalizing cells with
  | nil =>
    refine ⟨_, .nil _, ?_⟩
    have hdone := outcomes_isSome fun position hawaits => by
      simpa using (horder position).mpr hawaits
    simp [Fanout.result?, hdone]
  | cons position order ih =>
    obtain ⟨hfresh, hnodup⟩ := List.nodup_cons.mp hnodup
    obtain ⟨slot, hcell⟩ := (horder position).mp List.mem_cons_self
    obtain ⟨request, hrequest⟩ := Option.ne_none_iff_exists'.mp (hfits.request_ne_none hcell)
    have hstep : Step service _ _ _ := .arrive [] issued hcell hrequest
    obtain ⟨last, hrun, hlast⟩ := ih (hstep.fits hfits) hnodup fun other => by
      rw [awaits_set_iff, ← horder, List.mem_cons]
      constructor
      · intro hother
        exact ⟨fun heq => hfresh (heq ▸ hother), .inr hother⟩
      · rintro ⟨hne, heq | hother⟩
        · exact absurd heq hne
        · exact hother
    exact ⟨last, .cons hstep hrun, hlast⟩

lemma exists_awaited_order (cells : List Cell) :
    ∃ order : List Nat, order.Nodup ∧ ∀ position, position ∈ order ↔ Awaits cells position := by
  classical
  refine ⟨(List.range cells.length).filter (Awaits cells ·), List.nodup_range.filter _, ?_⟩
  intro position
  rw [List.mem_filter, List.mem_range, decide_eq_true_iff, and_iff_right_iff_imp]
  rintro ⟨slot, hcell⟩
  exact (List.getElem?_eq_some_iff.mp hcell).1

/-- No state of the lookups is stuck. -/
lemma Fits.exists_run (h : Fits service slots s) :
    ∃ events last, Run service s events last ∧ last.result?.isSome = true := by
  obtain ⟨cells, waiting, issued⟩ := s
  have hbegins := run_begins service cells waiting issued
  obtain ⟨order, hnodup, horder⟩ := exists_awaited_order (cells ++ waiting.map begun)
  obtain ⟨last, hrun, hlast⟩ := run_arrivals (hbegins.fits h) hnodup horder
  exact ⟨_, last, hbegins.append hrun, hlast⟩

lemma awaits_begun_iff {position : Nat} :
    Awaits (slots.map begun) position ↔ (slots[position]?.bind Slot.request?).isSome = true := by
  rw [Awaits, List.getElem?_map]
  cases slots[position]? with
  | none => simp
  | some slot => cases slot <;> simp [begun, Slot.request?]

lemma ArrivalOrder.exists_run {order : List Nat} (h : ArrivalOrder slots order) :
    ∃ last, Run service (.start slots) ((slots.map fun _ => .begin) ++ order.map .arrive) last ∧
      last.result?.isSome = true := by
  have hbegins := run_begins service [] slots []
  obtain ⟨last, hrun, hlast⟩ := run_arrivals (hbegins.fits (fits_start slots)) h.nodup
    fun position => (h.mem_iff position).trans awaits_begun_iff.symm
  exact ⟨last, hbegins.append hrun, hlast⟩

/-- Once the slots are planned, the answers for them may arrive in any order. In every run the
requests are issued from left to right, each once, and the run can be continued to a result.
The result is that of resolution, whatever arrived first: a component for every slot, made of
its own answer, or else the error of the leftmost slot that failed, with all requests issued. -/
theorem fanout_result_eq_resolve (schema : Schema) (service : Service)
    (components : List Component) (slots : List Slot)
    (hslots : slotsOf schema components = .ok slots) :
    (∀ order, ArrivalOrder slots order → ∃ last,
        Run service (.start slots) ((slots.map fun _ => .begin) ++ order.map .arrive) last ∧
          last.result?.isSome = true) ∧
      ∀ events s, Run service (.start slots) events s →
        s.issued <+: slots.filterMap Slot.request? ∧
        (∃ more last, Run service s more last ∧ last.result?.isSome = true) ∧
        ∀ result, s.result? = some result →
          resolve schema service components = ⟨s.issued, result⟩ ∧
          s.issued = slots.filterMap Slot.request? ∧
          ((∃ filled, result = .ok filled ∧ List.Forall₂ (Fills service) slots filled) ∨
            ∃ before slot after e, slots = before ++ slot :: after ∧
              (∀ other ∈ before, ∃ component, Fills service other component) ∧
              Fails service slot e ∧ result = .error e) := by
  refine ⟨fun order horder => horder.exists_run, fun events s hrun => ?_⟩
  have hfits := hrun.fits (fits_start slots)
  refine ⟨hfits.issued_isPrefix, hfits.exists_run, fun result hresult => ?_⟩
  obtain ⟨rfl, hissued⟩ := hfits.result_eq hresult
  refine ⟨by rw [resolve, hslots, hissued], hissued, ?_⟩
  rcases mapM_fill_cases service slots with
    ⟨filled, hall, hmap⟩ | ⟨before, slot, after, e, heq, hall, hfails, hmap⟩
  · exact .inl ⟨filled, hmap, hall⟩
  · exact .inr ⟨before, slot, after, e, heq, hall, hfails, hmap⟩

/-- The error of the first of two lookups, although that of the second arrives before it. -/
theorem overtaken_error_is_leftmost :
    ∃ slots last,
      slotsOf ⟨[], [("genre", ⟨"genre", "genre_id"⟩), ("feast", ⟨"feast", "feast_id"⟩)]⟩
        [.field "genre" "x", .bare "y", .field "feast" "z"] = .ok slots ∧
      Run (fun request => if request.query = "type:feast AND (z)" then .error (.unavailable "down")
          else .ok ⟨[], 0⟩)
        (.start slots) [.begin, .begin, .begin, .arrive 2, .arrive 0] last ∧
      last.issued = [.ofQuery "type:genre AND (x)", .ofQuery "type:feast AND (z)"] ∧
      last.result? = some (.error (.noResults "genre")) := by
  let schema : Schema :=
    ⟨[], [("genre", ⟨"genre", "genre_id"⟩), ("feast", ⟨"feast", "feast_id"⟩)]⟩
  let service : Service := fun request =>
    if request.query = "type:feast AND (z)" then .error (.unavailable "down") else .ok ⟨[], 0⟩
  have hslots : slotsOf schema [.field "genre" "x", .bare "y", .field "feast" "z"] =
      .ok [.value "genre" "x" ⟨"genre", "genre_id"⟩, .keep (.bare "y"),
        .value "feast" "z" ⟨"feast", "feast_id"⟩] := by
    rfl
  obtain ⟨horders, hruns⟩ := fanout_result_eq_resolve schema service _ _ hslots
  obtain ⟨last, hrun, hlast⟩ := horders [2, 0]
    ⟨by decide, by rintro (_ | _ | _ | _) <;> simp [Slot.request?]⟩
  obtain ⟨result, hresult⟩ := Option.isSome_iff_exists.mp hlast
  obtain ⟨hresolve, hissued, _⟩ := (hruns _ last hrun).2.2 result hresult
  have hvalue : (resolve schema service
      [.field "genre" "x", .bare "y", .field "feast" "z"]).outcome = .error (.noResults "genre") := by
    rfl
  rw [hresolve] at hvalue
  refine ⟨_, last, hslots, hrun, hissued.trans ?_, hresult.trans (congrArg some hvalue)⟩
  rfl

end ChantSearch.Proofs

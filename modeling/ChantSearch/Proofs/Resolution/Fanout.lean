import ChantSearch.Proofs.Resolution.Filling

/-!
# Concurrent lookups

The slots of a query are begun from left to right. To begin one issues its request, and its
answer may arrive at any time after that, so answers overtake each other. The components are
collected when every slot is filled. No order of arrivals makes a difference to them.
-/

namespace ChantSearch.Proofs
open Index Query Resolution

/-- A slot that has been begun: its answer is awaited, or it is filled or failed. -/
inductive Cell where
  | awaiting (slot : Slot)
  | finished (outcome : Except QueryError Component)

def Cell.outcome? : Cell → Option (Except QueryError Component)
  | awaiting _ => none
  | finished outcome => some outcome

def begun : Slot → Cell
  | .keep component => .finished (.ok component)
  | slot => .awaiting slot

/-- The slots that have been begun, those that have not, and the requests issued so far. -/
structure Fanout where
  cells : List Cell
  waiting : List Slot
  issued : List Request

def Fanout.start (slots : List Slot) : Fanout :=
  ⟨[], slots, []⟩

/-- The leftmost slot that waits is begun, or the answer for a slot arrives. -/
inductive Event where
  | begin
  | arrive (position : Nat)

inductive Step (service : Service) : Fanout → Event → Fanout → Prop
  | begin (cells : List Cell) (slot : Slot) (waiting : List Slot) (issued : List Request) :
      Step service ⟨cells, slot :: waiting, issued⟩ .begin
        ⟨cells ++ [begun slot], waiting, issued ++ slot.request?.toList⟩
  | arrive {cells : List Cell} {position : Nat} {slot : Slot} {request : Request}
      (waiting : List Slot) (issued : List Request)
      (hcell : cells[position]? = some (.awaiting slot)) (hrequest : slot.request? = some request) :
      Step service ⟨cells, waiting, issued⟩ (.arrive position)
        ⟨cells.set position (.finished (answered slot (service request))), waiting, issued⟩

inductive Run (service : Service) : Fanout → List Event → Fanout → Prop
  | nil (s : Fanout) : Run service s [] s
  | cons {s t u : Fanout} {event : Event} {events : List Event} (hstep : Step service s event t)
      (hrun : Run service t events u) : Run service s (event :: events) u

/-- The components, or the error of the leftmost slot that failed, once all slots are
finished. -/
def Fanout.result? (s : Fanout) : Option (Except QueryError (List Component)) :=
  if s.waiting.isEmpty then
    (s.cells.mapM Cell.outcome?).map fun outcomes => outcomes.mapM id
  else
    none

variable {service : Service} {slots : List Slot} {s t u : Fanout}

lemma Run.append {events events' : List Event} (h : Run service s events t)
    (h' : Run service t events' u) : Run service s (events ++ events') u := by
  induction h with
  | nil _ => exact h'
  | cons hstep _ ih => exact .cons hstep (ih h')

inductive CellFits (service : Service) : Slot → Cell → Prop
  | awaiting {slot : Slot} (hrequest : slot.request? ≠ none) : CellFits service slot (.awaiting slot)
  | finished (slot : Slot) : CellFits service slot (.finished (slot.fill service))

/-- The cells and the requests belong to the slots in front of those that wait. -/
def Fits (service : Service) (slots : List Slot) (s : Fanout) : Prop :=
  ∃ taken, slots = taken ++ s.waiting ∧ List.Forall₂ (CellFits service) taken s.cells ∧
    s.issued = taken.filterMap Slot.request?

lemma fits_start (slots : List Slot) : Fits service slots (.start slots) :=
  ⟨[], rfl, .nil, rfl⟩

lemma cellFits_begun (slot : Slot) : CellFits service slot (begun slot) := by
  cases slot with
  | keep component => exact .finished (.keep component)
  | value field text ref => exact .awaiting (by simp [Slot.request?])
  | group field subquery ref => exact .awaiting (by simp [Slot.request?])

lemma forall₂_set {α β : Type} {R : α → β → Prop} {xs : List α} {ys : List β}
    (h : List.Forall₂ R xs ys) {n : Nat} {y y' : β} (hy : ys[n]? = some y)
    (hset : ∀ x, R x y → R x y') : List.Forall₂ R xs (ys.set n y') := by
  induction h generalizing n with
  | nil => exact absurd hy (by simp)
  | cons hhead htail ih =>
    cases n with
    | zero =>
      obtain rfl := Option.some.inj hy
      exact .cons (hset _ hhead) htail
    | succ n => exact .cons hhead (ih hy)

lemma Step.fits {event : Event} (h : Step service s event t) (hs : Fits service slots s) :
    Fits service slots t := by
  obtain ⟨taken, hslots, hcells, hissued⟩ := hs
  cases h with
  | begin cells slot waiting issued =>
    refine ⟨taken ++ [slot], by simpa using hslots, ?_, ?_⟩
    · exact List.rel_append hcells (.cons (cellFits_begun slot) .nil)
    · simp only at hissued ⊢
      rw [hissued, List.filterMap_append]
      cases hrequest : slot.request? <;> simp [hrequest]
  | @arrive cells position slot request waiting issued hcell hrequest =>
    refine ⟨taken, hslots, forall₂_set hcells hcell ?_, hissued⟩
    intro other hother
    cases hother
    rw [answered_service hrequest]
    exact .finished slot

lemma Run.fits {events : List Event} (h : Run service s events t) (hs : Fits service slots s) :
    Fits service slots t := by
  induction h with
  | nil _ => exact hs
  | cons hstep _ ih => exact ih (hstep.fits hs)

/-- The requests issued so far are those of the slots in front, each once. -/
lemma Fits.issued_isPrefix (h : Fits service slots s) :
    s.issued <+: slots.filterMap Slot.request? := by
  obtain ⟨taken, hslots, _, hissued⟩ := h
  rw [hslots, hissued, List.filterMap_append]
  exact List.prefix_append _ _

lemma outcomes_of_fits {cells : List Cell} {outcomes : List (Except QueryError Component)}
    (h : List.Forall₂ (CellFits service) slots cells)
    (hcells : cells.mapM Cell.outcome? = some outcomes) :
    outcomes = slots.map (Slot.fill service) := by
  induction h generalizing outcomes with
  | nil => simpa using hcells.symm
  | cons hhead _ ih =>
    cases hhead with
    | awaiting _ => simp [Cell.outcome?] at hcells
    | finished =>
      simp only [List.mapM_cons, Cell.outcome?, Option.bind_eq_bind, Option.bind_some,
        Option.bind_eq_some_iff, Option.pure_def, Option.some.injEq] at hcells
      obtain ⟨rest, hrest, rfl⟩ := hcells
      rw [ih hrest, List.map_cons]

/-- Whatever has arrived when, a result is the one that the slots have on their own, and all
their requests have been issued. -/
lemma Fits.result_eq (h : Fits service slots s) {result : Except QueryError (List Component)}
    (hresult : s.result? = some result) :
    result = slots.mapM (Slot.fill service) ∧ s.issued = slots.filterMap Slot.request? := by
  obtain ⟨taken, hslots, hcells, hissued⟩ := h
  rw [Fanout.result?] at hresult
  split at hresult
  · next hwaiting =>
      rw [List.isEmpty_iff.mp hwaiting, List.append_nil] at hslots
      obtain ⟨outcomes, houtcomes, rfl⟩ := Option.map_eq_some_iff.mp hresult
      subst hslots
      rw [outcomes_of_fits hcells houtcomes, List.mapM_map]
      exact ⟨rfl, hissued⟩
  · exact absurd hresult (by simp)

end ChantSearch.Proofs

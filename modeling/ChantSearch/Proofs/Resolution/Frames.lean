import ChantSearch.Proofs.Rendering.Text
import ChantSearch.Proofs.Resolution.Blocks
import ChantSearch.Proofs.Resolution.Scoping

/-!
# What resolution leaves alone

The text of a query is fixed around its lookups. Resolution puts one text in the place of another for
each of them, and every character in front of them, between them and behind them stays, unless an
index gives out empty ids.
-/

namespace ChantSearch.Proofs
open Index Query Resolution

variable {α β : Type} {schema : Schema} {service : Service} {slot : Slot} {component : Component}
  {components block : List Component} {blocks parts : List (List Component)} {slots : List Slot}
  {texts : List String}

/-- The text in front of all lookups, and the text behind each of them. -/
structure Frame where
  first : String
  gaps : List String

namespace Frame

/-- The frame with a text for each lookup. -/
def fill (frame : Frame) (texts : List String) : String :=
  frame.first ++ String.join (List.zipWith (· ++ ·) texts frame.gaps)

def behindText (frame : Frame) (text : String) : Frame :=
  ⟨text ++ frame.first, frame.gaps⟩

def behindLookup (frame : Frame) : Frame :=
  ⟨"", frame.first :: frame.gaps⟩

lemma fill_behindText (frame : Frame) (text : String) (texts : List String) :
    (frame.behindText text).fill texts = text ++ frame.fill texts :=
  String.append_assoc ..

lemma fill_behindLookup (frame : Frame) (text : String) (texts : List String) :
    frame.behindLookup.fill (text :: texts) = text ++ frame.fill texts := by
  simp [fill, behindLookup, String.append_assoc]

end Frame

/-- The frame of slots, behind a component that glues or does not. -/
def frameOf (glued : Bool) : List Slot → Frame
  | [] => ⟨"", []⟩
  | .keep c :: slots => (frameOf c.glues slots).behindText (c.piece glued)
  | _ :: slots => (frameOf false slots).behindLookup

lemma frameOf_lookup (hrequest : slot.request? ≠ none) (glued : Bool) (slots : List Slot) :
    frameOf glued (slot :: slots) = (frameOf false slots).behindLookup := by
  cases slot with
  | keep c => exact absurd rfl hrequest
  | value _ _ _ => rfl
  | group _ _ _ => rfl

/-- The members of a list that are at the places of the lookups. -/
def atLookups (slots : List Slot) (xs : List α) : List α :=
  ((slots.zip xs).filter fun place => place.1.request?.isSome).map Prod.snd

lemma atLookups_keep (c : Component) (slots : List Slot) (x : α) (xs : List α) :
    atLookups (.keep c :: slots) (x :: xs) = atLookups slots xs :=
  rfl

lemma atLookups_lookup (hrequest : slot.request? ≠ none) (slots : List Slot) (x : α) (xs : List α) :
    atLookups (slot :: slots) (x :: xs) = x :: atLookups slots xs := by
  have hsome : slot.request?.isSome := Option.isSome_iff_ne_none.mpr hrequest
  simp [atLookups, hsome]

lemma atLookups_map (f : α → β) (slots : List Slot) (xs : List α) :
    atLookups slots (xs.map f) = (atLookups slots xs).map f := by
  rw [atLookups, atLookups, List.zip_map_right, List.filter_map, List.map_map, List.map_map]
  rfl

/-- There is a member for every request. -/
lemma length_atLookups {R : Slot → α → Prop} {xs : List α} (h : List.Forall₂ R slots xs) :
    (atLookups slots xs).length = (slots.filterMap Slot.request?).length := by
  induction h with
  | nil => rfl
  | @cons slot x slots xs _ _ ih =>
    by_cases hrequest : slot.request? = none
    · simpa [atLookups, hrequest] using ih
    · obtain ⟨request, hrequest'⟩ := Option.ne_none_iff_exists'.mp hrequest
      rw [atLookups_lookup hrequest, List.filterMap_cons_some hrequest', List.length_cons,
        List.length_cons, ih]

lemma length_gaps (glued : Bool) (slots : List Slot) :
    (frameOf glued slots).gaps.length = (slots.filterMap Slot.request?).length := by
  induction slots generalizing glued with
  | nil => rfl
  | cons slot slots ih =>
    cases slot with
    | keep c => exact ih c.glues
    | value _ _ _ => exact congrArg (· + 1) (ih false)
    | group _ _ _ => exact congrArg (· + 1) (ih false)

/-- What stands at the place of a slot: the component that is kept, or components whose text does not
depend on what is in front of them, and on which the text behind them does not depend. -/
inductive Seamless : Slot → List Component → Prop
  | keep (c : Component) : Seamless (.keep c) [c]
  | lookup {slot : Slot} {part : List Component} (hrequest : slot.request? ≠ none)
      (htext : ∀ glued, textFrom glued part = textFrom false part)
      (hglues : ∀ glued, gluesAfter glued part = false) : Seamless slot part

/-- The invariant is the bit that one component passes on to the next: it is the same in front of the
remaining parts as in front of the remaining slots. -/
lemma textFrom_flatten (h : List.Forall₂ Seamless slots parts) (glued : Bool) :
    textFrom glued parts.flatten =
      ((frameOf glued slots).fill ((atLookups slots parts).map render)).toList := by
  induction h generalizing glued with
  | nil => rfl
  | @cons slot part slots parts hpart _ ih =>
    rw [List.flatten_cons, textFrom_append]
    cases hpart with
    | keep c =>
      have hone : textFrom glued [c] = (c.piece glued).toList := by simp
      rw [frameOf, Frame.fill_behindText, atLookups_keep, String.toList_append, ← ih c.glues, hone]
      rfl
    | lookup hrequest htext hglues =>
      rw [frameOf_lookup hrequest, atLookups_lookup hrequest, List.map_cons, Frame.fill_behindLookup,
        String.toList_append, ← ih false, toList_render, htext, hglues]

lemma render_flatten (h : List.Forall₂ Seamless slots parts) :
    render parts.flatten = (frameOf false slots).fill ((atLookups slots parts).map render) := by
  rw [← String.toList_inj, toList_render, textFrom_flatten h]

lemma Block.seamless (h : Block schema block slot) : Seamless slot block := by
  cases h with
  | keep _ => exact .keep _
  | value _ hvalue =>
    refine .lookup (by simp [Slot.request?]) (fun _ => rfl) fun glued => ?_
    simpa [gluesAfter, Component.glues] using hvalue
  | group _ _ =>
    refine .lookup (by simp [Slot.request?]) (fun _ => rfl) fun glued => ?_
    rw [scopedBy, ← List.cons_append, ← List.cons_append, gluesAfter_append]
    rfl

/-- The index gives out no empty ids. -/
def NoEmptyIds (service : Service) : Prop :=
  ∀ request results, service request = .ok results → ∀ doc ∈ results.docs, ¬HasId doc ""

lemma NoEmptyIds.not_findsEmptyId (h : NoEmptyIds service) (name : String) :
    ¬FindsEmptyId service slot name := by
  rintro ⟨hanswer, hids⟩
  obtain ⟨doc, docs, hid, _, hdocs⟩ := List.forall₂_cons_right_iff.mp hids
  exact h _ _ hanswer doc (by simp [hdocs]) hid

lemma piece_of_not_marker (h : ∀ m, component ≠ .marker m) (glued : Bool) :
    component.piece glued = component.piece false := by
  cases component with
  | bare _ => rfl
  | field _ _ => rfl
  | marker m => exact absurd rfl (h m)

lemma ranked_not_marker (idField : String) (ids : List String) (m : Marker) :
    ranked idField ids ≠ .marker m := by
  match ids with
  | [] => simp [ranked, alternatives]
  | [_] => simp [ranked]
  | _ :: _ :: _ => simp [ranked, alternatives]

lemma Fills.not_marker (h : Fills service slot component) (hrequest : slot.request? ≠ none)
    (m : Marker) : component ≠ .marker m := by
  cases h with
  | keep c => exact absurd rfl hrequest
  | value _ => exact ranked_not_marker _ _ m
  | group _ => simp [unweighted, alternatives]

lemma Fills.seamless (h : Fills service slot component) (hservice : NoEmptyIds service) :
    Seamless slot [component] := by
  by_cases hrequest : slot.request? = none
  · cases h with
    | keep _ => exact .keep component
    | value _ => cases hrequest
    | group _ => cases hrequest
  · refine .lookup hrequest (fun glued => ?_) fun glued => ?_
    · rw [textFrom_cons, textFrom_cons, piece_of_not_marker (h.not_marker hrequest)]
    · by_contra hglues
      obtain ⟨name, hempty⟩ := (h.glues_iff hrequest).mp (by simpa [gluesAfter] using hglues)
      exact hservice.not_findsEmptyId name hempty

lemma CutUp.render_eq (h : CutUp schema components blocks slots) :
    render components = (frameOf false slots).fill ((atLookups slots blocks).map render) := by
  rw [← h.flatten_eq]
  exact render_flatten (h.blocks.flip.imp fun _ _ hblock => hblock.seamless)

lemma render_resolved {resolved : List Component} (h : List.Forall₂ (Fills service) slots resolved)
    (hservice : NoEmptyIds service) :
    render resolved =
      (frameOf false slots).fill ((atLookups slots resolved).map fun c => render [c]) := by
  have hparts : List.Forall₂ Seamless slots (resolved.map ([·])) :=
    List.forall₂_map_right_iff.mpr (h.imp fun _ _ hfills => hfills.seamless hservice)
  have hrender := render_flatten hparts
  rwa [atLookups_map, List.map_map, ← List.flatMap_def, List.flatMap_singleton'] at hrender

/-- The text of an accepted query is a frame with the texts of the values and groups that are looked
up, each with the field in front of it. Wherever an index that gives out no empty ids resolves the
query, the text of the resolved query is the same frame with the texts of the components that replace
them, each by itself. -/
theorem resolve_keeps_frame (schema : Schema) (raw : String) (tree : Tree)
    (hparse : parse raw = .ok tree) :
    ∃ blocks slots, ∃ frame : Frame, CutUp schema (flatten tree) blocks slots ∧
      frame.gaps.length = (slots.filterMap Slot.request?).length ∧
      (atLookups slots blocks).length = frame.gaps.length ∧
      render (flatten tree) = frame.fill ((atLookups slots blocks).map render) ∧
      ∀ service, NoEmptyIds service →
        (resolve schema service (flatten tree)).requests = slots.filterMap Slot.request? ∧
        ∀ resolved, (resolve schema service (flatten tree)).outcome = .ok resolved →
          List.Forall₂ (Fills service) slots resolved ∧
          (atLookups slots resolved).length = frame.gaps.length ∧
          render resolved = frame.fill ((atLookups slots resolved).map fun c => render [c]) := by
  obtain ⟨blocks, slots, hcut⟩ := exists_cutUp_of_parse schema hparse
  have hgaps := length_gaps false slots
  refine ⟨blocks, slots, frameOf false slots, hcut, hgaps, ?_, hcut.render_eq,
    fun service hservice => ⟨resolve_requests hcut.slotsOf_eq, fun resolved hresolved => ?_⟩⟩
  · rw [hgaps, length_atLookups hcut.blocks.flip]
  · have hfills := (hcut.resolve_eq_ok_iff resolved).mp hresolved
    exact ⟨hfills, by rw [hgaps, length_atLookups hfills], render_resolved hfills hservice⟩

set_option maxRecDepth 10000 in
theorem frame_kept_around_replacements :
    let service : Service := fun _ => .ok ⟨[[("id", .text "7")]], 1⟩
    ∃ tree resolved, ∃ frame : Frame, parse "-genre:antiphon (century:(20th))" = .ok tree ∧
      NoEmptyIds service ∧ (resolve .catalogue service (flatten tree)).outcome = .ok resolved ∧
      frame.gaps.length = 2 ∧
      render (flatten tree) = frame.fill ["genre:antiphon ", "century:( 20th  ) "] ∧
      render resolved = frame.fill ["genre_id:7 ", "(century_id:7) "] := by
  intro service
  let tree : Tree := [.literal ⟨some .minus, some "genre", ⟨0, 15⟩⟩ "antiphon",
    .group ⟨none, none, ⟨16, 32⟩⟩ [.group ⟨none, some "century", ⟨17, 31⟩⟩
      [.literal ⟨none, none, ⟨26, 30⟩⟩ "20th"]]]
  have hparse : parse "-genre:antiphon (century:(20th))" = .ok tree := by cbv
  have hservice : NoEmptyIds service := by
    rintro _ results hanswer doc hdoc hid
    obtain rfl := Except.ok.inj hanswer
    obtain rfl := List.mem_singleton.mp hdoc
    exact absurd ((told_idOf _).unique hid (.text rfl)) (by decide)
  have hresolve : (resolve .catalogue service (flatten tree)).outcome = .ok
      [.marker (.sign .minus), .field "genre_id" "7", .marker .opening, .bare "(century_id:7)",
        .marker .closing] := by
    cbv
  have hcentury : Schema.catalogue.crossRef? "century" = some ⟨"century", "century_id"⟩ := rfl
  have hcut : CutUp .catalogue (flatten tree) [[.marker (.sign .minus)], [.field "genre" "antiphon"],
      [.marker .opening], scopedBy "century" [.bare "20th"], [.marker .closing]] _ :=
    ⟨rfl, .cons (.keep (by simp [Stays])) <| .cons (.value rfl (by simp)) <|
      .cons (.keep (by simp [Stays])) <| .cons (.group hcentury (by decide)) <|
        .cons (.keep (by simp [Stays])) .nil⟩
  obtain ⟨blocks, slots, frame, hblocks, hgaps, _, htext, hframe⟩ :=
    resolve_keeps_frame .catalogue _ tree hparse
  obtain ⟨rfl, rfl⟩ := hcut.unique hblocks
  obtain ⟨_, _, hresolved⟩ := (hframe service hservice).2 _ hresolve
  exact ⟨tree, _, frame, hparse, hservice, hresolve, hgaps, htext, hresolved⟩

end ChantSearch.Proofs

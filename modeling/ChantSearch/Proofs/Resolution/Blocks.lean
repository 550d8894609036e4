import ChantSearch.Proofs.Components.Pairing
import ChantSearch.Proofs.Resolution.Refinement
import ChantSearch.Proofs.Resolution.Replacements

/-!
# Blocks

Planning cuts any list of components into blocks, from its front on and without a gap: a component
alone, or a cross-referenced field with the group that it scopes. It fails where such a field has no
value and no group, unless the field is inside a block. Each block comes to one component.
-/

namespace ChantSearch.Proofs
open Index Query Resolution

variable {schema : Schema} {service : Service} {slot slot' : Slot} {c : Component}
  {components cs block block' rest rest' : List Component} {blocks blocks' : List (List Component)}
  {slots slots' : List Slot} {fault : GroupFault}

/-- The component is no field with a cross-reference. -/
def Stays (schema : Schema) (c : Component) : Prop :=
  ∀ name value, c = .field name value → schema.crossRef? name = none

/-- The components that belong to one slot. -/
inductive Block (schema : Schema) : List Component → Slot → Prop
  | keep {c : Component} (hstays : Stays schema c) : Block schema [c] (.keep c)
  | value {name value : String} {ref : CrossRef} (href : schema.crossRef? name = some ref)
      (hvalue : value ≠ "") : Block schema [.field name value] (.value name value ref)
  | group {name : String} {ref : CrossRef} {members : List Component}
      (href : schema.crossRef? name = some ref) (hmembers : Paired members) :
      Block schema (scopedBy name members) (.group name (render (scopedBy name members)) ref)

/-- The blocks in a row are the components, and each of them has its slot. -/
structure CutUp (schema : Schema) (components : List Component) (blocks : List (List Component))
    (slots : List Slot) : Prop where
  flatten_eq : blocks.flatten = components
  blocks : List.Forall₂ (Block schema) blocks slots

/-- Behind whole blocks comes a cross-referenced field that has no value and no group. -/
inductive LacksGroup (schema : Schema) (components : List Component) : GroupFault → Prop
  | intro {front rest : List Component} {blocks : List (List Component)} {slots : List Slot}
      {name : String} {ref : CrossRef} {fault : GroupFault}
      (hsplit : components = front ++ .field name "" :: rest) (hfront : CutUp schema front blocks slots)
      (href : schema.crossRef? name = some ref) (hnone : ¬∃ members back, BeginsGroup rest members back)
      (hfault : fault =
        if rest.head? = some (.marker .opening) then .unclosed name else .unopened name) :
      LacksGroup schema components fault

lemma Block.ne_nil (h : Block schema block slot) : block ≠ [] := by
  cases h <;> simp [scopedBy]

lemma cutUp_nil : CutUp schema [] [] [] :=
  ⟨rfl, .nil⟩

lemma Block.cutUp (h : Block schema block slot) (hcs : CutUp schema cs blocks slots) :
    CutUp schema (block ++ cs) (block :: blocks) (slot :: slots) :=
  ⟨by rw [List.flatten_cons, hcs.flatten_eq], .cons h hcs.blocks⟩

lemma Block.lacksGroup (h : Block schema block slot) (hcs : LacksGroup schema cs fault) :
    LacksGroup schema (block ++ cs) fault := by
  cases hcs with
  | intro hsplit hfront href hnone hfault =>
    exact .intro (by rw [hsplit, List.append_assoc]) (h.cutUp hfront) href hnone hfault

lemma block_or_lacksGroup (schema : Schema) (c : Component) (cs : List Component) :
    (∃ block slot rest, Block schema block slot ∧ c :: cs = block ++ rest) ∨
      ∃ fault, LacksGroup schema (c :: cs) fault := by
  by_cases hstays : Stays schema c
  · exact .inl ⟨[c], _, cs, .keep hstays, rfl⟩
  · obtain ⟨name, value, rfl, href⟩ : ∃ name value, c = .field name value ∧
        schema.crossRef? name ≠ none := by
      simpa [Stays] using hstays
    obtain ⟨ref, href⟩ := Option.ne_none_iff_exists'.mp href
    by_cases hvalue : value = ""
    · subst hvalue
      by_cases hgroup : ∃ members back, BeginsGroup cs members back
      · obtain ⟨members, back, rfl, hmembers⟩ := hgroup
        exact .inl ⟨_, _, back, .group href hmembers, (scopedBy_append name members back).symm⟩
      · exact .inr ⟨_, .intro (List.nil_append _).symm cutUp_nil href hgroup rfl⟩
    · exact .inl ⟨_, _, cs, .value href hvalue, rfl⟩

lemma cutUp_or_lacksGroup (schema : Schema) (components : List Component) :
    (∃ slots blocks, CutUp schema components blocks slots) ∨
      ∃ fault, LacksGroup schema components fault := by
  -- Every block takes away at least one component.
  induction hn : components.length using Nat.strong_induction_on generalizing components with
  | _ n ih =>
    subst hn
    cases components with
    | nil => exact .inl ⟨[], [], cutUp_nil⟩
    | cons c cs =>
      rcases block_or_lacksGroup schema c cs with ⟨block, slot, rest, hblock, hsplit⟩ | hfault
      · rw [hsplit]
        have hpos := List.length_pos_iff.mpr hblock.ne_nil
        rcases ih rest.length (by simp [hsplit, hpos]) rest rfl with
          ⟨slots, blocks, hrest⟩ | ⟨fault, hrest⟩
        · exact .inl ⟨_, _, hblock.cutUp hrest⟩
        · exact .inr ⟨fault, hblock.lacksGroup hrest⟩
      · exact .inr hfault

lemma Block.plans (h : Block schema block slot) : Plans schema block [slot] := by
  cases h with
  | keep hstays => exact plans_keep hstays
  | value href hvalue => exact plans_value href hvalue
  | group href hmembers => exact plans_group href (balanced_iff_paired.mpr hmembers)

lemma CutUp.plans (h : CutUp schema components blocks slots) : Plans schema components slots := by
  obtain ⟨rfl, hblocks⟩ := h
  induction hblocks with
  | nil => exact plans_nil
  | cons hblock _ ih => exact hblock.plans.append ih

lemma LacksGroup.slotsOf_eq (h : LacksGroup schema components fault) :
    slotsOf schema components = .error fault := by
  cases h with
  | @intro front rest _ _ name ref _ hsplit hfront href hnone hfault =>
    have hgroup : scopedGroup 0 (.field name "" :: rest) = .error fault :=
      ((told_scopedGroup 0 rest rfl).error_iff fault).mpr ⟨hnone, hfault⟩
    have hstop : slotsFrom schema 0 (.field name "" :: rest) = .error fault := by
      simp only [slotsFrom, href, hgroup]
      rfl
    rw [slotsOf, hsplit, hfront.plans, hstop]
    rfl

/-- Planning succeeds if and only if the components can be cut into blocks. -/
lemma told_slotsOf (schema : Schema) (components : List Component) :
    Told (slotsOf schema components) (fun slots => ∃ blocks, CutUp schema components blocks slots)
      (LacksGroup schema components) :=
  told_of_total (fun _ ⟨_, h⟩ => h.plans.slotsOf_eq) (fun _ => LacksGroup.slotsOf_eq)
    (cutUp_or_lacksGroup schema components)

lemma CutUp.slotsOf_eq (h : CutUp schema components blocks slots) :
    slotsOf schema components = .ok slots :=
  h.plans.slotsOf_eq

/-- In an accepted query every group is closed, so nothing keeps it from being cut into blocks. -/
lemma exists_cutUp_of_parse {raw : String} {tree : Tree} (schema : Schema)
    (hparse : parse raw = .ok tree) : ∃ blocks slots, CutUp schema (flatten tree) blocks slots := by
  obtain ⟨blocks, hcut⟩ :=
    ((told_slotsOf schema (flatten tree)).ok_iff _).mp (slotsOf_of_parse hparse)
  exact ⟨blocks, _, hcut⟩

/-! ### There is one way to cut a list -/

/-- A block is a component alone, unless that is a field in want of a group. -/
lemma Block.cases_of (h : Block schema block slot) :
    (∃ c, block = [c] ∧ ∀ name, c = .field name "" → schema.crossRef? name = none) ∨
      ∃ name members, block = scopedBy name members ∧ Paired members ∧
        schema.crossRef? name ≠ none := by
  cases h with
  | keep hstays => exact .inl ⟨_, rfl, fun name => hstays name ""⟩
  | value href hvalue =>
    refine .inl ⟨_, rfl, fun other hother => ?_⟩
    exact absurd (Component.field.inj hother).2 hvalue
  | group href hmembers => exact .inr ⟨_, _, rfl, hmembers, by simp [href]⟩

/-- The front of a list tells where its first block ends. -/
lemma Block.front_unique (h : Block schema block slot) (h' : Block schema block' slot')
    (heq : block ++ rest = block' ++ rest') : block = block' ∧ rest = rest' := by
  rcases h.cases_of with ⟨c, rfl, hc⟩ | ⟨name, members, rfl, hmembers, href⟩
  · rcases h'.cases_of with ⟨d, rfl, _⟩ | ⟨name, members, rfl, _, href⟩
    · obtain ⟨rfl, hrest⟩ := List.cons.inj heq
      exact ⟨rfl, hrest⟩
    · exact absurd (hc name (List.cons.inj heq).1) href
  · rcases h'.cases_of with ⟨d, rfl, hd⟩ | ⟨name', members', rfl, hmembers', _⟩
    · exact absurd (hd name (List.cons.inj heq).1.symm) href
    · obtain ⟨rfl, rfl, rfl⟩ := scopedBy_cancel hmembers hmembers' heq
      exact ⟨rfl, rfl⟩

lemma flatten_blocks_unique (h : List.Forall₂ (Block schema) blocks slots)
    (h' : List.Forall₂ (Block schema) blocks' slots') (heq : blocks.flatten = blocks'.flatten) :
    blocks = blocks' := by
  induction h generalizing blocks' slots' with
  | nil =>
    cases h' with
    | nil => rfl
    | cons hblock' _ => simp [hblock'.ne_nil] at heq
  | cons hblock _ ih =>
    cases h' with
    | nil => simp [hblock.ne_nil] at heq
    | cons hblock' hblocks' =>
      obtain ⟨rfl, hrest⟩ := hblock.front_unique hblock' heq
      rw [ih hblocks' hrest]

lemma CutUp.unique (h : CutUp schema components blocks slots)
    (h' : CutUp schema components blocks' slots') : blocks' = blocks ∧ slots' = slots :=
  ⟨flatten_blocks_unique h'.blocks h.blocks (h'.flatten_eq.trans h.flatten_eq.symm),
    (told_slotsOf schema components).unique ⟨_, h'⟩ ⟨_, h⟩⟩

lemma Fails.ne_malformed {e : QueryError} (h : Fails service slot e) (reason : String) :
    e ≠ .malformedSubquery reason := by
  cases h <;> simp

lemma CutUp.resolve_ne_malformed (h : CutUp schema components blocks slots) (reason : String) :
    (resolve schema service components).outcome ≠ .error (.malformedSubquery reason) := by
  simp only [resolve, h.slotsOf_eq]
  intro herror
  obtain ⟨_, _, _, _, _, hfails⟩ := ((told_mapM (told_fill service) slots).error_iff _).mp herror
  exact hfails.ne_malformed reason rfl

lemma CutUp.resolve_eq_ok_iff (h : CutUp schema components blocks slots)
    (resolved : List Component) :
    (resolve schema service components).outcome = .ok resolved ↔
      List.Forall₂ (Fills service) slots resolved := by
  simp [Proofs.resolve_eq_ok_iff, h.slotsOf_eq]

/-- What stays fills its own block unchanged. -/
lemma Block.stays (h : Block schema block slot) {component : Component}
    (hfills : Fills service slot component) (heq : block = [c]) (hstays : Stays schema c) :
    component = c := by
  subst heq
  cases h with
  | keep _ =>
    cases hfills
    rfl
  | value href _ => exact absurd (hstays _ _ rfl) (by simp [href])

/-- Any list of components, from a query or not, is resolved in one of two ways. Behind whole blocks
it may have a cross-referenced field that lacks a value and a group; then resolution fails with that
fault, and nothing is asked. Otherwise the list can be cut into blocks from left to right, in one way
alone. Then the lookups of the blocks are asked, no fault is found, and there is one component for
every block if the lookups succeed: the block itself, if it is no field with a cross-reference. -/
theorem resolve_cuts_into_blocks (schema : Schema) (service : Service)
    (components : List Component) :
    (∃ fault, LacksGroup schema components fault ∧
      resolve schema service components = ⟨[], .error (.malformedSubquery fault.message)⟩ ∧
      ¬∃ blocks slots, CutUp schema components blocks slots) ∨
    ∃ blocks slots, CutUp schema components blocks slots ∧
      (∀ blocks' slots', CutUp schema components blocks' slots' →
        blocks' = blocks ∧ slots' = slots) ∧
      (¬∃ fault, LacksGroup schema components fault) ∧
      (∀ reason, (resolve schema service components).outcome ≠
        .error (.malformedSubquery reason)) ∧
      (resolve schema service components).requests = slots.filterMap Slot.request? ∧
      (∀ resolved, (resolve schema service components).outcome = .ok resolved ↔
        List.Forall₂ (Fills service) slots resolved) ∧
      ∀ resolved, (resolve schema service components).outcome = .ok resolved →
        List.Forall₂ (fun block component =>
          ∀ c, block = [c] → Stays schema c → component = c) blocks resolved := by
  have hplan := told_slotsOf schema components
  rcases hplan.total with ⟨slots, blocks, hcut⟩ | ⟨fault, hfault⟩
  · refine .inr ⟨blocks, slots, hcut, fun _ _ => hcut.unique, ?_, hcut.resolve_ne_malformed,
      resolve_requests hcut.slotsOf_eq, hcut.resolve_eq_ok_iff, fun resolved hresolved => ?_⟩
    · exact fun ⟨fault, hfault⟩ => hplan.disjoint ⟨blocks, hcut⟩ hfault
    · have hfills := (hcut.resolve_eq_ok_iff resolved).mp hresolved
      refine (forall₂_comp hcut.blocks hfills).imp ?_
      rintro block component ⟨slot, hblock, hfills⟩ c
      exact hblock.stays hfills
  · refine .inl ⟨fault, hfault, ?_, fun ⟨blocks, slots, hcut⟩ => hplan.disjoint ⟨blocks, hcut⟩ hfault⟩
    simp only [resolve, hfault.slotsOf_eq]

/-- A stray closing marker, an empty field that is no cross-reference, and one closing marker too
many behind a group that is looked up. -/
theorem stray_markers_kept :
    let service : Service := fun _ => .ok ⟨[[("id", .text "7")]], 1⟩
    let group : List Component := scopedBy "genre" [.marker .opening, .marker .closing]
    let components : List Component :=
      [.marker .closing, .field "incipit" ""] ++ group ++ [.marker .closing, .field "genre" "x"]
    (∃ slots, CutUp .catalogue components
      [[.marker .closing], [.field "incipit" ""], group, [.marker .closing], [.field "genre" "x"]]
      slots) ∧
    (∀ blocks slots, CutUp .catalogue components blocks slots → blocks.length = 5) ∧
    (resolve .catalogue service components).outcome = .ok [.marker .closing, .field "incipit" "",
      .bare "(genre_id:7)", .marker .closing, .field "genre_id" "7"] := by
  intro service group components
  have hmarker : Stays .catalogue (.marker .closing) := by simp [Stays]
  have hincipit : Stays .catalogue (.field "incipit" "") := by
    rintro _ _ ⟨⟩
    rfl
  have hmembers : Paired [.marker .opening, .marker .closing] := by decide
  have hcut : CutUp .catalogue components [[.marker .closing], [.field "incipit" ""], group,
      [.marker .closing], [.field "genre" "x"]] _ :=
    ⟨rfl, .cons (.keep hmarker) <| .cons (.keep hincipit) <| .cons (.group rfl hmembers) <|
      .cons (.keep hmarker) <| .cons (.value rfl (by simp)) .nil⟩
  refine ⟨⟨_, hcut⟩, fun blocks slots hblocks => ?_, by cbv⟩
  rcases resolve_cuts_into_blocks .catalogue service components with
    ⟨_, _, _, hnone⟩ | ⟨_, _, _, hunique, _⟩
  · exact absurd ⟨_, _, hcut⟩ hnone
  · rw [(hunique _ _ hblocks).1, ← (hunique _ _ hcut).1]
    rfl

end ChantSearch.Proofs

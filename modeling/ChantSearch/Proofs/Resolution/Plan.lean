import ChantSearch.Proofs.Resolution.TreeResolver

/-!
# The plan of a flattened query

The slots of a flattened query are read off its tree. The plan of a part of a query does not
depend on what stands behind the part, and the parts are balanced, so a group that is looked up
as a whole ends where its term ends.
-/

namespace ChantSearch.Proofs
open Index Query Resolution

variable {μ : Type} {schema : Schema}

/-- The search for a closing marker passes over the components as a whole. -/
def Balanced (cs : List Component) : Prop :=
  ∀ depth rest, closingAt (depth + 1) (cs ++ rest) =
    (closingAt (depth + 1) rest).map (· + cs.length)

lemma Balanced.append {cs ds : List Component} (hcs : Balanced cs) (hds : Balanced ds) :
    Balanced (cs ++ ds) := by
  intro depth rest
  rw [List.append_assoc, hcs, hds, Option.map_map]
  congr 1
  funext n
  simp only [Function.comp_apply, List.length_append]
  omega

lemma balanced_nil : Balanced [] := by
  intro depth rest
  simp

lemma balanced_single {c : Component} (hopen : c ≠ .marker .opening)
    (hclose : c ≠ .marker .closing) : Balanced [c] := by
  intro depth rest
  cases c with
  | bare _ => rfl
  | field _ _ => rfl
  | marker m =>
    cases m with
    | connective _ => rfl
    | sign _ => rfl
    | opening => exact absurd rfl hopen
    | closing => exact absurd rfl hclose

lemma Balanced.group {cs : List Component} (h : Balanced cs) :
    Balanced (.marker .opening :: (cs ++ [.marker .closing])) := by
  intro depth rest
  have hclose : closingAt (depth + 1 + 1) (.marker .closing :: rest) =
      (closingAt (depth + 1) rest).map (· + 1) := by
    rw [closingAt, if_neg (by omega)]
    rfl
  rw [List.cons_append, closingAt, List.append_assoc, h, List.singleton_append, hclose,
    Option.map_map, Option.map_map]
  congr 1
  funext n
  simp only [Function.comp_apply, List.length_cons, List.length_append, List.length_nil]
  omega

lemma balanced_signMarker (head : Head μ) : Balanced head.signMarker := by
  obtain ⟨sign?, field?, mark⟩ := head
  cases sign? with
  | none => exact balanced_nil
  | some s => exact balanced_single (by simp) (by simp)

lemma balanced_scope (head : Head μ) : Balanced head.scope := by
  obtain ⟨sign?, field?, mark⟩ := head
  cases field? with
  | none => exact balanced_nil
  | some name => exact balanced_single (by simp) (by simp)

mutual

lemma balanced_components : ∀ node : Node μ, Balanced node.components
  | .connective _ => balanced_single (by simp) (by simp)
  | .literal head text => by
    apply (balanced_signMarker head).append
    rw [Head.literalComponent]
    split
    · exact balanced_single (by simp) (by simp)
    · exact balanced_single (by simp) (by simp)
  | .group head members =>
    ((balanced_signMarker head).append (balanced_scope head)).append (balanced_flatten members).group

lemma balanced_flatten : ∀ nodes : List (Node μ), Balanced (flatten nodes)
  | [] => balanced_nil
  | node :: nodes => (balanced_components node).append (balanced_flatten nodes)

end

mutual

/-- The slots of one member of a list of terms. -/
def nodeSlots (schema : Schema) : Node μ → List Slot
  | .connective c => [.keep (.marker (.connective c))]
  | .literal head text =>
    head.signMarker.map .keep ++
      match crossRefOf schema head with
      | some (name, ref) => [.value name text ref]
      | none => [.keep (head.literalComponent text)]
  | .group head members =>
    head.signMarker.map .keep ++
      match crossRefOf schema head with
      | some (name, ref) => [.group name (render (flatten [.group (unsigned head) members])) ref]
      | none =>
        (head.scope ++ [Component.marker .opening]).map .keep ++
          (nodesSlots schema members ++ [.keep (.marker .closing)])

def nodesSlots (schema : Schema) : List (Node μ) → List Slot
  | [] => []
  | node :: nodes => nodeSlots schema node ++ nodesSlots schema nodes

end

lemma nodesSlots_append (ts us : List (Node μ)) :
    nodesSlots schema (ts ++ us) = nodesSlots schema ts ++ nodesSlots schema us := by
  induction ts with
  | nil => rfl
  | cons t ts ih => simp only [List.cons_append, nodesSlots, ih, List.append_assoc]

lemma nodesSlots_connective (k? : Option Connective) :
    nodesSlots schema (k?.toList.map (Node.connective (μ := μ))) =
      k?.toList.map fun k => .keep (.marker (.connective k)) := by
  cases k? <;> rfl

/-- Planning cuts the components into these slots, whatever follows them. -/
def Plans (schema : Schema) (components : List Component) (slots : List Slot) : Prop :=
  ∀ rest, slotsFrom schema 0 (components ++ rest) = (slotsFrom schema 0 rest).map (slots ++ ·)

lemma Plans.slotsOf_eq {cs : List Component} {slots : List Slot} (h : Plans schema cs slots) :
    slotsOf schema cs = .ok slots := by
  have hend := h []
  rw [List.append_nil] at hend
  rw [slotsOf, hend]
  simp [slotsFrom, Except.map]

lemma plans_nil : Plans schema [] [] := by
  intro rest
  cases h : slotsFrom schema 0 rest <;> simp [h, Except.map]

lemma Plans.append {cs ds : List Component} {slots slots' : List Slot}
    (hcs : Plans schema cs slots) (hds : Plans schema ds slots') :
    Plans schema (cs ++ ds) (slots ++ slots') := by
  intro rest
  rw [List.append_assoc, hcs, hds]
  cases slotsFrom schema 0 rest <;> simp [Except.map]

lemma plans_keep {c : Component} (h : ∀ name value, c = .field name value →
    schema.crossRef? name = none) : Plans schema [c] [.keep c] := by
  intro rest
  cases c with
  | bare _ => rfl
  | marker _ => rfl
  | field name value =>
    simp only [List.singleton_append, slotsFrom, h name value rfl]

lemma plans_keeps {cs : List Component} (h : ∀ name value, .field name value ∈ cs →
    schema.crossRef? name = none) : Plans schema cs (cs.map .keep) := by
  induction cs with
  | nil => exact plans_nil
  | cons c cs ih =>
    have hc : Plans schema [c] [.keep c] :=
      plans_keep fun name value heq => h name value (heq ▸ List.mem_cons_self)
    exact hc.append (ih fun name value hmem => h name value (List.mem_cons_of_mem c hmem))

lemma plans_value {name text : String} {ref : CrossRef} (href : schema.crossRef? name = some ref)
    (htext : text ≠ "") : Plans schema [.field name text] [.value name text ref] := by
  intro rest
  have hempty : text.isEmpty = false := by simpa using htext
  simp [slotsFrom, href, hempty]

/-- The components of a group that has its slot are skipped. -/
lemma slotsFrom_skip (cs rest : List Component) :
    slotsFrom schema cs.length (cs ++ rest) = slotsFrom schema 0 rest := by
  induction cs with
  | nil => rfl
  | cons c cs ih => exact ih

/-- The members of a field's group, if balanced, are the group. -/
lemma scopedGroup_balanced {cs : List Component} (h : Balanced cs) (position : Nat)
    (name : String) (rest : List Component) :
    scopedGroup position (.field name "" :: .marker .opening :: (cs ++ .marker .closing :: rest)) =
      .ok ⟨cs.length + 3,
        render (.field name "" :: .marker .opening :: (cs ++ [.marker .closing]))⟩ := by
  have hclose : closingAt 1 (cs ++ .marker .closing :: rest) = some (cs.length + 1) := by
    rw [h 0]
    simp [closingAt, Nat.add_comm]
  have htake : (.field name "" :: .marker .opening :: (cs ++ .marker .closing :: rest) :
      List Component).take (cs.length + 1 + 2) =
        .field name "" :: .marker .opening :: (cs ++ [.marker .closing]) := by
    rw [List.take_succ_cons, List.take_succ_cons, List.take_length_add_append]
    rfl
  simp only [scopedGroup, List.head?_cons, Option.bind_some, Component.fieldName?, List.tail_cons,
    hclose, htake]

lemma plans_group {name : String} {ref : CrossRef} (href : schema.crossRef? name = some ref)
    {cs : List Component} (h : Balanced cs) :
    Plans schema (.field name "" :: .marker .opening :: (cs ++ [.marker .closing]))
      [.group name (render (.field name "" :: .marker .opening :: (cs ++ [.marker .closing])))
        ref] := by
  intro rest
  have happend : (.field name "" :: .marker .opening :: (cs ++ [.marker .closing])) ++ rest =
      .field name "" :: .marker .opening :: (cs ++ .marker .closing :: rest) := by simp
  have hskip : slotsFrom schema (cs.length + 3 - 1)
      (.marker .opening :: (cs ++ .marker .closing :: rest)) = slotsFrom schema 0 rest := by
    have h := @slotsFrom_skip schema (.marker .opening :: (cs ++ [.marker .closing])) rest
    simpa using h
  -- One step of the walk is unfolded; the next one skips the group.
  rw [happend, slotsFrom]
  simp only [href]
  rw [if_pos (by rfl), scopedGroup_balanced h]
  simp only [hskip]
  rfl

lemma mem_of_crossRef? {name : String} {ref : CrossRef} (h : schema.crossRef? name = some ref) :
    (name, ref) ∈ schema.crossRefs := by
  obtain ⟨before, after, hrefs, _⟩ := List.lookup_eq_some_iff.mp h
  simp [hrefs]

lemma crossRefOf_eq_some_iff {head : Head μ} {name : String} {ref : CrossRef} :
    crossRefOf schema head = some (name, ref) ↔
      head.field? = some name ∧ schema.crossRef? name = some ref := by
  obtain ⟨sign?, field?, mark⟩ := head
  cases field? with
  | none => simp [crossRefOf]
  | some other =>
    simp only [crossRefOf, Option.bind_some, Option.map_eq_some_iff, Prod.mk.injEq,
      Option.some.injEq]
    constructor
    · rintro ⟨_, href, rfl, rfl⟩
      exact ⟨rfl, href⟩
    · rintro ⟨rfl, href⟩
      exact ⟨ref, href, rfl, rfl⟩

lemma crossRefOf_eq_none_iff {head : Head μ} :
    crossRefOf schema head = none ↔ ∀ name, head.field? = some name → schema.crossRef? name = none := by
  obtain ⟨sign?, field?, mark⟩ := head
  cases field? <;> simp [crossRefOf]

lemma plans_signMarker (head : Head μ) :
    Plans schema head.signMarker (head.signMarker.map .keep) :=
  plans_keeps fun name value h => by simp [Head.signMarker] at h

lemma plans_literal (head : Head μ) {text : String} (htext : head.field? ≠ none → text ≠ "") :
    Plans schema (Node.literal head text).components (nodeSlots schema (.literal head text)) := by
  rw [Node.components, nodeSlots]
  apply (plans_signMarker head).append
  cases href : crossRefOf schema head with
  | none =>
    rw [crossRefOf_eq_none_iff] at href
    apply plans_keep
    intro name value heq
    apply href name
    rw [Head.literalComponent] at heq
    split at heq
    · cases heq
    · next hfield =>
        cases heq
        exact hfield
  | some found =>
    obtain ⟨name, ref⟩ := found
    obtain ⟨hfield, href⟩ := crossRefOf_eq_some_iff.mp href
    simp only [Head.literalComponent, hfield]
    exact plans_value href (htext (by simp [hfield]))

lemma plans_group_node (head : Head μ) {members : List (Node μ)}
    (h : Plans schema (flatten members) (nodesSlots schema members)) :
    Plans schema (Node.group head members).components
      (nodeSlots schema (.group head members)) := by
  rw [Node.components, nodeSlots, List.append_assoc]
  apply (plans_signMarker head).append
  cases href : crossRefOf schema head with
  | none =>
    rw [crossRefOf_eq_none_iff] at href
    have hopen : Plans schema (head.scope ++ [.marker .opening])
        ((head.scope ++ [Component.marker .opening]).map .keep) := by
      apply plans_keeps
      intro name value hmem
      apply href name
      simp only [Head.scope, List.mem_append, List.mem_map, Option.mem_toList] at hmem
      rcases hmem with ⟨other, hother, heq⟩ | hmem
      · cases heq
        exact hother
      · simp at hmem
    have hclose : Plans schema [.marker .closing] [.keep (.marker .closing)] :=
      plans_keep (by simp)
    simpa using hopen.append (h.append hclose)
  | some found =>
    obtain ⟨name, ref⟩ := found
    obtain ⟨hfield, href⟩ := crossRefOf_eq_some_iff.mp href
    have hscope : head.scope = [.field name ""] := by simp [Head.scope, hfield]
    have hsubquery : flatten [.group (unsigned head) members] =
        .field name "" :: .marker .opening :: (flatten members ++ [.marker .closing]) := by
      simp [flatten, Node.components, unsigned, Head.signMarker, Head.scope, hfield]
    simp only [hscope, hsubquery]
    exact plans_group href (balanced_flatten members)

mutual

lemma plans_components :
    ∀ node : Node μ, FieldLiteralsNonempty node →
      Plans schema node.components (nodeSlots schema node)
  | .connective c, _ => plans_keep (by simp)
  | .literal head _, h => plans_literal head h
  | .group head members, h => plans_group_node head (plans_flatten members h)

lemma plans_flatten :
    ∀ nodes : List (Node μ), AllFieldLiteralsNonempty nodes →
      Plans schema (flatten nodes) (nodesSlots schema nodes)
  | [], _ => plans_nil
  | node :: nodes, h => (plans_components node h.1).append (plans_flatten nodes h.2)

end

end ChantSearch.Proofs

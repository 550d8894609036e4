import ChantSearch.Proofs.Index.Documents
import ChantSearch.Proofs.Meaning.Leaves
import ChantSearch.Proofs.Meaning.Verdict
import ChantSearch.Schema.Catalogue

/-!
# Queries whose lookups find no records

Resolution stops at a lookup that finds no records. The term it belongs to denotes nothing then,
which is not to say that the query does: another term may be an alternative, or the term may only
be there to exclude records.
-/

namespace ChantSearch.Proofs
open Index Query Resolution

variable {μ ρ : Type} {schema : Schema} {service : Service} {tree : Tree}

/-- The lookup is answered, and with no records. -/
def Lookup.foundNone (service : Service) (lookup : Lookup) : Bool :=
  match service (.ofQuery lookup.query) with
  | .ok results => results.docs.isEmpty
  | .error _ => false

def findsNone (schema : Schema) (service : Service) (term : Node μ) : Bool :=
  (lookupOf schema term).any (Lookup.foundNone service)

lemma Fails.foundNone {slot : Slot} {field : String} (h : Fails service slot (.noResults field)) :
    ∃ lookup, slotLookup? slot = some lookup ∧ lookup.field = field ∧ lookup.foundNone service := by
  cases h with
  | noDocument hrequest hfield hanswer hempty =>
    cases slot with
    | keep component => cases hrequest
    | value name text ref =>
      cases hrequest
      cases hfield
      exact ⟨_, rfl, rfl, by simp [Lookup.foundNone, hanswer, hempty]⟩
    | group name subquery ref =>
      cases hrequest
      cases hfield
      exact ⟨_, rfl, rfl, by simp [Lookup.foundNone, hanswer, hempty]⟩

lemma exists_leaf_of_noResults {field : String}
    (h : (inquire service (nodesSlots schema tree)).outcome = .error (.noResults field)) :
    ∃ term ∈ leaves schema tree, ∃ lookup, lookupOf schema term = some lookup ∧
      lookup.field = field ∧ lookup.foundNone service := by
  obtain ⟨before, slot, after, hslots, _, hslot⟩ :=
    ((told_mapM (told_fill service) _).error_iff _).mp h
  obtain ⟨lookup, hlookup, hfield, hnone⟩ := hslot.foundNone
  have hmem : lookup ∈ (leaves schema tree).filterMap (lookupOf schema) := by
    rw [← lookups_nodesSlots, hslots]
    exact List.mem_filterMap.mpr ⟨slot, by simp, hlookup⟩
  obtain ⟨term, hterm, hof⟩ := List.mem_filterMap.mp hmem
  exact ⟨term, hterm, lookup, hof, hfield, hnone⟩

/-- Records, those that a literal matches where it stands, and those that hold an id in a field. A
literal comes with its span, so two equal ones in different places may match different records. -/
structure Collection (ρ : Type) where
  plain : Node Span → Set ρ
  holding : String → String → Set ρ

namespace Collection

/-- The records that a leaf matches. A term of a cross-referenced field matches the records that
hold the id of one of the records that its lookup found. -/
inductive Matches (collection : Collection ρ) (schema : Schema) (service : Service)
    (term : Node Span) (r : ρ) : Prop
  | plain (hlookup : lookupOf schema term = none) (h : r ∈ collection.plain term)
  | found {lookup : Lookup} {results : Results} {doc : Document} {id : String}
      (hlookup : lookupOf schema term = some lookup)
      (hanswer : service (.ofQuery lookup.query) = .ok results)
      (hdoc : doc ∈ results.docs) (hid : HasId doc id)
      (h : r ∈ collection.holding lookup.ref.idField id)

def reading (collection : Collection ρ) (schema : Schema) (service : Service)
    (term : Node Span) : Set ρ :=
  {r | collection.Matches schema service term r}

def denotes (collection : Collection ρ) (schema : Schema) (service : Service) (tree : Tree) :
    Set ρ :=
  denote schema (collection.reading schema service) tree

lemma reading_eq_empty (collection : Collection ρ) {term : Node Span}
    (h : findsNone schema service term) : collection.reading schema service term = ∅ := by
  obtain ⟨lookup, hlookup, hnone⟩ := (Option.any_eq_true _ _).mp h
  refine Set.eq_empty_of_forall_notMem fun r hr => ?_
  cases hr with
  | plain hplain => simp [hplain] at hlookup
  | found hfound hanswer hdoc =>
    obtain rfl := Option.some.inj (hlookup.symm.trans hfound)
    simp only [Lookup.foundNone, hanswer, List.isEmpty_iff] at hnone
    simp [hnone] at hdoc

end Collection

def leafVerdict (schema : Schema) (service : Service) (term : Node μ) : Verdict :=
  if findsNone schema service term then .nothing else .undecided

def verdictOf (schema : Schema) (service : Service) (tree : List (Node μ)) : Verdict :=
  denote schema (leafVerdict schema service) tree

lemma leafVerdict_eq_nothing_iff {term : Node μ} :
    leafVerdict schema service term = .nothing ↔ findsNone schema service term := by
  unfold leafVerdict
  split <;> simp [*]

/-- A value that a verdict about a leaf admits is bottom if the leaf found no records. -/
lemma admits_leafVerdict {V : Type} [BooleanAlgebra V] {term : Node μ} {value : V}
    (h : findsNone schema service term → value = ⊥) :
    (leafVerdict schema service term).Admits value := by
  refine ⟨fun hverdict => h (leafVerdict_eq_nothing_iff.mp hverdict), fun hverdict => ?_⟩
  unfold leafVerdict at hverdict
  split at hverdict <;> cases hverdict

lemma denotes_eq_empty_of_verdict (collection : Collection ρ)
    (h : verdictOf schema service tree = .nothing) :
    collection.denotes schema service tree = ∅ :=
  (Verdict.admits_denote fun _ _ => admits_leafVerdict collection.reading_eq_empty).1 h

/-! ### Conjunctions -/

def Conjoins (k? : Option Connective) : Prop :=
  k? = none ∨ k? = some .and ∨ k? = some .ampersands

def Affirms (sign? : Option Sign) : Prop :=
  sign? = none ∨ sign? = some .plus

mutual

def NodeConjunctive (schema : Schema) : Node μ → Prop
  | .connective k => Conjoins (some k)
  | .literal head _ => Affirms head.sign?
  | .group head members =>
    Affirms head.sign? ∧ (crossRefOf schema head = none → Conjunctive schema members)

/-- Outside of what is looked up as a whole there is no sign but the plus and no connective but
conjunctions. -/
def Conjunctive (schema : Schema) : List (Node μ) → Prop
  | [] => True
  | node :: nodes => NodeConjunctive schema node ∧ Conjunctive schema nodes

end

lemma joined_eq_nothing {k? : Option Connective} {v w : Verdict} (hk : Conjoins k?)
    (h : v = .nothing ∨ w = .nothing) : joined k? v w = .nothing := by
  have hinf : v ⊓ w = .nothing := by
    rcases h with rfl | rfl
    · rfl
    · cases v <;> rfl
  rcases hk with rfl | rfl | rfl <;> exact hinf

lemma signed_eq_of_affirms {sign? : Option Sign} {v : Verdict} (h : Affirms sign?) :
    signed sign? v = v := by
  rcases h with rfl | rfl <;> rfl

variable {verdicts : Node μ → Verdict} {front : Front Verdict}

lemma conjoins_readNode {node : Node μ} (hnode : NodeConjunctive schema node) :
    Conjoins (readNode schema verdicts front node).connective? := by
  cases node with
  | connective k => exact hnode
  | literal head text => exact .inl rfl
  | group head members => exact .inl rfl

lemma term_eq_nothing {sign? : Option Sign} {v : Verdict} (hk : Conjoins front.connective?)
    (hsign : Affirms sign?) (h : front.value = .nothing ∨ v = .nothing) :
    (front.term sign? v).value = .nothing := by
  rw [Front.term, signed_eq_of_affirms hsign]
  exact joined_eq_nothing hk h

mutual

lemma readNode_eq_nothing : ∀ (node : Node μ) {front : Front Verdict},
    NodeConjunctive schema node → Conjoins front.connective? →
      (front.value = .nothing ∨ ∃ t ∈ nodeLeaves schema node, verdicts t = .nothing) →
        (readNode schema verdicts front node).value = .nothing
  | .connective k, _, _, _, h => by
    rw [nodeLeaves] at h
    exact h.resolve_right (by simp)
  | .literal head text, _, hnode, hk, h => term_eq_nothing hk hnode (by simpa [nodeLeaves] using h)
  | .group head members, _, hnode, hk, h => by
    cases href : crossRefOf schema head with
    | some found =>
      rw [readNode_lookedUp href]
      rw [nodeLeaves_lookedUp href] at h
      exact term_eq_nothing hk hnode.1 (by simpa using h)
    | none =>
      rw [readNode_group href]
      rw [nodeLeaves_group href] at h
      refine term_eq_nothing hk hnode.1 (h.imp_right fun hleaf => ?_)
      exact readNodes_eq_nothing members (hnode.2 href) (.inl rfl) (.inr hleaf)

/-- A conjunction denotes nothing if one of its leaves does. -/
lemma readNodes_eq_nothing : ∀ (nodes : List (Node μ)) {front : Front Verdict},
    Conjunctive schema nodes → Conjoins front.connective? →
      (front.value = .nothing ∨ ∃ t ∈ leaves schema nodes, verdicts t = .nothing) →
        (readNodes schema verdicts front nodes).value = .nothing
  | [], _, _, _, h => by
    rw [leaves] at h
    exact h.resolve_right (by simp)
  | node :: nodes, front, hnodes, hk, h => by
    apply readNodes_eq_nothing nodes hnodes.2 (conjoins_readNode hnodes.1)
    rcases h with hvalue | ⟨t, ht, hnothing⟩
    · exact .inl (readNode_eq_nothing node hnodes.1 hk (.inl hvalue))
    · rcases List.mem_append.mp ht with ht | ht
      · exact .inl (readNode_eq_nothing node hnodes.1 hk (.inr ⟨t, ht, hnothing⟩))
      · exact .inr ⟨t, ht, hnothing⟩

end

lemma respected_set (ρ : Type) :
    Respected fun (b : Bool) (s : Set ρ) => s = if b then Set.univ else ∅ where
  top := rfl
  compl {b _} h := by cases b <;> simp [h]
  inf {b b' _ _} h h' := by cases b <;> cases b' <;> simp [h, h']
  sup {b b' _ _} h h' := by cases b <;> cases b' <;> simp [h, h']
  sdiff {b b' _ _} h h' := by cases b <;> cases b' <;> simp [h, h', sdiff_eq]

/-- If the verdict is not that a query denotes nothing, its leaves, each in its place, may denote
sets of records such that it denotes all records, though those that found none denote nothing. -/
lemma exists_denote_eq_univ {raw : String} (ρ : Type) (hparse : parse raw = .ok tree)
    (h : verdictOf schema service tree ≠ .nothing) :
    ∃ reading : Node Span → Set ρ,
      (∀ term ∈ leaves schema tree, findsNone schema service term → reading term = ∅) ∧
        denote schema reading tree = Set.univ := by
  obtain ⟨holds, hallows, htrue⟩ := Verdict.exists_denote_eq_true (leaves_nodup hparse) h
  refine ⟨fun term => if holds term then Set.univ else ∅, fun term hterm hnone => ?_, ?_⟩
  · have hfalse : holds term = false :=
      (hallows term hterm).1 (leafVerdict_eq_nothing_iff.mpr hnone)
    simp [hfalse]
  · have hset : denote schema (fun term => if holds term then (Set.univ : Set ρ) else ∅) tree =
        if denote schema holds tree then Set.univ else ∅ :=
      related_denote (respected_set ρ) fun _ _ => rfl
    rw [hset, htrue]
    rfl

/-- A query fails for a field without results if a leaf of the field found no records. If the query
is a conjunction, it denotes no records then, whatever the collection. So does any query with the
verdict that it denotes nothing. Under another verdict a query may denote all records. This is
exact for each occurrence of a literal by itself: the reading takes a leaf with its span, and may
give different sets to two equal leaves in different places. -/
theorem noResults_denotes (raw : String) (schema : Schema) (service : Service) (tree : Tree)
    (field : String) (hparse : parse raw = .ok tree)
    (hresolve : (resolve schema service (flatten tree)).outcome = .error (.noResults field)) :
    (∃ term ∈ leaves schema tree, ∃ lookup, lookupOf schema term = some lookup ∧
      lookup.field = field ∧ lookup.foundNone service) ∧
    (Conjunctive schema tree → ∀ (ρ : Type) (collection : Collection ρ),
      collection.denotes schema service tree = ∅) ∧
    (verdictOf schema service tree = .nothing → ∀ (ρ : Type) (collection : Collection ρ),
      collection.denotes schema service tree = ∅) ∧
    (verdictOf schema service tree ≠ .nothing → ∀ ρ : Type, ∃ reading : Node Span → Set ρ,
      (∀ term ∈ leaves schema tree, findsNone schema service term → reading term = ∅) ∧
        denote schema reading tree = Set.univ) := by
  rw [resolve_eq_inquire (slotsOf_of_parse hparse)] at hresolve
  obtain ⟨term, hterm, lookup, hlookup, hfield, hnone⟩ := exists_leaf_of_noResults hresolve
  have hleaf : leafVerdict schema service term = .nothing :=
    leafVerdict_eq_nothing_iff.mpr ((Option.any_eq_true _ _).mpr ⟨lookup, hlookup, hnone⟩)
  refine ⟨⟨term, hterm, lookup, hlookup, hfield, hnone⟩, fun hconjunctive ρ collection => ?_,
    fun hverdict ρ collection => denotes_eq_empty_of_verdict collection hverdict,
    fun hverdict ρ => exists_denote_eq_univ ρ hparse hverdict⟩
  have hverdict : verdictOf schema service tree = .nothing :=
    readNodes_eq_nothing tree hconjunctive (.inl rfl) (.inr ⟨term, hterm, hleaf⟩)
  exact denotes_eq_empty_of_verdict collection hverdict

set_option maxRecDepth 10000 in
theorem conjunction_denotes_none :
    let service : Service := fun _ => .ok ⟨[], 0⟩
    ∃ tree, parse "incipit:Deus* genre:gingerbread" = .ok tree ∧
      (resolve .catalogue service (flatten tree)).outcome = .error (.noResults "genre") ∧
      ∀ (ρ : Type) (collection : Collection ρ),
        collection.denotes .catalogue service tree = ∅ := by
  intro service
  have hparse : parse "incipit:Deus* genre:gingerbread" = .ok
      [.literal ⟨none, some "incipit", ⟨0, 13⟩⟩ "Deus*",
        .literal ⟨none, some "genre", ⟨14, 31⟩⟩ "gingerbread"] := by
    cbv
  refine ⟨_, hparse, by cbv, ?_⟩
  have hmeaning := noResults_denotes _ .catalogue service _ "genre" hparse (by cbv)
  exact hmeaning.2.1 ⟨.inl rfl, .inl rfl, trivial⟩

set_option maxRecDepth 10000 in
/-- There is no gingerbread genre, but there is an alternative to it. -/
theorem alternative_denotes_records :
    let service : Service := fun _ => .ok ⟨[], 0⟩
    ∃ tree, parse "Deus OR genre:gingerbread" = .ok tree ∧
      resolve .catalogue service (flatten tree) =
        ⟨[.ofQuery "type:genre AND (gingerbread)"], .error (.noResults "genre")⟩ ∧
      ∃ collection : Collection Unit, collection.denotes .catalogue service tree ≠ ∅ := by
  intro service
  have hparse : parse "Deus OR genre:gingerbread" = .ok
      [.literal ⟨none, none, ⟨0, 4⟩⟩ "Deus", .connective .or,
        .literal ⟨none, some "genre", ⟨8, 25⟩⟩ "gingerbread"] := by
    cbv
  refine ⟨_, hparse, by cbv, ⟨fun _ => Set.univ, fun _ _ => ∅⟩, ?_⟩
  have hmem : () ∈ Collection.denotes ⟨fun _ => Set.univ, fun _ _ => ∅⟩ .catalogue service
      [.literal ⟨none, none, ⟨0, 4⟩⟩ "Deus", .connective .or,
        .literal ⟨none, some "genre", ⟨8, 25⟩⟩ "gingerbread"] :=
    .inl ⟨trivial, .plain rfl trivial⟩
  exact Set.nonempty_iff_ne_empty.mp ⟨(), hmem⟩

end ChantSearch.Proofs

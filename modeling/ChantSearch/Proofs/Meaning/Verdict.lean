import ChantSearch.Proofs.Meaning.Evaluation

/-!
# Verdicts

What can be said about the meaning of a query while only some of its leaves are known to
denote nothing: that it is nothing, that it is everything, or neither. A verdict is right about
every reading of the leaves, and leaves no more open than the readings do.
-/

namespace ChantSearch.Proofs
open Query

variable {μ V : Type} {schema : Schema}

inductive Verdict where
  | nothing
  | everything
  | undecided
  deriving DecidableEq, Repr

namespace Verdict

instance : Top Verdict :=
  ⟨everything⟩

instance : Compl Verdict where
  compl
    | nothing => everything
    | everything => nothing
    | undecided => undecided

instance : Min Verdict where
  min
    | nothing, _ => nothing
    | _, nothing => nothing
    | everything, v => v
    | v, everything => v
    | undecided, undecided => undecided

instance : Max Verdict where
  max v w := (vᶜ ⊓ wᶜ)ᶜ

instance : SDiff Verdict where
  sdiff v w := v ⊓ wᶜ

/-- The value is one that the verdict leaves possible. -/
def Admits [BooleanAlgebra V] (verdict : Verdict) (value : V) : Prop :=
  (verdict = nothing → value = ⊥) ∧ (verdict = everything → value = ⊤)

section Sound

variable [BooleanAlgebra V] {v w : Verdict} {x y : V}

lemma Admits.compl (h : v.Admits x) : vᶜ.Admits xᶜ := by
  cases v with
  | nothing => exact ⟨nofun, fun _ => compl_eq_top.mpr (h.1 rfl)⟩
  | everything => exact ⟨fun _ => compl_eq_bot.mpr (h.2 rfl), nofun⟩
  | undecided => exact ⟨nofun, nofun⟩

lemma Admits.inf (h : v.Admits x) (h' : w.Admits y) : (v ⊓ w).Admits (x ⊓ y) := by
  cases v with
  | nothing => exact ⟨fun _ => by rw [h.1 rfl, bot_inf_eq], nofun⟩
  | everything =>
    rw [h.2 rfl, top_inf_eq]
    cases w <;> exact h'
  | undecided =>
    cases w with
    | nothing => exact ⟨fun _ => by rw [h'.1 rfl, inf_bot_eq], nofun⟩
    | everything => exact ⟨nofun, nofun⟩
    | undecided => exact ⟨nofun, nofun⟩

lemma Admits.sup (h : v.Admits x) (h' : w.Admits y) : (v ⊔ w).Admits (x ⊔ y) := by
  rw [← compl_compl (x ⊔ y), compl_sup]
  exact (h.compl.inf h'.compl).compl

lemma Admits.sdiff (h : v.Admits x) (h' : w.Admits y) : (v \ w).Admits (x \ y) := by
  rw [sdiff_eq]
  exact h.inf h'.compl

lemma respected_admits : Respected fun (v : Verdict) (x : V) => v.Admits x where
  top := ⟨nofun, fun _ => rfl⟩
  compl := Admits.compl
  inf := Admits.inf
  sup := Admits.sup
  sdiff := Admits.sdiff

/-- The verdict about a query is right if those about its leaves are. -/
lemma admits_denote {verdicts : Node μ → Verdict} {leaf : Node μ → V} {tree : List (Node μ)}
    (h : ∀ t ∈ leaves schema tree, (verdicts t).Admits (leaf t)) :
    (denote schema verdicts tree).Admits (denote schema leaf tree) :=
  related_denote respected_admits h

end Sound

section Exact

instance (v : Verdict) (b : Bool) : Decidable (v.Admits b) :=
  inferInstanceAs (Decidable (_ ∧ _))

variable {v w : Verdict} {b : Bool}

lemma exists_admits_compl (h : vᶜ.Admits b) : ∃ x : Bool, v.Admits x ∧ xᶜ = b := by
  refine ⟨bᶜ, ?_, compl_compl b⟩
  have hcompl := h.compl
  cases v <;> exact hcompl

lemma exists_admits_inf (h : (v ⊓ w).Admits b) :
    ∃ x y : Bool, v.Admits x ∧ w.Admits y ∧ x ⊓ y = b := by
  revert h
  cases v <;> cases w <;> cases b <;> decide

lemma exists_admits_sup (h : (v ⊔ w).Admits b) :
    ∃ x y : Bool, v.Admits x ∧ w.Admits y ∧ x ⊔ y = b := by
  obtain ⟨_, hinf, hb⟩ := exists_admits_compl h
  obtain ⟨_, _, hv, hw, rfl⟩ := exists_admits_inf hinf
  obtain ⟨x, hx, rfl⟩ := exists_admits_compl hv
  obtain ⟨y, hy, rfl⟩ := exists_admits_compl hw
  exact ⟨x, y, hx, hy, by rw [← hb, compl_inf, compl_compl, compl_compl]⟩

lemma exists_admits_sdiff (h : (v \ w).Admits b) :
    ∃ x y : Bool, v.Admits x ∧ w.Admits y ∧ x \ y = b := by
  obtain ⟨x, _, hx, hw, rfl⟩ := exists_admits_inf h
  obtain ⟨y, hy, rfl⟩ := exists_admits_compl hw
  exact ⟨x, y, hx, hy, sdiff_eq⟩

lemma exists_admits_signed (sign? : Option Sign) (h : (signed sign? v).Admits b) :
    ∃ x : Bool, v.Admits x ∧ signed sign? x = b := by
  match sign? with
  | none => exact ⟨b, h, rfl⟩
  | some .bang => exact exists_admits_compl h
  | some .plus => exact ⟨b, h, rfl⟩
  | some .minus => exact exists_admits_compl h

lemma exists_admits_joined (k? : Option Connective) (h : (joined k? v w).Admits b) :
    ∃ x y : Bool, v.Admits x ∧ w.Admits y ∧ joined k? x y = b := by
  match k? with
  | none => exact exists_admits_inf h
  | some .and => exact exists_admits_inf h
  | some .ampersands => exact exists_admits_inf h
  | some .or => exact exists_admits_sup h
  | some .pipes => exact exists_admits_sup h
  | some .not => exact exists_admits_sdiff h

/-- The verdicts admit the readings of the leaves. -/
def Allows (verdicts : Node μ → Verdict) (reading : Node μ → Bool) (ts : List (Node μ)) : Prop :=
  ∀ t ∈ ts, (verdicts t).Admits (reading t)

lemma Allows.append {verdicts : Node μ → Verdict} {reading other : Node μ → Bool}
    {ts us : List (Node μ)} (hts : Allows verdicts reading ts) (hus : Allows verdicts other us)
    (hdisjoint : ts.Disjoint us) :
    ∃ both, Allows verdicts both (ts ++ us) ∧ (∀ t ∈ ts, both t = reading t) ∧
      ∀ t ∈ us, both t = other t := by
  obtain ⟨both, hfirst, hsecond⟩ : ∃ both : Node μ → Bool,
      (∀ t ∈ ts, both t = reading t) ∧ ∀ t ∈ us, both t = other t := by
    classical
    exact ⟨fun t => if t ∈ ts then reading t else other t, fun t ht => if_pos ht,
      fun t ht => if_neg fun hmem => hdisjoint hmem ht⟩
  refine ⟨both, fun t ht => ?_, hfirst, hsecond⟩
  rcases List.mem_append.mp ht with ht | ht
  · rw [hfirst t ht]
    exact hts t ht
  · rw [hsecond t ht]
    exact hus t ht

lemma exists_reading_term {front : Front Verdict} {sign? : Option Sign} {verdict : Verdict}
    (h : (front.term sign? verdict).value.Admits b) :
    ∃ x y : Bool, front.value.Admits x ∧ verdict.Admits y ∧
      Front.term ⟨x, front.connective?⟩ sign? y = ⟨b, none⟩ := by
  obtain ⟨x, _, hx, hsigned, rfl⟩ := exists_admits_joined _ h
  obtain ⟨y, hy, rfl⟩ := exists_admits_signed _ hsigned
  exact ⟨x, y, hx, hy, rfl⟩

variable {verdicts : Node μ → Verdict}

mutual

lemma exists_reading_node : ∀ (node : Node μ) {front : Front Verdict} {b : Bool},
    (nodeLeaves schema node).Nodup → (readNode schema verdicts front node).value.Admits b →
      ∃ x reading, front.value.Admits x ∧ Allows verdicts reading (nodeLeaves schema node) ∧
        readNode schema reading ⟨x, front.connective?⟩ node =
          ⟨b, (readNode schema verdicts front node).connective?⟩
  | .connective k, _, b, _, h => ⟨b, fun _ => b, h, by simp [Allows, nodeLeaves], rfl⟩
  | .literal head text, _, _, _, h => by
    obtain ⟨x, y, hx, hy, hterm⟩ := exists_reading_term h
    exact ⟨x, fun _ => y, hx, by simpa [Allows, nodeLeaves] using hy, hterm⟩
  | .group head members, _, _, hnodup, h => by
    cases href : crossRefOf schema head with
    | some found =>
      rw [readNode_lookedUp href] at h ⊢
      obtain ⟨x, y, hx, hy, hterm⟩ := exists_reading_term h
      refine ⟨x, fun _ => y, hx, ?_, ?_⟩
      · simpa [Allows, nodeLeaves_lookedUp href] using hy
      · rw [readNode_lookedUp href]
        exact hterm
    | none =>
      rw [readNode_group href] at h ⊢
      rw [nodeLeaves_group href] at hnodup ⊢
      obtain ⟨x, y, hx, hy, hterm⟩ := exists_reading_term h
      obtain ⟨z, reading, hz, hallows, hread⟩ := exists_reading_nodes members hnodup hy
      obtain rfl : z = ⊤ := hz.2 rfl
      have hmembers : denote schema reading members = y := congrArg Front.value hread
      refine ⟨x, reading, hx, hallows, ?_⟩
      rw [readNode_group href, hmembers]
      exact hterm

/-- A possible value of what is read comes of a possible reading of the leaves. -/
lemma exists_reading_nodes : ∀ (nodes : List (Node μ)) {front : Front Verdict} {b : Bool},
    (leaves schema nodes).Nodup → (readNodes schema verdicts front nodes).value.Admits b →
      ∃ x reading, front.value.Admits x ∧ Allows verdicts reading (leaves schema nodes) ∧
        readNodes schema reading ⟨x, front.connective?⟩ nodes =
          ⟨b, (readNodes schema verdicts front nodes).connective?⟩
  | [], _, b, _, h => ⟨b, fun _ => b, h, by simp [Allows, leaves], rfl⟩
  | node :: nodes, front, b, hnodup, h => by
    -- What is behind the node tells which value the node must give. The two share no leaf, so a
    -- reading for the one and a reading for the other make one reading.
    obtain ⟨hnode, hnodes, hdisjoint⟩ := List.nodup_append'.mp hnodup
    obtain ⟨y, other, hy, hother, hrest⟩ := exists_reading_nodes nodes hnodes h
    obtain ⟨x, reading, hx, hreading, hread⟩ := exists_reading_node node hnode hy
    obtain ⟨both, hboth, hfirst, hsecond⟩ := hreading.append hother hdisjoint
    refine ⟨x, both, hx, hboth, ?_⟩
    rw [readNodes, readNode_congr _ hfirst, hread, readNodes_congr _ hsecond]
    exact hrest

end

/-- A query whose verdict is not that it denotes nothing denotes everything in some reading. -/
lemma exists_denote_eq_true {tree : List (Node μ)} (hnodup : (leaves schema tree).Nodup)
    (h : denote schema verdicts tree ≠ nothing) :
    ∃ reading, Allows verdicts reading (leaves schema tree) ∧
      denote schema reading tree = true := by
  have hadmits : (denote schema verdicts tree).Admits true :=
    ⟨fun h' => absurd h' h, fun _ => rfl⟩
  obtain ⟨x, reading, hx, hallows, hread⟩ := exists_reading_nodes tree hnodup hadmits
  obtain rfl : x = ⊤ := hx.2 rfl
  exact ⟨reading, hallows, congrArg Front.value hread⟩

end Exact

end Verdict

end ChantSearch.Proofs

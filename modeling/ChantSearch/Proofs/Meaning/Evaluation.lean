import ChantSearch.Proofs.Resolution.TreeResolver

/-!
# What a query denotes

A query denotes a set of records. Its terms are read from left to right: each connective joins
what is in front of it with the one term behind it, and none binds stronger than another. The
same reading serves values other than sets, such as verdicts about them.
-/

namespace ChantSearch.Proofs
open Query

variable {μ V W : Type} {schema : Schema}

section Reading

variable [Top V] [Compl V] [Min V] [Max V] [SDiff V]

def signed : Option Sign → V → V
  | some .bang, v => vᶜ
  | some .minus, v => vᶜ
  | some .plus, v => v
  | none, v => v

def joined : Option Connective → V → V → V
  | some .or, v, w => v ⊔ w
  | some .pipes, v, w => v ⊔ w
  | some .not, v, w => v \ w
  | some .and, v, w => v ⊓ w
  | some .ampersands, v, w => v ⊓ w
  | none, v, w => v ⊓ w

/-- What the terms at the front of a list denote, and the connective behind them, if any. -/
@[ext]
structure Front (V : Type) where
  value : V
  connective? : Option Connective

namespace Front

def start : Front V :=
  ⟨⊤, none⟩

def term (front : Front V) (sign? : Option Sign) (v : V) : Front V :=
  ⟨joined front.connective? front.value (signed sign? v), none⟩

end Front

mutual

/-- Reads one more member of a list. The values of literals and of groups that are looked up as a
whole, both apart from their signs, are given. -/
def readNode (schema : Schema) (leaf : Node μ → V) (front : Front V) : Node μ → Front V
  | .connective k => { front with connective? := some k }
  | .literal head text => front.term head.sign? (leaf (.literal head text))
  | .group head members =>
    front.term head.sign? <|
      match crossRefOf schema head with
      | some _ => leaf (.group head members)
      | none => (readNodes schema leaf .start members).value

def readNodes (schema : Schema) (leaf : Node μ → V) (front : Front V) : List (Node μ) → Front V
  | [] => front
  | node :: nodes => readNodes schema leaf (readNode schema leaf front node) nodes

end

def denote (schema : Schema) (leaf : Node μ → V) (tree : List (Node μ)) : V :=
  (readNodes schema leaf .start tree).value

lemma readNode_lookedUp {head : Head μ} {found : String × CrossRef}
    (h : crossRefOf schema head = some found) (leaf : Node μ → V) (front : Front V)
    (members : List (Node μ)) :
    readNode schema leaf front (.group head members) =
      front.term head.sign? (leaf (.group head members)) := by
  rw [readNode, h]

lemma readNode_group {head : Head μ} (h : crossRefOf schema head = none) (leaf : Node μ → V)
    (front : Front V) (members : List (Node μ)) :
    readNode schema leaf front (.group head members) =
      front.term head.sign? (denote schema leaf members) := by
  rw [readNode, h]
  rfl

end Reading

mutual

/-- The literals and the groups that are looked up as a whole. -/
def nodeLeaves (schema : Schema) : Node μ → List (Node μ)
  | .connective _ => []
  | .literal head text => [.literal head text]
  | .group head members =>
    match crossRefOf schema head with
    | some _ => [.group head members]
    | none => leaves schema members

def leaves (schema : Schema) : List (Node μ) → List (Node μ)
  | [] => []
  | node :: nodes => nodeLeaves schema node ++ leaves schema nodes

end

lemma nodeLeaves_lookedUp {head : Head μ} {found : String × CrossRef}
    (h : crossRefOf schema head = some found) (members : List (Node μ)) :
    nodeLeaves schema (.group head members) = [.group head members] := by
  rw [nodeLeaves, h]

lemma nodeLeaves_group {head : Head μ} (h : crossRefOf schema head = none)
    (members : List (Node μ)) :
    nodeLeaves schema (.group head members) = leaves schema members := by
  rw [nodeLeaves, h]

section Related

variable [Top V] [Compl V] [Min V] [Max V] [SDiff V] [Top W] [Compl W] [Min W] [Max W] [SDiff W]

/-- The relation is kept by all that signs and connectives do. -/
structure Respected (R : V → W → Prop) : Prop where
  top : R ⊤ ⊤
  compl {v : V} {w : W} : R v w → R vᶜ wᶜ
  inf {v v' : V} {w w' : W} : R v w → R v' w' → R (v ⊓ v') (w ⊓ w')
  sup {v v' : V} {w w' : W} : R v w → R v' w' → R (v ⊔ v') (w ⊔ w')
  sdiff {v v' : V} {w w' : W} : R v w → R v' w' → R (v \ v') (w \ w')

variable {R : V → W → Prop}

lemma related_signed (hR : Respected R) {v : V} {w : W} (sign? : Option Sign) (h : R v w) :
    R (signed sign? v) (signed sign? w) := by
  match sign? with
  | none => exact h
  | some .bang => exact hR.compl h
  | some .plus => exact h
  | some .minus => exact hR.compl h

lemma related_joined (hR : Respected R) {v v' : V} {w w' : W} (k? : Option Connective)
    (h : R v w) (h' : R v' w') : R (joined k? v v') (joined k? w w') := by
  match k? with
  | none => exact hR.inf h h'
  | some .and => exact hR.inf h h'
  | some .ampersands => exact hR.inf h h'
  | some .or => exact hR.sup h h'
  | some .pipes => exact hR.sup h h'
  | some .not => exact hR.sdiff h h'

/-- The fronts end in the same connective, and their values are related. -/
structure Front.Related (R : V → W → Prop) (front : Front V) (front' : Front W) : Prop where
  value : R front.value front'.value
  connective? : front.connective? = front'.connective?

lemma related_term (hR : Respected R) {front : Front V} {front' : Front W} {v : V} {w : W}
    (sign? : Option Sign) (h : front.Related R front') (hv : R v w) :
    (front.term sign? v).Related R (front'.term sign? w) := by
  refine ⟨?_, rfl⟩
  rw [Front.term, Front.term, h.connective?]
  exact related_joined hR _ h.value (related_signed hR sign? hv)

variable {leaf : Node μ → V} {leaf' : Node μ → W}

mutual

lemma related_readNode (hR : Respected R) : ∀ (node : Node μ) {front : Front V}
    {front' : Front W}, front.Related R front' →
      (∀ t ∈ nodeLeaves schema node, R (leaf t) (leaf' t)) →
        (readNode schema leaf front node).Related R (readNode schema leaf' front' node)
  | .connective k, _, _, hfront, _ => ⟨hfront.value, rfl⟩
  | .literal head text, _, _, hfront, h =>
    related_term hR head.sign? hfront (h _ (by simp [nodeLeaves]))
  | .group head members, _, _, hfront, h => by
    cases href : crossRefOf schema head with
    | some found =>
      rw [readNode_lookedUp href, readNode_lookedUp href]
      rw [nodeLeaves_lookedUp href, List.forall_mem_singleton] at h
      exact related_term hR head.sign? hfront h
    | none =>
      rw [readNode_group href, readNode_group href]
      rw [nodeLeaves_group href] at h
      have hstart : (Front.start (V := V)).Related R Front.start := ⟨hR.top, rfl⟩
      exact related_term hR head.sign? hfront (related_readNodes hR members hstart h).value

/-- Readings are related if those of the leaves are. -/
lemma related_readNodes (hR : Respected R) : ∀ (nodes : List (Node μ)) {front : Front V}
    {front' : Front W}, front.Related R front' →
      (∀ t ∈ leaves schema nodes, R (leaf t) (leaf' t)) →
        (readNodes schema leaf front nodes).Related R (readNodes schema leaf' front' nodes)
  | [], _, _, hfront, _ => hfront
  | node :: nodes, _, _, hfront, h => by
    rw [leaves, List.forall_mem_append] at h
    exact related_readNodes hR nodes (related_readNode hR node hfront h.1) h.2

end

lemma related_denote (hR : Respected R) {tree : List (Node μ)}
    (h : ∀ t ∈ leaves schema tree, R (leaf t) (leaf' t)) :
    R (denote schema leaf tree) (denote schema leaf' tree) :=
  (related_readNodes hR tree ⟨hR.top, rfl⟩ h).value

lemma respected_eq : Respected fun v w : V => v = w := by
  constructor
  · rfl
  all_goals
    intros
    subst_vars
    rfl

/-- What is read does not depend on the values of other leaves. -/
lemma readNode_congr {leaf leaf' : Node μ → V} {node : Node μ} (front : Front V)
    (h : ∀ t ∈ nodeLeaves schema node, leaf t = leaf' t) :
    readNode schema leaf front node = readNode schema leaf' front node :=
  have hrelated := related_readNode respected_eq node ⟨rfl, rfl⟩ h
  Front.ext hrelated.value hrelated.connective?

lemma readNodes_congr {leaf leaf' : Node μ → V} {nodes : List (Node μ)} (front : Front V)
    (h : ∀ t ∈ leaves schema nodes, leaf t = leaf' t) :
    readNodes schema leaf front nodes = readNodes schema leaf' front nodes :=
  have hrelated := related_readNodes respected_eq nodes ⟨rfl, rfl⟩ h
  Front.ext hrelated.value hrelated.connective?

end Related

end ChantSearch.Proofs

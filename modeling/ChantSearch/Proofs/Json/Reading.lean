import ChantSearch.Json.Reader
import ChantSearch.Proofs.Json.Members

/-!
# Values that are read

Whatever is read from a text is canonical: its integers are of 64 bits, and its objects hold each of
their names once. This is told of every part of the reader for any bytes that it is given.
-/

namespace ChantSearch.Proofs
open Json

/-- Integers from -2^63 to 2^64 - 1, and the members of objects in the order of their names. -/
inductive Canonical : Value → Prop
  | null : Canonical .null
  | bool (b : Bool) : Canonical (.bool b)
  | integer {n : Int} (hrange : -2 ^ 63 ≤ n ∧ n < 2 ^ 64) : Canonical (.number (.integer n))
  | real (x : Numeric.Binary64) : Canonical (.number (.real x))
  | text (s : String) : Canonical (.text s)
  | array {items : List Value} (hitems : ∀ item ∈ items, Canonical item) : Canonical (.array items)
  | object {members : List (String × Value)} (hnames : SortedNames members)
      (hmembers : ∀ name value, (name, value) ∈ members → Canonical value) :
      Canonical (.object members)

/-- Whatever the reader reads has the property. -/
def Gives {α : Type} (reader : Reader α) (P : α → Prop) : Prop :=
  ∀ limit input a rest, reader limit input = some (a, rest) → P a

variable {α β σ : Type} {P : α → Prop} {Q : β → Prop} {I : σ → Prop}

lemma gives_any (reader : Reader α) : Gives reader fun _ => True :=
  fun _ _ _ _ _ => trivial

lemma gives_failure : Gives (failure : Reader α) P :=
  fun _ _ _ _ h => nomatch h

lemma gives_pure {a : α} (h : P a) : Gives (pure a : Reader α) P := by
  rintro _ _ _ _ ⟨⟩
  exact h

lemma Gives.bind {reader : Reader α} {rest : α → Reader β} (h : Gives reader P)
    (hrest : ∀ a, P a → Gives (rest a) Q) : Gives (reader >>= rest) Q := by
  intro limit input b behind hread
  obtain ⟨⟨a, middle⟩, hfirst, hsecond⟩ := Option.bind_eq_some_iff.mp hread
  exact hrest a (h limit input a middle hfirst) limit middle b behind hsecond

lemma Gives.behind {reader : Reader α} {rest : α → Reader β} (hrest : ∀ a, Gives (rest a) Q) :
    Gives (reader >>= rest) Q :=
  (gives_any reader).bind fun a _ => hrest a

/-- What every item keeps of the values gathered so far, the sequence keeps. -/
lemma gives_continued {close : UInt8} {item : σ → Reader σ} (hitem : ∀ s, I s → Gives (item s) I)
    (fuel : Nat) {s : σ} (hs : I s) : Gives (Reader.continued close item fuel s) I := by
  induction fuel generalizing s with
  | zero => exact gives_failure
  | succ fuel ih =>
    rw [Reader.continued]
    -- The closing byte and the comma leave what is gathered as it is.
    refine .behind fun closed => ?_
    split
    · exact gives_pure hs
    · exact .behind fun _ => (hitem s hs).bind fun s' hs' => ih hs'

lemma gives_sequence {close : UInt8} {item : σ → Reader σ} (hitem : ∀ s, I s → Gives (item s) I)
    {start : σ} (hstart : I start) : Gives (Reader.sequence close item start) I := by
  rw [Reader.sequence]
  refine .behind fun closed => ?_
  split
  · exact gives_pure hstart
  · exact (hitem start hstart).bind fun s hs => .behind fun fuel => gives_continued hitem fuel hs

lemma gives_items {item : Reader α} (hitem : Gives item P) :
    Gives (Reader.items item) fun read => ∀ a ∈ read, P a := by
  refine (gives_sequence (I := fun read => ∀ a ∈ read, P a) (fun read hread => ?_) ?_).bind
    fun read hread => gives_pure ?_
  · exact hitem.bind fun a ha => gives_pure (List.forall_mem_cons.mpr ⟨ha, hread⟩)
  · simp
  · simpa using hread

lemma gives_members {value : Reader α} (hvalue : Gives value P) :
    Gives (Reader.members value) fun read =>
      SortedNames read ∧ ∀ name a, (name, a) ∈ read → P a := by
  refine gives_sequence (fun read ⟨hnames, hread⟩ => ?_) ⟨.nil, by simp⟩
  refine .behind fun name => hvalue.bind fun a ha => gives_pure ⟨hnames.insertMember name a, ?_⟩
  intro other b hb
  rcases eq_or_mem_of_mem_insertMember hb with ⟨rfl, rfl⟩ | hb
  · exact ha
  · exact hread other b hb

lemma toInteger?_range {numeral : Numeral} {n : Int} (h : numeral.toInteger? = some n) :
    -2 ^ 63 ≤ n ∧ n < 2 ^ 64 := by
  simp only [Numeral.toInteger?, Numeral.maxSignificand, Nat.pow_eq, Option.ite_none_left_eq_some]
    at h
  obtain ⟨_, h⟩ := h
  split at h
  · obtain ⟨hrange, h⟩ := Option.ite_none_right_eq_some.mp h
    have hn := Option.some.inj h
    omega
  · obtain ⟨hrange, h⟩ := Option.ite_none_right_eq_some.mp h
    have hn := Option.some.inj h
    omega

lemma number?_range {numeral : Numeral} {n : Int} (h : numeral.number? = some (.integer n)) :
    -2 ^ 63 ≤ n ∧ n < 2 ^ 64 := by
  rw [Numeral.number?] at h
  split at h
  · next m hm =>
    cases h
    exact toInteger?_range hm
  · obtain ⟨x, _, hx⟩ := Option.map_eq_some_iff.mp h
    cases hx

lemma gives_number : Gives Reader.number fun n => Canonical (.number n) := by
  refine .behind fun numeral => ?_
  split
  · next n hn =>
    refine gives_pure ?_
    cases n with
    | integer n => exact .integer (number?_range hn)
    | real x => exact .real x
  · exact gives_failure

lemma gives_valueWith {array object : Reader Value} (harray : Gives array Canonical)
    (hobject : Gives object Canonical) : Gives (Reader.valueWith array object) Canonical := by
  refine .behind fun b => ?_
  split
  · exact .behind fun _ => gives_pure .null
  · exact .behind fun _ => gives_pure (.bool true)
  · exact .behind fun _ => gives_pure (.bool false)
  · exact .behind fun s => gives_pure (.text s)
  · exact .behind fun _ => harray
  · exact .behind fun _ => hobject
  · exact gives_number.bind fun n hn => gives_pure hn

lemma gives_value (depth : Nat) : Gives (Reader.value depth) Canonical := by
  induction depth with
  | zero => exact gives_valueWith gives_failure gives_failure
  | succ depth ih =>
    apply gives_valueWith
    · exact (gives_items ih).bind fun items hitems => gives_pure (.array hitems)
    · exact (gives_members ih).bind fun members ⟨hnames, hmembers⟩ =>
        gives_pure (.object hnames hmembers)

/-- A value that is read from a text is canonical. -/
lemma canonical_of_parse {text : String} {value : Value} (h : Json.parse text = some value) :
    Canonical value := by
  rw [Json.parse, Json.parseBytes, Reader.run?] at h
  split at h
  · next read rest hread =>
    obtain ⟨_, hvalue⟩ := Option.ite_none_right_eq_some.mp h
    exact Option.some.inj hvalue ▸ gives_value _ _ _ _ _ hread
  · cases h

end ChantSearch.Proofs

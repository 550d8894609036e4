import ChantSearch.Proofs.Grammar.Derivation

/-!
# Combinators read exactly

The primitive parsers succeed where their word stands, and end behind it. Sequences, choices
and lookaheads are reduced to their parts. Parsers whose results are written in different ways
exclude each other, so the order of a choice among them makes no difference.
-/

namespace ChantSearch.Proofs
open Query Query.Parser

variable {α β : Type} {c d : Cursor}

lemma characters_eq_some_iff {cs : List Char} {u : Unit} :
    (characters cs c).result = some (u, d) ↔ Reads c cs d := by
  unfold characters
  constructor
  · intro h
    split at h
    · rename_i hpre
      obtain ⟨rest, hrest⟩ := List.isPrefixOf_iff_prefix.mp hpre
      simp only [← hrest, List.drop_left, Option.some.injEq, Prod.mk.injEq, true_and] at h
      subst h
      exact reads_past hrest.symm
    · exact absurd h (by simp)
  · intro h
    have hpre : cs.isPrefixOf c.rest = true :=
      List.isPrefixOf_iff_prefix.mpr ⟨d.rest, h.rest.symm⟩
    rw [if_pos hpre]
    simp only [h.rest, List.drop_left]
    rw [← h.eq_past]

lemma satisfying_eq_some_iff {accept : Char → Bool} {x : Char} :
    (satisfying accept c).result = some (x, d) ↔ accept x = true ∧ Reads c [x] d := by
  unfold Parser.satisfying
  constructor
  · intro h
    split at h
    · exact absurd h (by simp)
    · rename_i y rest hrest
      split at h
      · simp only [Option.some.injEq, Prod.mk.injEq] at h
        obtain ⟨rfl, rfl⟩ := h
        exact ⟨by assumption, reads_past hrest⟩
      · exact absurd h (by simp)
  · rintro ⟨hx, hread⟩
    have hrest : c.rest = x :: d.rest := hread.rest
    simp only [hrest, hx, if_true]
    rw [← hread.eq_past]

lemma satisfying_eq_none_iff {accept : Char → Bool} :
    (satisfying accept c).result = none ↔ Stops accept c.rest := by
  unfold Parser.satisfying
  split
  · rename_i hrest
    simp [hrest, stops_nil]
  · rename_i x rest hrest
    rw [hrest, stops_cons]
    split <;> simp_all

lemma scanned_eq_some_iff {scan : List Char → Option (List Char × List Char)} {r : Rule}
    {Word Ends : List Char → Prop} {s : String}
    (hscan : ∀ {cs word rest}, scan cs = some (word, rest) ↔
      Word word ∧ cs = word ++ rest ∧ Ends rest) :
    (rule r (scanned scan) c).result = some (s, d) ↔
      ∃ word, s = String.ofList word ∧ Word word ∧ Reads c word d ∧ Ends d.rest := by
  rw [result_rule]
  unfold scanned
  constructor
  · intro h
    split at h
    · exact absurd h (by simp)
    · rename_i word rest heq
      obtain ⟨hword, hrest, hend⟩ := hscan.mp heq
      simp only [Option.some.injEq, Prod.mk.injEq] at h
      obtain ⟨rfl, rfl⟩ := h
      exact ⟨word, rfl, hword, reads_past hrest, hend⟩
  · rintro ⟨word, rfl, hword, hread, hend⟩
    simp only [hscan.mpr ⟨hword, hread.rest, hend⟩]
    rw [← hread.eq_past]

lemma scanned_eq_none_iff {scan : List Char → Option (List Char × List Char)} :
    (scanned scan c).result = none ↔ scan c.rest = none := by
  unfold scanned
  split <;> simp_all

lemma atEnd_eq_some_iff {u : Unit} :
    (atEnd c).result = some (u, d) ↔ c = d ∧ c.rest = [] := by
  unfold atEnd
  cases h : c.rest <;> simp

lemma blanks_eq_some_iff {u : Unit} :
    (blanks c).result = some (u, d) ↔ Blanks c d ∧ Stops isBlank d.rest := by
  unfold blanks
  rw [result_skipping]
  constructor
  · intro h
    simp only [Option.some.injEq, Prod.mk.injEq, true_and] at h
    subst h
    exact ⟨⟨_, fun x hx => List.mem_takeWhile_imp hx,
      reads_past (List.takeWhile_append_dropWhile).symm⟩, stops_dropWhile _ _⟩
  · rintro ⟨⟨word, hword, hread⟩, hstop⟩
    obtain ⟨htake, hdrop⟩ := span_run hword hstop
    rw [hread.rest, htake, hdrop, ← hread.eq_past]

lemma offset_eq_some_iff {n : Nat} :
    (offset c).result = some (n, d) ↔ c.offset = n ∧ c = d := by
  simp

lemma bind_eq_some_iff {p : Parser α} {f : α → Parser β} {b : β} :
    ((p >>= f) c).result = some (b, d) ↔
      ∃ a e, (p c).result = some (a, e) ∧ (f a e).result = some (b, d) := by
  rw [result_bind, Option.bind_eq_some_iff, Prod.exists]

lemma bind_pure_eq_some_iff {p : Parser α} {f : α → β} {b : β} :
    ((p >>= fun a => pure (f a)) c).result = some (b, d) ↔
      ∃ a, (p c).result = some (a, d) ∧ f a = b := by
  simp only [bind_eq_some_iff, result_pure, Option.some.injEq, Prod.mk.injEq]
  constructor
  · rintro ⟨a, e, h, hf, rfl⟩
    exact ⟨a, h, hf⟩
  · rintro ⟨a, h, hf⟩
    exact ⟨a, d, h, hf, rfl⟩

lemma bind_pure_eq_none_iff {p : Parser α} {f : α → β} :
    ((p >>= fun a => pure (f a)) c).result = none ↔ (p c).result = none := by
  rw [result_bind]
  cases (p c).result <;> simp

lemma absent_eq_some_iff {p : Parser α} {u : Unit} :
    (absent p c).result = some (u, d) ↔ (p c).result = none ∧ c = d := by
  rw [result_absent]
  cases (p c).result <;> simp

lemma bind_of_none {p : Parser α} {f : α → Parser β} (h : (p c).result = none) :
    (p >>= f) c = ⟨none, (p c).trace⟩ := by
  change Parser.bind p f c = _
  unfold Parser.bind
  split <;> simp_all

lemma bind_of_some {p : Parser α} {f : α → Parser β} {a : α} (h : (p c).result = some (a, d)) :
    (p >>= f) c = ⟨(f a d).result, (p c).trace ++ (f a d).trace⟩ := by
  change Parser.bind p f c = _
  unfold Parser.bind
  split <;> simp_all

lemma trace_bind (p : Parser α) (f : α → Parser β) (c : Cursor) :
    ∃ others, ((p >>= f) c).trace = (p c).trace ++ others := by
  cases h : (p c).result with
  | none => exact ⟨[], by rw [bind_of_none h, List.append_nil]⟩
  | some found => exact ⟨_, by rw [bind_of_some h]⟩

lemma trace_characters (cs : List Char) (c : Cursor) : (characters cs c).trace = [] := by
  unfold characters
  split <;> rfl

lemma trace_satisfying (accept : Char → Bool) (c : Cursor) :
    (satisfying accept c).trace = [] := by
  unfold Parser.satisfying
  split
  · rfl
  · split <;> rfl

lemma trace_scanned (scan : List Char → Option (List Char × List Char)) (c : Cursor) :
    (scanned scan c).trace = [] := by
  unfold scanned
  split <;> rfl

lemma orElse_cases {p q : Parser α} {r : α × Cursor}
    (h : (orElse p q c).result = some r) : (p c).result = some r ∨ (q c).result = some r := by
  rw [result_orElse, Option.or_eq_some_iff] at h
  rcases h with h | ⟨_, h⟩
  · exact .inl h
  · exact .inr h

lemma optional_eq_some_iff {p : Parser α} {a? : Option α} :
    (Parser.optional p c).result = some (a?, d) ↔
      (∃ a, a? = some a ∧ (p c).result = some (a, d)) ∨
        a? = none ∧ c = d ∧ (p c).result = none := by
  rw [Parser.optional, result_orElse, Option.or_eq_some_iff, bind_pure_eq_some_iff,
    bind_pure_eq_none_iff, result_pure]
  simp only [Option.some.injEq, Prod.mk.injEq]
  constructor
  · rintro (⟨a, h, rfl⟩ | ⟨hnone, rfl, rfl⟩)
    · exact .inl ⟨a, rfl, h⟩
    · exact .inr ⟨rfl, rfl, hnone⟩
  · rintro (⟨a, rfl, h⟩ | ⟨rfl, rfl, hnone⟩)
    · exact .inl ⟨a, h, rfl⟩
    · exact .inr ⟨hnone, rfl, rfl⟩

lemma orElse_of_none {p q : Parser α} (h : (p c).result = none) :
    orElse p q c = ⟨(q c).result, (p c).trace ++ (q c).trace⟩ := by
  unfold Parser.orElse
  rcases hp : p c with ⟨result, trace⟩
  rw [hp] at h
  subst h
  rfl

lemma orElse_of_some {p q : Parser α} {r : α × Cursor} (h : (p c).result = some r) :
    orElse p q c = p c := by
  unfold Parser.orElse
  rcases hp : p c with ⟨result, trace⟩
  rw [hp] at h
  subst h
  rfl

/-- No two values are written in ways of which both may stand at one place. -/
def Exclusive (write : α → String) : Prop :=
  ∀ ⦃a b : α⦄ ⦃c d e : Cursor⦄, Reads c (write a).toList d → Reads c (write b).toList e → a = b

/-- The parser reads its result as it is written. -/
def Spells (write : α → String) (p : Parser α) : Prop :=
  ∀ ⦃a : α⦄ ⦃c d : Cursor⦄, (p c).result = some (a, d) → Reads c (write a).toList d

lemma Spells.orElse {write : α → String} {p q : Parser α} (hp : Spells write p)
    (hq : Spells write q) : Spells write (orElse p q) := by
  intro a c d h
  rcases orElse_cases h with h | h
  · exact hp h
  · exact hq h

lemma Exclusive.orElse_eq_some_iff {write : α → String} (hwrite : Exclusive write)
    {p q : Parser α} (hp : Spells write p) (hq : Spells write q) {a : α} :
    (orElse p q c).result = some (a, d) ↔
      (p c).result = some (a, d) ∨ (q c).result = some (a, d) := by
  refine ⟨orElse_cases, fun h => ?_⟩
  rw [result_orElse, Option.or_eq_some_iff]
  rcases h with h | h
  · exact .inl h
  · cases hfirst : (p c).result with
    | none => exact .inr ⟨rfl, h⟩
    | some found =>
      obtain ⟨b, e⟩ := found
      obtain rfl := hwrite (hp hfirst) (hq h)
      rw [(hp hfirst).unique (hq h)]
      exact .inl rfl

lemma many_of_none {p : Parser α} (h : (p c).result = none) (limit : Nat) :
    many (limit + 1) p c = ⟨some ([], c), (p c).trace⟩ := by
  simp only [Parser.many]
  rcases hp : p c with ⟨result, trace⟩
  rw [hp] at h
  subst h
  rfl

lemma many_of_some {p : Parser α} {a : α} (h : (p c).result = some (a, d)) (limit : Nat) :
    many (limit + 1) p c = ⟨(many limit p d).result.map fun (as, stop) => (a :: as, stop),
      (p c).trace ++ (many limit p d).trace⟩ := by
  simp only [Parser.many]
  rcases hp : p c with ⟨result, trace⟩
  rw [hp] at h
  subst h
  rfl

lemma many_succeeds (p : Parser α) (limit : Nat) (c : Cursor) :
    ∃ as d, (many limit p c).result = some (as, d) := by
  induction limit generalizing c with
  | zero => exact ⟨[], c, result_many_zero ..⟩
  | succ limit ih =>
    cases h : (p c).result with
    | none => exact ⟨[], c, by rw [many_of_none h]⟩
    | some found =>
      obtain ⟨a, d⟩ := found
      obtain ⟨as, e, hothers⟩ := ih d
      exact ⟨a :: as, e, by rw [many_of_some h, hothers]; rfl⟩

lemma many_succ_cases {p : Parser α} {limit : Nat} {as : List α}
    (h : (many (limit + 1) p c).result = some (as, d)) :
    as = [] ∧ c = d ∨ ∃ a e others, (p c).result = some (a, e) ∧
      (many limit p e).result = some (others, d) ∧ as = a :: others := by
  cases hfirst : (p c).result with
  | none =>
    rw [many_of_none hfirst] at h
    obtain ⟨rfl, rfl⟩ := Prod.mk.inj (Option.some.inj h)
    exact .inl ⟨rfl, rfl⟩
  | some found =>
    obtain ⟨a, e⟩ := found
    rw [many_of_some hfirst] at h
    obtain ⟨⟨others, stop⟩, hothers, heq⟩ := Option.map_eq_some_iff.mp h
    obtain ⟨rfl, rfl⟩ := Prod.mk.inj heq
    exact .inr ⟨a, e, others, rfl, hothers, rfl⟩

/-- What a parser leads on from one cursor to the next, its repetition leads on as well. -/
lemma many_preserves {P : Cursor → Prop} {p : Parser α}
    (hp : ∀ c a d, P c → (p c).result = some (a, d) → P d) {limit : Nat} {as : List α}
    (hc : P c) (h : (many limit p c).result = some (as, d)) : P d := by
  induction limit generalizing c as with
  | zero =>
    obtain ⟨_, rfl⟩ := Prod.mk.inj (Option.some.inj h)
    exact hc
  | succ limit ih =>
    rcases many_succ_cases h with ⟨_, rfl⟩ | ⟨a, e, others, hfirst, hothers, _⟩
    · exact hc
    · exact ih (hp c a e hc hfirst) hothers

end ChantSearch.Proofs

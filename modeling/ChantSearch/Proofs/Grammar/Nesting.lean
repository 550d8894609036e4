import ChantSearch.Proofs.Grammar.Derivation
import ChantSearch.Query.Parse

/-!
# The depth guard on derivable texts

The guard counts parentheses in the text and knows nothing of the grammar. On a text with a
derivation its count is the number of groups around the place it has come to: it passes over a
phrase unless the groups of the phrase nest too deep, and then it refuses.
-/

namespace ChantSearch.Proofs
open Query

variable {c d e f : Cursor} {k m n : Nat}

def phraseDepth : Phrase → Nat
  | .value (.literal _) => 0
  | .value (.group members) => Node.depthList members + 1
  | .field _ (.literal _) => 0
  | .field _ (.group members) => Node.depthList members + 1
  | .term node => node.depth
  | .further nodes | .termList nodes => Node.depthList nodes
  | .group members => Node.depthList members + 1

lemma phraseDepth_field (name? : Option String) (v : Value) :
    phraseDepth (.field name? v) = phraseDepth (.value v) := by
  cases v <;> rfl

lemma phraseDepth_term (head : Head Span) (v : Value) :
    phraseDepth (.term (v.toNode head)) = phraseDepth (.value v) := by
  cases v <;> simp [phraseDepth, Value.toNode, Node.depth]

lemma depthList_append {μ : Type} (ts us : List (Node μ)) :
    Node.depthList (ts ++ us) = max (Node.depthList ts) (Node.depthList us) := by
  induction ts with
  | nil => simp [Node.depthList]
  | cons t ts ih => simp [Node.depthList, ih, max_assoc]

lemma depthList_connective {μ : Type} (k? : Option Connective) :
    Node.depthList (k?.toList.map (Node.connective (μ := μ))) = 0 := by
  cases k? <;> simp [Node.depthList, Node.depth]

/-- With `k` groups open the guard passes over what stands between the cursors, unless that
nests further groups too deep. -/
structure Scan (k : Nat) (c : Cursor) (depth : Nat) (d : Cursor) : Prop where
  passes : k + depth ≤ maxDepth →
    tooDeepFrom false k c.offset c.rest = tooDeepFrom false k d.offset d.rest
  refuses : maxDepth < k + depth → (tooDeepFrom false k c.offset c.rest).isSome = true

lemma Scan.append (h : Scan k c m d) (h' : Scan k d n e) : Scan k c (max m n) e := by
  refine ⟨fun hle => ?_, fun hlt => ?_⟩
  · rw [h.passes (by omega), h'.passes (by omega)]
  · by_cases hm : maxDepth < k + m
    · exact h.refuses hm
    · rw [h.passes (by omega)]
      exact h'.refuses (by omega)

/-- A character that the guard does not count. -/
def isUncounted (x : Char) : Bool :=
  !(x == '"' || x == '(' || x == ')')

lemma isUncounted_iff {x : Char} :
    isUncounted x = true ↔ x ≠ '"' ∧ x ≠ '(' ∧ x ≠ ')' := by
  simp [isUncounted, and_assoc]

lemma tooDeepFrom_uncounted {quoted : Bool} {word : List Char}
    (hword : ∀ x ∈ word, isUncounted x = true) (offset : Nat) (rest : List Char) :
    tooDeepFrom quoted k offset (word ++ rest) =
      tooDeepFrom quoted k (offset + byteLength word) rest := by
  induction word generalizing offset with
  | nil => rfl
  | cons x word ih =>
    obtain ⟨hquote, hopen, hclose⟩ := isUncounted_iff.mp (hword x (by simp))
    have hnext := ih (fun y hy => hword y (by simp [hy])) (offset + x.utf8Size)
    simp only [List.cons_append, tooDeepFrom, hquote, hopen, hclose, if_false, false_and, hnext,
      byteLength, Nat.add_assoc]

lemma Scan.uncounted (hk : k ≤ maxDepth) {word : List Char}
    (hword : ∀ x ∈ word, isUncounted x = true) (h : Reads c word d) : Scan k c 0 d := by
  refine ⟨fun _ => ?_, fun hlt => absurd hlt (by omega)⟩
  rw [h.rest, h.offset, tooDeepFrom_uncounted hword]

lemma isUncounted_of_apart (accept : Char → Bool)
    (hapart : ['"', '(', ')'].any accept = false) {x : Char} (hx : accept x = true) :
    isUncounted x = true := by
  have hmem : x ∉ ['"', '(', ')'] := fun hmem => List.any_eq_false.mp hapart x hmem hx
  simpa [isUncounted_iff] using hmem

lemma FieldName.uncounted {name : List Char} (h : FieldName name) :
    ∀ x ∈ name, isUncounted x = true :=
  fun x hx => isUncounted_of_apart _ (by decide) (h.2 x hx)

lemma PlainText.uncounted {word : List Char} (h : PlainText word) :
    ∀ x ∈ word, isUncounted x = true :=
  fun x hx => isUncounted_of_apart _ (by decide) (h.2.all x hx)

/-- Between its quotes a quoted text holds nothing that the guard counts. -/
lemma QuotedText.uncounted {word : List Char} (h : QuotedText word) :
    ∃ body, word = '"' :: body ++ ['"'] ∧ ∀ x ∈ body, isUncounted x = true := by
  obtain ⟨hbody⟩ := h
  exact ⟨_, rfl, fun x hx =>
    isUncounted_of_apart (isWildedChar isQuotedChar) (by decide) (hbody.all x hx)⟩

lemma Scan.quotedText (hk : k ≤ maxDepth) {word : List Char} (hword : QuotedText word)
    (h : Reads c word d) : Scan k c 0 d := by
  obtain ⟨body, rfl, huncounted⟩ := hword.uncounted
  refine ⟨fun _ => ?_, fun hlt => absurd hlt (by omega)⟩
  have hrest : c.rest = '"' :: (body ++ '"' :: d.rest) := by simp [h.rest]
  have hbytes : d.offset = c.offset + '"'.utf8Size + byteLength body + '"'.utf8Size := by
    simp only [h.offset, byteLength_append, byteLength, List.cons_append]
    omega
  rw [hrest, tooDeepFrom, if_pos rfl, tooDeepFrom_uncounted huncounted, tooDeepFrom, if_pos rfl,
    hbytes]
  rfl

lemma Blanks.uncounted (h : Blanks c d) :
    ∃ word, (∀ x ∈ word, isUncounted x = true) ∧ Reads c word d := by
  obtain ⟨word, hword, hread⟩ := h
  exact ⟨word, fun x hx => isUncounted_of_apart _ (by decide) (hword x hx), hread⟩

/-- What stands between two terms is none of the guard's business. -/
lemma Separator.uncounted {k? : Option Connective} (h : Separator c k? d) :
    ∃ word, (∀ x ∈ word, isUncounted x = true) ∧ Reads c word d := by
  cases h with
  | @connective _ _ _ k hbefore hop hafter =>
    obtain ⟨u, hu, hbefore⟩ := hbefore.uncounted
    obtain ⟨v, hv, hafter⟩ := hafter.uncounted
    have hletters : k.toString.toList.all isUncounted = true := by cases k <;> decide
    refine ⟨_, fun x hx => ?_, (hbefore.append hop.reads).append hafter⟩
    simp only [List.mem_append] at hx
    rcases hx with (hx | hx) | hx
    · exact hu x hx
    · exact List.all_eq_true.mp hletters x hx
    · exact hv x hx
  | blanks _ hword hread => exact Blanks.uncounted ⟨_, hword, hread⟩

lemma Signed.uncounted {sign? : Option Sign} (h : Signed c sign? d) :
    ∃ word, (∀ x ∈ word, isUncounted x = true) ∧ Reads c word d := by
  cases h with
  | unsigned => exact ⟨[], by simp, .nil c⟩
  | @signed _ s hread =>
    have hletters : s.toString.toList.all isUncounted = true := by cases s <;> decide
    exact ⟨_, List.all_eq_true.mp hletters, hread⟩

lemma Scan.blanks (hk : k ≤ maxDepth) (h : Blanks c d) : Scan k c 0 d := by
  obtain ⟨_, hword, hread⟩ := h.uncounted
  exact .uncounted hk hword hread

lemma Scan.separator (hk : k ≤ maxDepth) {k? : Option Connective} (h : Separator c k? d) :
    Scan k c 0 d := by
  obtain ⟨_, hword, hread⟩ := h.uncounted
  exact .uncounted hk hword hread

lemma Scan.signed (hk : k ≤ maxDepth) {sign? : Option Sign} (h : Signed c sign? d) :
    Scan k c 0 d := by
  obtain ⟨_, hword, hread⟩ := h.uncounted
  exact .uncounted hk hword hread

/-- Around a list of terms blanks change nothing. -/
lemma Scan.between_blanks (hk : k ≤ maxDepth) (hbefore : Blanks c d) (h : Scan k d n e)
    (hafter : Blanks e f) : Scan k c n f := by
  simpa using ((Scan.blanks hk hbefore).append h).append (.blanks hk hafter)

lemma Scan.group (hopen : Reads c ['('] d) (h : k + 1 ≤ maxDepth → Scan (k + 1) d m e)
    (hclose : Reads e [')'] f) : Scan k c (m + 1) f := by
  have hstart : tooDeepFrom false k c.offset c.rest =
      if maxDepth ≤ k then some c.offset else tooDeepFrom false (k + 1) d.offset d.rest := by
    rw [hopen.rest, hopen.offset]
    rfl
  have hstop : tooDeepFrom false (k + 1) e.offset e.rest =
      tooDeepFrom false k f.offset f.rest := by
    rw [hclose.rest, hclose.offset]
    rfl
  refine ⟨fun hle => ?_, fun hlt => ?_⟩
  · rw [hstart, if_neg (by omega), (h (by omega)).passes (by omega), hstop]
  · rw [hstart]
    by_cases hk : maxDepth ≤ k
    · simp [hk]
    · rw [if_neg hk]
      exact (h (by omega)).refuses (by omega)

/-- The guard passes over a phrase unless its groups nest too deep. -/
theorem Derives.scan {p : Phrase} (h : Derives c p d) (hk : k ≤ maxDepth) :
    Scan k c (phraseDepth p) d := by
  induction h generalizing k with
  | quotedText hword hread => exact .quotedText hk hword hread
  | text hword hread _ => exact .uncounted hk hword.uncounted hread
  | groupedTermList _ ih => exact ih hk
  | namedField hname hread hcolon _ ih =>
    rw [phraseDepth_field]
    have hletters : Scan k _ 0 _ := .uncounted hk hname.uncounted hread
    have hmark : Scan k _ 0 _ := .uncounted hk (by simp [isUncounted]) hcolon
    simpa using (hletters.append hmark).append (ih hk)
  | defaultField _ ih =>
    rw [phraseDepth_field]
    exact ih hk
  | term _ hsign _ ih =>
    rw [phraseDepth_term, ← phraseDepth_field]
    simpa using (Scan.signed hk hsign).append (ih hk)
  | lastTerm => exact ⟨fun _ => rfl, fun hlt => absurd hlt (by simp [phraseDepth, Node.depthList, hk])⟩
  | furtherTerm hsep _ _ ihterm ihfurther =>
    have hall := ((Scan.separator hk hsep).append (ihterm hk)).append (ihfurther hk)
    simpa [phraseDepth, depthList_append, depthList_connective, Node.depthList] using hall
  | termList _ _ ihterm ihfurther =>
    simpa [phraseDepth, Node.depthList] using (ihterm hk).append (ihfurther hk)
  | group hopen hbefore _ hafter hclose ih =>
    exact .group hopen (fun hk' => .between_blanks hk' hbefore (ih hk') hafter) hclose

/-- The guard refuses a query exactly when its groups nest deeper than the limit. -/
theorem DerivesQuery.tooDeepAt_isSome_iff {raw : String} {tree : Tree}
    (h : DerivesQuery raw tree) :
    (tooDeepAt raw.toList).isSome = true ↔ maxDepth < Node.depthList tree := by
  obtain ⟨hbefore, hlist, hafter, hend⟩ := h
  rename_i c d e
  have hscan : Scan 0 (.ofString raw) (Node.depthList tree) e :=
    .between_blanks (Nat.zero_le _) hbefore (hlist.scan (Nat.zero_le _)) hafter
  have hstart : tooDeepAt raw.toList =
      tooDeepFrom false 0 (Cursor.ofString raw).offset (Cursor.ofString raw).rest := rfl
  constructor
  · intro hsome
    by_contra hle
    rw [hstart, hscan.passes (by omega), hend] at hsome
    exact absurd hsome (by simp [tooDeepFrom])
  · intro hlt
    rw [hstart]
    exact hscan.refuses (by omega)

end ChantSearch.Proofs

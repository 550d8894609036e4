import ChantSearch.Proofs.Grammar.Nesting
import ChantSearch.Proofs.Grammar.Soundness

/-!
# The depth guard during an evaluation

The evaluation of the grammar tries many readings that come to nothing, and a text need not be a
query at all. Still the guard counts every group that is open in any of them: whatever the
evaluation has read so far, it has left the quotes and closed the groups that it entered. So no
more groups are ever open at once than the guard allows, and an evaluation that could go no
deeper would take the same course.
-/

namespace ChantSearch.Proofs
open Query Query.Parser

variable {α β : Type} {c d : Cursor} {k n : Nat}

mutual

/-- The greatest number of groups that were open at once in the course of an attempt, whether it
succeeded or not. The attempts inside a group are all behind its parenthesis, so an attempt at a
group without any inside has met no parenthesis and opened none. -/
def openGroups : Attempt → Nat
  | .rule r _ inner _ =>
    openGroupsIn inner + if r = .groupedTermList ∧ !inner.isEmpty then 1 else 0
  | .absence inner => openGroupsIn inner

def openGroupsIn : List Attempt → Nat
  | [] => 0
  | attempt :: attempts => max (openGroups attempt) (openGroupsIn attempts)

end

-- Groups that are never closed count as well.
example : openGroupsIn (evaluate "((a".toList).trace = 2 := by cbv

lemma openGroupsIn_append (ts us : List Attempt) :
    openGroupsIn (ts ++ us) = max (openGroupsIn ts) (openGroupsIn us) := by
  induction ts with
  | nil => simp [openGroupsIn]
  | cons t ts ih => simp [openGroupsIn, ih, max_assoc]

lemma openGroups_rule_le (r : Rule) (start : Nat) (inner : List Attempt) (succeeded : Bool) :
    openGroups (.rule r start inner succeeded) ≤ openGroupsIn inner + 1 := by
  rw [openGroups]
  split <;> omega

lemma openGroups_rule {r : Rule} (hr : r ≠ .groupedTermList) (start : Nat)
    (inner : List Attempt) (succeeded : Bool) :
    openGroups (.rule r start inner succeeded) = openGroupsIn inner := by
  simp [openGroups, hr]

/-- With `k` groups open in front of the cursor, the guard accepts the rest of the text. -/
def Guarded (k : Nat) (c : Cursor) : Prop :=
  tooDeepFrom false k c.offset c.rest = none

lemma Scan.guarded (h : Scan k c n d) (hc : Guarded k c) : Guarded k d := by
  by_cases hle : k + n ≤ maxDepth
  · rw [Guarded, ← h.passes hle]
    exact hc
  · have hrefused := h.refuses (by omega)
    rw [hc] at hrefused
    exact absurd hrefused (by simp)

/-- The guard has counted the groups that are open: it lets no further one begin at the limit. -/
lemma Guarded.opening (hc : Guarded k c) (h : Reads c ['('] d) :
    k < maxDepth ∧ Guarded (k + 1) d := by
  rw [Guarded, h.rest] at hc
  change (if maxDepth ≤ k then some c.offset else _) = none at hc
  split at hc
  · exact absurd hc (by simp)
  · refine ⟨by omega, ?_⟩
    rw [Guarded, h.offset]
    exact hc

lemma Guarded.closing (hc : Guarded (k + 1) c) (h : Reads c [')'] d) : Guarded k d := by
  rw [Guarded, h.rest] at hc
  rw [Guarded, h.offset]
  exact hc

lemma tooDeepFrom_eq_none_of_length {quoted : Bool} {text : List Char} (offset : Nat)
    (h : k + text.length ≤ maxDepth) : tooDeepFrom quoted k offset text = none := by
  induction text generalizing quoted k offset with
  | nil => rfl
  | cons x text ih =>
    rw [List.length_cons] at h
    have hclosed : k - 1 + text.length ≤ maxDepth := by omega
    have hopened : k + 1 + text.length ≤ maxDepth := by omega
    have hsame : k + text.length ≤ maxDepth := by omega
    have hk : ¬maxDepth ≤ k := by omega
    simp only [tooDeepFrom, ih _ hclosed, ih _ hopened, ih _ hsame, if_neg hk, ite_self]

/-! ### Courses of parsers -/

/-- From wherever the precondition holds the parsers take the same course: what they give and
what they attempt is the same. No more than `n` groups are open at once on it, and where it
succeeds the postcondition holds. -/
structure Course (pre post : Cursor → Prop) (n : Nat) (p q : Parser α) : Prop where
  agree : ∀ c, pre c → p c = q c
  opens : ∀ c, pre c → openGroupsIn (p c).trace ≤ n
  ends : ∀ c a d, pre c → (p c).result = some (a, d) → post d

section Combinators

variable {P Q R : Cursor → Prop} {p p' q q' : Parser α}

lemma course_of_trace_nil (htrace : ∀ c, (p c).trace = [])
    (hends : ∀ c a d, P c → (p c).result = some (a, d) → Q d) : Course P Q n p p where
  agree _ _ := rfl
  opens c _ := by simp [htrace c, openGroupsIn]
  ends := hends

lemma course_pure (a : α) : Course P P n (pure a) (pure a) := by
  refine course_of_trace_nil (fun _ => rfl) fun c b d hc h => ?_
  rw [result_pure] at h
  obtain ⟨rfl, rfl⟩ := Prod.mk.inj (Option.some.inj h)
  exact hc

lemma Course.bind {f f' : α → Parser β} (hp : Course P Q n p p')
    (hf : ∀ a, Course Q R n (f a) (f' a)) : Course P R n (p >>= f) (p' >>= f') where
  agree c hc := by
    have hfirst := hp.agree c hc
    cases h : (p c).result with
    | none =>
      rw [bind_of_none h, bind_of_none (hfirst ▸ h), hfirst]
    | some found =>
      obtain ⟨a, d⟩ := found
      have hsecond := (hf a).agree d (hp.ends c a d hc h)
      rw [bind_of_some h, bind_of_some (hfirst ▸ h), hfirst, hsecond]
  opens c hc := by
    have hfirst := hp.opens c hc
    cases h : (p c).result with
    | none =>
      rw [bind_of_none h]
      exact hfirst
    | some found =>
      obtain ⟨a, d⟩ := found
      have hsecond := (hf a).opens d (hp.ends c a d hc h)
      rw [bind_of_some h, openGroupsIn_append]
      exact max_le hfirst hsecond
  ends c b e hc h := by
    rw [result_bind] at h
    obtain ⟨⟨a, d⟩, hfirst, hsecond⟩ := Option.bind_eq_some_iff.mp h
    exact (hf a).ends d b e (hp.ends c a d hc hfirst) hsecond

lemma Course.orElse (hp : Course P Q n p p') (hq : Course P Q n q q') :
    Course P Q n (orElse p q) (orElse p' q') where
  agree c hc := by
    unfold Parser.orElse
    rw [hp.agree c hc, hq.agree c hc]
  opens c hc := by
    have hfirst := hp.opens c hc
    cases h : (p c).result with
    | none =>
      rw [orElse_of_none h, openGroupsIn_append]
      exact max_le hfirst (hq.opens c hc)
    | some found =>
      rw [orElse_of_some h]
      exact hfirst
  ends c a d hc h := by
    rcases orElse_cases h with h | h
    · exact hp.ends c a d hc h
    · exact hq.ends c a d hc h

lemma Course.rule {r : Rule} (hr : r ≠ .groupedTermList) (hp : Course P Q n p p') :
    Course P Q n (rule r p) (rule r p') where
  agree c hc := by
    unfold Parser.rule
    rw [hp.agree c hc]
  opens c hc := by
    have hinner := hp.opens c hc
    simpa [Parser.rule, openGroupsIn, openGroups_rule hr] using hinner
  ends c a d hc h := hp.ends c a d hc h

/-- Around what is attempted inside a group one more group is open. -/
lemma Course.group (hp : Course P Q n p p') :
    Course P Q (n + 1) (Parser.rule .groupedTermList p) (Parser.rule .groupedTermList p') where
  agree c hc := by
    unfold Parser.rule
    rw [hp.agree c hc]
  opens c hc := by
    have hinner := hp.opens c hc
    have hle := openGroups_rule_le .groupedTermList c.offset (p c).trace (p c).result.isSome
    change max _ 0 ≤ n + 1
    omega
  ends c a d hc h := hp.ends c a d hc h

lemma Course.absent (hp : Course P Q n p p') : Course P P n (absent p) (absent p') where
  agree c hc := by
    unfold Parser.absent
    rw [hp.agree c hc]
  opens c hc := by
    simpa [Parser.absent, openGroupsIn, openGroups] using hp.opens c hc
  ends c u d hc h := by
    obtain ⟨_, rfl⟩ := absent_eq_some_iff.mp h
    exact hc

lemma Course.optional (hp : Course P P n p p') : Course P P n (optional p) (optional p') :=
  (hp.bind fun _ => course_pure _).orElse (course_pure none)

lemma Course.many (hp : Course P P n p p') (limit : Nat) :
    Course P P n (many limit p) (many limit p') := by
  induction limit with
  | zero => exact course_pure []
  | succ limit ih =>
    refine ⟨fun c hc => ?_, fun c hc => ?_, fun _ _ _ hc h => many_preserves hp.ends hc h⟩
    · have hfirst := hp.agree c hc
      cases h : (p c).result with
      | none => rw [many_of_none h, many_of_none (hfirst ▸ h), hfirst]
      | some found =>
        obtain ⟨a, d⟩ := found
        have hothers := ih.agree d (hp.ends c a d hc h)
        rw [many_of_some h, many_of_some (hfirst ▸ h), hfirst, hothers]
    · have hfirst := hp.opens c hc
      cases h : (p c).result with
      | none =>
        rw [many_of_none h]
        exact hfirst
      | some found =>
        obtain ⟨a, d⟩ := found
        have hothers := ih.opens d (hp.ends c a d hc h)
        rw [many_of_some h, openGroupsIn_append]
        exact max_le hfirst hothers

end Combinators

lemma course_offset {P : Cursor → Prop} : Course P P n offset offset :=
  course_of_trace_nil (fun _ => rfl) fun _ _ _ hc h => (offset_eq_some_iff.mp h).2 ▸ hc

lemma course_atEnd {P : Cursor → Prop} : Course P P n atEnd atEnd :=
  course_of_trace_nil (fun _ => rfl) fun _ _ _ hc h => (atEnd_eq_some_iff.mp h).1 ▸ hc

/-- What can continue a word is only looked for, so it does not matter where it ends. -/
lemma course_wordContinuation {P : Cursor → Prop} :
    Course P (fun _ => True) n wordContinuation wordContinuation := by
  refine .orElse (.bind ?_ fun _ => course_pure ())
    (.bind (.rule (by simp) ?_) fun _ => course_pure ())
  · exact course_of_trace_nil (trace_satisfying _) fun _ _ _ _ _ => trivial
  · exact course_of_trace_nil (trace_scanned _) fun _ _ _ _ _ => trivial

section Words

variable (hk : k ≤ maxDepth)
include hk

lemma course_blanks : Course (Guarded k) (Guarded k) n blanks blanks :=
  course_of_trace_nil (fun _ => rfl) fun _ _ _ hc h =>
    (Scan.blanks hk (blanks_eq_some_iff.mp h).1).guarded hc

lemma course_characters {cs : List Char} (hcs : cs.all isUncounted = true) :
    Course (Guarded k) (Guarded k) n (characters cs) (characters cs) :=
  course_of_trace_nil (trace_characters cs) fun _ _ _ hc h =>
    (Scan.uncounted hk (List.all_eq_true.mp hcs) (characters_eq_some_iff.mp h)).guarded hc

lemma course_spelling (l : Connective) :
    Course (Guarded k) (Guarded k) n (spelling l) (spelling l) :=
  (course_characters hk (by cases l <;> decide)).bind fun _ => course_pure l

lemma course_keyword : Course (Guarded k) (Guarded k) n keyword keyword :=
  ((course_spelling hk _).orElse ((course_spelling hk _).orElse (course_spelling hk _))).bind
    fun l => course_wordContinuation.absent.bind fun _ => course_pure l

lemma course_connective : Course (Guarded k) (Guarded k) n connective connective :=
  .rule (by simp)
    ((course_spelling hk _).orElse ((course_spelling hk _).orElse (course_keyword hk)))

lemma course_signSpelling (s : Sign) :
    Course (Guarded k) (Guarded k) n (signSpelling s) (signSpelling s) :=
  (course_characters hk (by cases s <;> decide)).bind fun _ => course_pure s

lemma course_sign : Course (Guarded k) (Guarded k) n sign sign :=
  .rule (by simp) ((course_signSpelling hk _).orElse
    ((course_signSpelling hk _).orElse (course_signSpelling hk _)))

lemma course_separator : Course (Guarded k) (Guarded k) n separator separator := by
  refine .orElse ?_ ?_
  · exact (course_blanks hk).bind fun _ => (course_connective hk).bind fun _ =>
      (course_blanks hk).bind fun _ => course_pure _
  · refine .bind (course_of_trace_nil (trace_satisfying _) fun c x d hc h => ?_) fun _ =>
      (course_blanks hk).bind fun _ => course_pure _
    obtain ⟨hx, hread⟩ := satisfying_eq_some_iff.mp h
    exact (Scan.blanks hk ⟨[x], by simpa using hx, hread⟩).guarded hc

lemma course_fieldName :
    Course (Guarded k) (Guarded k) n (Parser.rule .fieldName (scanned scanFieldName))
      (Parser.rule .fieldName (scanned scanFieldName)) := by
  refine .rule (by simp) (course_of_trace_nil (trace_scanned _) fun c s d hc h => ?_)
  obtain ⟨word, _, hword, hread, _⟩ := fieldName_eq_some_iff.mp h
  exact (Scan.uncounted hk hword.uncounted hread).guarded hc

lemma course_text :
    Course (Guarded k) (Guarded k) n (Parser.rule .text (scanned scanText))
      (Parser.rule .text (scanned scanText)) := by
  refine .rule (by simp) (course_of_trace_nil (trace_scanned _) fun c s d hc h => ?_)
  obtain ⟨word, _, hword, hread, _⟩ := text_eq_some_iff.mp h
  exact (Scan.uncounted hk hword.uncounted hread).guarded hc

lemma course_quotedText :
    Course (Guarded k) (Guarded k) n (Parser.rule .quotedText (scanned scanQuotedText))
      (Parser.rule .quotedText (scanned scanQuotedText)) := by
  refine .rule (by simp) (course_of_trace_nil (trace_scanned _) fun c s d hc h => ?_)
  obtain ⟨word, _, hword, hread⟩ := quotedText_eq_some_iff.mp h
  exact (Scan.quotedText hk hword hread).guarded hc

section Terms

variable {group group' : Parser Tree} (hgroup : Course (Guarded k) (Guarded k) n group group')
include hgroup

lemma course_fieldValue :
    Course (Guarded k) (Guarded k) n (fieldValue group) (fieldValue group') :=
  .rule (by simp) <|
    .orElse ((course_quotedText hk).bind fun _ => course_pure _) <|
    .orElse ((course_text hk).bind fun _ => course_pure _) <|
    hgroup.bind fun _ => course_pure _

lemma course_namedField :
    Course (Guarded k) (Guarded k) n (namedField group) (namedField group') :=
  .rule (by simp) <| (course_fieldName hk).bind fun _ =>
    (course_characters hk (by decide)).bind fun _ =>
      (course_fieldValue hk hgroup).bind fun _ => course_pure _

lemma course_defaultField :
    Course (Guarded k) (Guarded k) n (defaultField group) (defaultField group') :=
  .rule (by simp) <| (course_fieldValue hk hgroup).bind fun _ => course_pure _

lemma course_term : Course (Guarded k) (Guarded k) n (term group) (term group') :=
  .rule (by simp) <| (course_keyword hk).absent.bind fun _ => course_offset.bind fun _ =>
    (course_sign hk).optional.bind fun _ =>
      ((course_namedField hk hgroup).orElse (course_defaultField hk hgroup)).bind fun _ =>
        course_offset.bind fun _ => course_pure _

lemma course_termList (limit : Nat) :
    Course (Guarded k) (Guarded k) n (termList limit group) (termList limit group') :=
  .rule (by simp) <| (course_term hk hgroup).bind fun _ =>
    .bind (.many ((course_separator hk).bind fun _ =>
      (course_term hk hgroup).bind fun _ => course_pure _) limit) fun _ => course_pure _

end Terms

end Words

lemma characters_of_none {cs : List Char} (h : (characters cs c).result = none) :
    characters cs c = ⟨none, []⟩ := by
  rw [← h, ← trace_characters cs c]

/-- Where no parenthesis stands it makes no difference how deep groups may nest. -/
lemma groupedTermList_of_not_opening (h : (characters ['('] c).result = none)
    (limit depth : Nat) :
    groupedTermList limit depth c = ⟨none, [.rule .groupedTermList c.offset [] false]⟩ := by
  cases depth with
  | zero => rfl
  | succ depth =>
    rw [groupedTermList]
    unfold Parser.rule
    rw [bind_of_none h, characters_of_none h]
    rfl

/-- Behind a parenthesis a list of terms is attempted. -/
lemma groupedTermList_of_opening (h : Reads c ['('] d) (limit depth : Nat) :
    ∃ inner succeeded, inner ≠ [] ∧ (groupedTermList limit (depth + 1) c).trace =
      [.rule .groupedTermList c.offset inner succeeded] := by
  have hopen : (characters ['('] c).result = some ((), d) := characters_eq_some_iff.mpr h
  obtain ⟨u, e, hblanks⟩ : ∃ u e, (blanks d).result = some (u, e) :=
    ⟨_, _, result_skipping isBlank d⟩
  refine ⟨_, _, ?_, rfl⟩
  obtain ⟨others, hothers⟩ := trace_bind (termList limit (groupedTermList limit depth))
    (fun members => do blanks; characters [')']; pure members) e
  rw [bind_of_some hopen, bind_of_some hblanks]
  simp only [hothers]
  simp [termList, Parser.rule]

lemma not_opening_of_guarded (hc : Guarded maxDepth c) : (characters ['('] c).result = none := by
  rw [Option.eq_none_iff_forall_ne_some]
  rintro ⟨u, d⟩ h
  exact absurd (hc.opening (characters_eq_some_iff.mp h)).1 (by omega)

/-- With `k` groups open, groups nest `n` deeper at most, where the guard accepts the rest. -/
lemma course_groupedTermList (limit : Nat) {k n depth : Nat} (hkn : k + n = maxDepth)
    (hdepth : n ≤ depth) :
    Course (Guarded k) (Guarded k) n (groupedTermList limit depth) (groupedTermList limit n) := by
  -- On the groups that the guard lets begin inside the open ones; without any it lets none begin.
  induction n generalizing k depth with
  | zero =>
    rw [Nat.add_zero] at hkn
    subst hkn
    refine ⟨fun c hc => ?_, fun c hc => ?_, fun c members d hc h => ?_⟩
    · rw [groupedTermList_of_not_opening (not_opening_of_guarded hc),
        groupedTermList_of_not_opening (not_opening_of_guarded hc)]
    · rw [groupedTermList_of_not_opening (not_opening_of_guarded hc)]
      simp [openGroupsIn, openGroups]
    · rw [groupedTermList_of_not_opening (not_opening_of_guarded hc)] at h
      exact absurd h (by simp)
  | succ n ih =>
    obtain ⟨depth, rfl⟩ : ∃ m, depth = m + 1 := ⟨depth - 1, by omega⟩
    have hinner : Course (Guarded (k + 1)) (Guarded (k + 1)) n (groupedTermList limit depth)
        (groupedTermList limit n) := ih (by omega) (by omega)
    have hk : k + 1 ≤ maxDepth := by omega
    have hopen : Course (Guarded k) (Guarded (k + 1)) n (characters ['(']) (characters ['(']) :=
      course_of_trace_nil (trace_characters _) fun _ _ _ hc h =>
        (hc.opening (characters_eq_some_iff.mp h)).2
    have hclose : Course (Guarded (k + 1)) (Guarded k) n (characters [')']) (characters [')']) :=
      course_of_trace_nil (trace_characters _) fun _ _ _ hc h =>
        hc.closing (characters_eq_some_iff.mp h)
    exact .group <| hopen.bind fun _ => (course_blanks hk).bind fun _ =>
      (course_termList hk hinner limit).bind fun _ => (course_blanks hk).bind fun _ =>
        hclose.bind fun _ => course_pure _

lemma course_query (limit : Nat) {k n depth : Nat} (hkn : k + n = maxDepth)
    (hdepth : n ≤ depth) :
    Course (Guarded k) (Guarded k) n (query limit depth) (query limit n) := by
  have hk : k ≤ maxDepth := by omega
  exact .rule (by simp) <| (course_blanks hk).bind fun _ =>
    (course_termList hk (course_groupedTermList limit hkn hdepth) limit).bind fun _ =>
      (course_blanks hk).bind fun _ => (Course.rule (by simp) course_atEnd).bind fun _ =>
        course_pure _

variable {raw : String}

lemma guarded_of_length (h : k + raw.toList.length ≤ maxDepth) : Guarded k (.ofString raw) :=
  tooDeepFrom_eq_none_of_length _ h

lemma evaluate_eq_query (h : tooDeepAt raw.toList = none) :
    evaluate raw.toList = query raw.toList.length 32 (.ofString raw) := by
  by_cases hlong : 32 ≤ raw.toList.length
  · exact (course_query _ (Nat.zero_add _) hlong).agree (.ofString raw) h
  · -- A text shorter than the limit stays below it even behind as many groups as are left over.
    have hsum : 32 - raw.toList.length + raw.toList.length = maxDepth := by
      rw [maxDepth]
      omega
    exact ((course_query _ hsum (by omega)).agree (.ofString raw) (guarded_of_length hsum.le)).symm

/-- If the guard accepts a text, be it a query or not, then at most 32 groups are open at once at
any moment of an evaluation of the grammar, however deep it lets groups nest, readings that fail
included. An evaluation that lets them nest 32 deep takes the same course, and so does the one
that parsing relies on. A group is open from its parenthesis on: an attempt at a group has
attempts inside if and only if it stands at a parenthesis. -/
theorem guarded_open_groups (raw : String) (h : tooDeepAt raw.toList = none) :
    (∀ limit depth, 32 ≤ depth →
      openGroupsIn (query limit depth (.ofString raw)).trace ≤ 32 ∧
      query limit depth (.ofString raw) = query limit 32 (.ofString raw)) ∧
    (openGroupsIn (evaluate raw.toList).trace ≤ 32 ∧
      evaluate raw.toList = query raw.toList.length 32 (.ofString raw)) ∧
    ∀ limit depth c, ∃ inner succeeded, (groupedTermList limit (depth + 1) c).trace =
        [.rule .groupedTermList c.offset inner succeeded] ∧
      (inner ≠ [] ↔ ∃ rest, c.rest = '(' :: rest) := by
  have hcourse : ∀ limit depth, 32 ≤ depth →
      openGroupsIn (query limit depth (.ofString raw)).trace ≤ 32 ∧
      query limit depth (.ofString raw) = query limit 32 (.ofString raw) := by
    intro limit depth hdepth
    have hquery := course_query limit (Nat.zero_add maxDepth) hdepth
    exact ⟨hquery.opens (.ofString raw) h, hquery.agree (.ofString raw) h⟩
  refine ⟨hcourse, ⟨?_, evaluate_eq_query h⟩, fun limit depth c => ?_⟩
  · rw [evaluate_eq_query h]
    exact (hcourse _ 32 le_rfl).1
  · by_cases hopen : ∃ rest, c.rest = '(' :: rest
    · obtain ⟨rest, hrest⟩ := hopen
      have hopening : Reads c ['('] (c.past ['('] rest) := reads_past hrest
      obtain ⟨inner, succeeded, hinner, htrace⟩ :=
        groupedTermList_of_opening hopening limit depth
      exact ⟨inner, succeeded, htrace, iff_of_true hinner ⟨rest, hrest⟩⟩
    · refine ⟨[], false, ?_, iff_of_false (by simp) hopen⟩
      rw [groupedTermList_of_not_opening]
      rw [Option.eq_none_iff_forall_ne_some]
      rintro ⟨u, d⟩ h
      exact hopen ⟨_, (characters_eq_some_iff.mp h).rest⟩

/-- A quote that is never closed hides further parentheses from the guard, but from the evaluation
too. -/
theorem parentheses_behind_open_quote :
    tooDeepAt (String.ofList (List.replicate 32 '(' ++ ['"', '('])).toList = none ∧
      openGroupsIn (evaluate (String.ofList (List.replicate 32 '(' ++ ['"', '('])).toList).trace ≤
        32 := by
  have h : tooDeepAt (String.ofList (List.replicate 32 '(' ++ ['"', '('])).toList = none := by cbv
  exact ⟨h, (guarded_open_groups _ h).2.1.1⟩

end ChantSearch.Proofs

import ChantSearch.Proofs.Grammar.Boundary
import ChantSearch.Proofs.Grammar.Nesting

/-!
# Parentheses open groups

An opening parenthesis that no quote stands before can only be that of a group: wherever a
derivation reads one, a group has a derivation from there. So a text is no query if what
follows such a parenthesis is no list of terms.
-/

namespace ChantSearch.Proofs
open Query

variable {c d e f : Cursor} {front middle back before after : List Char} {x : Char}

lemma Reads.split_at (hfront : Reads c front d) (hback : Reads d back e)
    (h : Reads c (before ++ x :: after) e) :
    (∃ word, Reads c (before ++ x :: word) d) ∨
      ∃ word, before = front ++ word ∧ Reads d (word ++ x :: after) e := by
  have hsame : (front ++ back) ++ e.rest = (before ++ x :: after) ++ e.rest :=
    (hfront.append hback).rest.symm.trans h.rest
  have hlater (word : List Char) (hback' : back = word ++ x :: after) :
      Reads d (word ++ x :: after) e := hback' ▸ hback
  rcases List.append_eq_append_iff.mp (List.append_cancel_right hsame) with
    ⟨word, hword, hlast⟩ | ⟨word, hword, hlast⟩
  · exact .inr ⟨word, hword, hlater word hlast⟩
  · cases word with
    | nil =>
      rw [List.append_nil] at hword
      exact .inr ⟨[], by rw [hword, List.append_nil], hlater [] hlast.symm⟩
    | cons y word =>
      obtain ⟨rfl, _⟩ := List.cons.inj hlast
      exact .inl ⟨word, hword ▸ hfront⟩

/-- A part of the text without the character is passed over. -/
lemma Reads.skip (hfront : Reads c front d) (hx : x ∉ front) (hback : Reads d back e)
    (h : Reads c (before ++ x :: after) e) :
    ∃ word, before = front ++ word ∧ Reads d (word ++ x :: after) e := by
  rcases hfront.split_at hback h with ⟨word, hword⟩ | hlater
  · have hsame := hfront.word_eq hword
    exact absurd (by simp [hsame]) hx
  · exact hlater

lemma Reads.within (hfront : Reads c front d) (hx : x ∉ front) (hmiddle : Reads d middle e)
    (hback : Reads e back f) (hx' : x ∉ back) (h : Reads c (before ++ x :: after) f) :
    ∃ word tail, before = front ++ word ∧ Reads d (word ++ x :: tail) e := by
  obtain ⟨word, hword, hlater⟩ := hfront.skip hx (hmiddle.append hback) h
  rcases hmiddle.split_at hback hlater with ⟨tail, htail⟩ | ⟨tail, _, htail⟩
  · exact ⟨word, tail, hword, htail⟩
  · have hsame := hback.word_eq htail
    exact absurd (by simp [hsame]) hx'

lemma opening_not_mem (hfront : ∀ y ∈ front, isUncounted y = true) : '(' ∉ front :=
  fun hmem => absurd (hfront _ hmem) (by decide)

/-- A group begins behind the text. -/
def GroupBehind (c : Cursor) (before : List Char) : Prop :=
  ∃ d e members, Reads c before d ∧ Derives d (.group members) e

lemma Reads.groupBehind (hfront : Reads c front d) (h : GroupBehind d before) :
    GroupBehind c (front ++ before) := by
  obtain ⟨e, f, members, hread, hgroup⟩ := h
  exact ⟨e, f, members, hfront.append hread, hgroup⟩

/-- An opening parenthesis in a derivation, with no quote before it, opens a group. -/
theorem Derives.groupBehind {p : Phrase} (h : Derives c p d) (hquote : '"' ∉ before)
    (hread : Reads c (before ++ '(' :: after) d) : GroupBehind c before := by
  induction h generalizing before after with
  | quotedText hword hread' =>
    obtain ⟨_⟩ := hword
    have hsame := hread'.word_eq hread
    cases before with
    | nil => exact absurd (List.cons.inj hsame).1 (by decide)
    | cons y before =>
      have hfirst : '"' = y := (List.cons.inj hsame).1
      exact absurd (List.mem_cons.mpr (.inl hfirst)) hquote
  | text hword hread' _ =>
    have hsame := hread'.word_eq hread
    have hchar := hword.2.all '(' (by simp [hsame])
    exact absurd hchar (by decide)
  | groupedTermList _ ih => exact ih hquote hread
  | namedField hname hfront hcolon hvalue ih =>
    obtain ⟨_, hback⟩ := hvalue.reaches
    obtain ⟨_, rfl, hmiddle⟩ :=
      hfront.skip (opening_not_mem hname.uncounted) (hcolon.append hback) hread
    obtain ⟨_, rfl, hlater⟩ := hcolon.skip (by decide) hback hmiddle
    have hgroup := ih (fun hmem => hquote (by simp [hmem])) hlater
    exact hfront.groupBehind (hcolon.groupBehind hgroup)
  | defaultField _ ih => exact ih hquote hread
  | term _ hsign hfield ih =>
    obtain ⟨_, hback⟩ := hfield.reaches
    obtain ⟨_, hletters, hfront⟩ := hsign.uncounted
    obtain ⟨_, rfl, hlater⟩ := hfront.skip (opening_not_mem hletters) hback hread
    exact hfront.groupBehind (ih (fun hmem => hquote (by simp [hmem])) hlater)
  | lastTerm c =>
    have hempty := (Reads.nil c).word_eq hread
    exact absurd hempty (by simp)
  | furtherTerm hsep hterm hfurther ihterm ihfurther =>
    obtain ⟨_, hletters, hfront⟩ := hsep.uncounted
    obtain ⟨_, hmiddle⟩ := hterm.reaches
    obtain ⟨_, hback⟩ := hfurther.reaches
    obtain ⟨_, rfl, hlater⟩ :=
      hfront.skip (opening_not_mem hletters) (hmiddle.append hback) hread
    apply hfront.groupBehind
    rcases hmiddle.split_at hback hlater with ⟨_, hterm'⟩ | ⟨_, rfl, hfurther'⟩
    · exact ihterm (fun hmem => hquote (by simp [hmem])) hterm'
    · exact hmiddle.groupBehind (ihfurther (fun hmem => hquote (by simp [hmem])) hfurther')
  | termList hterm hfurther ihterm ihfurther =>
    obtain ⟨_, hfront⟩ := hterm.reaches
    obtain ⟨_, hback⟩ := hfurther.reaches
    rcases hfront.split_at hback hread with ⟨_, hterm'⟩ | ⟨_, rfl, hfurther'⟩
    · exact ihterm hquote hterm'
    · exact hfront.groupBehind (ihfurther (fun hmem => hquote (by simp [hmem])) hfurther')
  | group hopen hbefore hlist hafter hclose ih =>
    cases before with
    | nil => exact ⟨_, _, _, .nil _, .group hopen hbefore hlist hafter hclose⟩
    | cons y before =>
      obtain ⟨_, hfront, hopened⟩ := hbefore.uncounted
      obtain ⟨_, hmiddle⟩ := hlist.reaches
      obtain ⟨back, hback, hclosed⟩ := hafter.uncounted
      have hend : '(' ∉ back ++ [')'] := by simp [opening_not_mem hback]
      have hinside := hclosed.append hclose
      rcases hopen.split_at (hopened.append (hmiddle.append hinside)) hread with
        ⟨_, hshort⟩ | ⟨before, hword, hlater⟩
      · have hsame := hopen.word_eq hshort
        exact absurd (congrArg List.length hsame) (by simp)
      obtain ⟨_, _, rfl, hlist'⟩ :=
        hopened.within (opening_not_mem hfront) hmiddle hinside hend hlater
      rw [hword] at hquote ⊢
      have hgroup := ih (fun hmem => hquote (by simp [hmem])) hlist'
      exact hopen.groupBehind (hopened.groupBehind hgroup)

/-- So does one in a query. -/
theorem DerivesQuery.groupBehind {raw : String} {tree : Tree} (h : DerivesQuery raw tree)
    (hquote : '"' ∉ before) (hraw : raw.toList = before ++ '(' :: after) :
    GroupBehind (.ofString raw) before := by
  obtain ⟨hbefore, hlist, hafter, hend⟩ := h
  obtain ⟨_, hfront, hopened⟩ := hbefore.uncounted
  obtain ⟨_, hmiddle⟩ := hlist.reaches
  obtain ⟨_, hback, hclosed⟩ := hafter.uncounted
  have hread := hopened.append (hmiddle.append hclosed)
  have hrest := hread.rest
  rw [hend, List.append_nil] at hrest
  rw [hrest.symm.trans hraw] at hread
  obtain ⟨_, _, rfl, hlist'⟩ := hopened.within (opening_not_mem hfront) hmiddle hclosed
    (opening_not_mem hback) hread
  exact hopened.groupBehind (hlist.groupBehind (fun hmem => hquote (by simp [hmem])) hlist')

/-- No keyword stands at the front of a group. -/
lemma Derives.group_front {members : Tree} {rest : List Char} (h : Derives c (.group members) e)
    (hc : c.rest = '(' :: rest) (hrest : Stops isBlank rest) :
    ∃ d, d.rest = rest ∧ ¬∃ k f, Keyword d k f := by
  cases h with
  | @group _ d _ _ _ _ _ hopen hbefore hlist =>
    have hd : d.rest = rest := by
      have hboth := hopen.rest
      rw [hc] at hboth
      exact (List.cons.inj hboth).2.symm
    rw [← hd] at hrest
    obtain rfl := Blanks.unique ⟨[], by simp, .nil d⟩ hrest hbefore hlist.termList_stops_blank
    cases hlist with
    | termList hterm _ =>
      cases hterm with
      | term hkeyword _ _ => exact ⟨d, hd, hkeyword⟩

end ChantSearch.Proofs

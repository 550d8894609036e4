import ChantSearch.Proofs.Rendering.Relocation
import ChantSearch.Translation

/-!
# The filter around a query

A query is limited to a type of record by a wrapper: the type, a connective, and the query in
parentheses. If the type is a text and a list of terms stands between the parentheses, the
whole is a query again, of three members.
-/

namespace ChantSearch.Proofs
open Query Resolution

variable {μ : Type} {c d e : Cursor}

lemma ofType_eq (resourceType body : String) :
    ofType resourceType body = "type:" ++ resourceType ++ " AND (" ++ body ++ ")" :=
  rfl

lemma toList_ofType (resourceType body : String) :
    (ofType resourceType body).toList =
      "type:".toList ++ (resourceType.toList ++ (" AND (".toList ++ (body.toList ++ [')']))) := by
  simp [ofType_eq]

def typeHead (mark : μ) : Head μ :=
  ⟨none, some "type", mark⟩

def bareHead (mark : μ) : Head μ :=
  ⟨none, none, mark⟩

lemma wellFormedHead_typeHead (mark : μ) (word : String) :
    WellFormedHead (typeHead mark) word := by
  have hletters : ("type" : String).toList = ['t', 'y', 'p', 'e'] := rfl
  refine ⟨fun name hname => ?_, fun _ => not_isKeyword_of_begins hletters (by decide)⟩
  obtain rfl : "type" = name := Option.some.inj hname
  exact ⟨by decide, List.all_eq_true.mp (by decide)⟩

lemma wellFormedHead_bareHead {word : String} (mark : μ) (hword : ¬IsKeyword word) :
    WellFormedHead (bareHead mark) word :=
  ⟨by simp [bareHead], fun _ => hword⟩

/-- The shape of a query of a type, given that of the query in its parentheses. -/
def filteredShape (resourceType : String) (body : Shape) : Shape :=
  [.literal (typeHead ()) resourceType, .connective .and, .group (bareHead ()) body]

lemma flatten_filteredShape (resourceType : String) (body : Shape) :
    flatten (filteredShape resourceType body) =
      [.field "type" resourceType, .marker (.connective .and), .marker .opening] ++ flatten body ++
        [.marker .closing] := by
  simp [filteredShape, flatten, Node.components, Head.signMarker, Head.literalComponent, Head.scope,
    typeHead, bareHead]

lemma depthList_filteredShape (resourceType : String) (body : Shape) :
    Node.depthList (filteredShape resourceType body) = Node.depthList body + 1 := by
  simp [filteredShape, Node.depthList, Node.depth]

lemma derives_typeTerm {resourceType : String} {rest : List Char}
    (htype : PlainText resourceType.toList)
    (hc : c.rest = "type:".toList ++ (resourceType.toList ++ ' ' :: rest)) :
    ∃ d, d.rest = ' ' :: rest ∧ Derives c
      (.term (.literal (typeHead ⟨c.offset, d.offset⟩) resourceType)) d := by
  obtain ⟨d, hfield, hd⟩ := exists_reads hc
  have hvalue := derives_literal (.inl htype) hd (not_textContinues_blank rest)
  exact ⟨_, rfl, derives_term (wellFormedHead_typeHead () resourceType) (.nil c) hfield hvalue⟩

/-- The text of a filtered query is a query, if a list of terms is read between its
parentheses. -/
lemma derivesQuery_ofType {resourceType body : String} {shape : Shape}
    (htype : PlainText resourceType.toList)
    (hbody : ∀ c : Cursor, c.rest = body.toList ++ [')'] →
      ∃ nodes d, Derives c (.termList nodes) d ∧ d.rest = [')'] ∧ Node.shape nodes = shape) :
    ∃ tree, DerivesQuery (ofType resourceType body) tree ∧
      Node.shape tree = filteredShape resourceType shape := by
  have hstart : (Cursor.ofString (ofType resourceType body)).rest = "type:".toList ++
      (resourceType.toList ++ ' ' :: ("AND (".toList ++ (body.toList ++ [')']))) := by
    rw [Cursor.ofString, toList_ofType]
    simp
  obtain ⟨d, hd, hfirst⟩ := derives_typeTerm htype hstart
  have hnext : d.rest = ([' '] ++ (Connective.and.toString.toList ++ [' '])) ++
      (['('] ++ (body.toList ++ [')'])) := by
    rw [hd]
    simp [Connective.toString]
  obtain ⟨g, hread, hg⟩ := exists_reads hnext
  obtain ⟨e, hbefore, hread⟩ := hread.split
  obtain ⟨f, hword, hafter⟩ := hread.split
  have hend : ¬WordContinues f.rest := by
    rw [hafter.rest, not_wordContinues_iff]
    exact stops_cons.mpr (by decide)
  have hsep : Separator d (some .and) g := .connective (hbefore.blanks (by decide))
    (.inr ⟨by simp, hword, hend⟩) (hafter.blanks (by decide))
  obtain ⟨i, hopen, hi⟩ := exists_reads hg
  obtain ⟨nodes, j, hnodes, hj, hshape⟩ := hbody i hi
  have hclose : Reads j [')'] (j.past [')'] []) := reads_past hj
  have hgroup : Derives g (.group nodes) (j.past [')'] []) :=
    .group hopen ⟨[], by simp, .nil i⟩ hnodes ⟨[], by simp, .nil j⟩ hclose
  have hparenthesis : ("(" : String).toList = ['('] := rfl
  have hhead : WellFormedHead (bareHead ()) (firstWord (.group nodes)) :=
    wellFormedHead_bareHead () (not_isKeyword_of_begins hparenthesis (by decide))
  have hlast := derives_term hhead (.nil g) (.nil g) (.groupedTermList hgroup)
  refine ⟨_, .query ⟨[], by simp, .nil _⟩ (.termList hfirst (.furtherTerm hsep hlast (.lastTerm _)))
    ⟨[], by simp, .nil _⟩ rfl, ?_⟩
  simp only [Node.shape] at hshape
  simp [filteredShape, Node.shape, Node.mapList, Node.map, Head.map, Value.toNode, typeHead,
    bareHead, hshape]

/-- If its groups nest no deeper than the limit, the query is accepted with the components of
the list behind the filter. -/
lemma parse_ofType {resourceType body : String} {shape : Shape}
    (htype : PlainText resourceType.toList) (hdepth : Node.depthList shape < maxDepth)
    (hbody : ∀ c : Cursor, c.rest = body.toList ++ [')'] →
      ∃ nodes d, Derives c (.termList nodes) d ∧ d.rest = [')'] ∧ Node.shape nodes = shape) :
    ∃ tree, parse (ofType resourceType body) = .ok tree ∧
      flatten tree = [.field "type" resourceType, .marker (.connective .and), .marker .opening] ++
        flatten shape ++ [.marker .closing] := by
  obtain ⟨tree, hquery, hshape⟩ := derivesQuery_ofType htype hbody
  refine ⟨tree, hquery.parse_eq ?_, ?_⟩
  · rw [← depthList_mapList (fun _ => ()) tree, ← Node.shape, hshape, depthList_filteredShape]
    exact hdepth
  · rw [← flatten_mapList (fun _ => ()) tree, ← Node.shape, hshape, flatten_filteredShape]

end ChantSearch.Proofs

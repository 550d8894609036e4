import Mathlib
import ChantSearch.Query.Render

/-!
# The text of a flattened query

The components of a query and its depth do not depend on the marks of its terms. Its text is
put together from the texts of its parts; a component passes on one bit only, whether an
opening parenthesis behind it is glued to it.
-/

namespace ChantSearch.Proofs
open Query

variable {μ ν : Type}

mutual

lemma components_map (f : μ → ν) : ∀ node : Node μ, (node.map f).components = node.components
  | .connective _ => rfl
  | .literal _ _ => rfl
  | .group head members => by
    simp only [Node.map, Node.components, flatten_mapList f members]
    rfl

lemma flatten_mapList (f : μ → ν) : ∀ nodes : List (Node μ),
    flatten (Node.mapList f nodes) = flatten nodes
  | [] => rfl
  | node :: nodes => by
    simp only [Node.mapList, flatten, components_map f node, flatten_mapList f nodes]

end

mutual

lemma depth_map (f : μ → ν) : ∀ node : Node μ, (node.map f).depth = node.depth
  | .connective _ => rfl
  | .literal _ _ => rfl
  | .group _ members => by simp only [Node.map, Node.depth, depthList_mapList f members]

lemma depthList_mapList (f : μ → ν) : ∀ nodes : List (Node μ),
    Node.depthList (Node.mapList f nodes) = Node.depthList nodes
  | [] => rfl
  | node :: nodes => by
    simp only [Node.mapList, Node.depthList, depth_map f node, depthList_mapList f nodes]

end

mutual

lemma shape_map (f : μ → ν) : ∀ node : Node μ,
    (node.map f).map (fun _ => ()) = node.map fun _ => ()
  | .connective _ => rfl
  | .literal _ _ => rfl
  | .group _ members => by
    have hmembers := shape_mapList f members
    simp only [Node.shape] at hmembers
    simp only [Node.map, hmembers]
    rfl

lemma shape_mapList (f : μ → ν) : ∀ nodes : List (Node μ),
    Node.shape (Node.mapList f nodes) = Node.shape nodes
  | [] => rfl
  | node :: nodes => by
    have hnodes := shape_mapList f nodes
    simp only [Node.shape] at hnodes ⊢
    simp only [Node.mapList, shape_map f node, hnodes]

end

lemma flatten_eq_of_shape {ts : List (Node μ)} {us : List (Node ν)}
    (h : Node.shape ts = Node.shape us) : flatten ts = flatten us := by
  rw [← flatten_mapList (fun _ => ()) ts, ← flatten_mapList (fun _ => ()) us]
  exact congrArg flatten h

lemma depthList_eq_of_shape {ts : List (Node μ)} {us : List (Node ν)}
    (h : Node.shape ts = Node.shape us) : Node.depthList ts = Node.depthList us := by
  rw [← depthList_mapList (fun _ => ()) ts, ← depthList_mapList (fun _ => ()) us]
  exact congrArg Node.depthList h

lemma shape_append (ts us : List (Node μ)) :
    Node.shape (ts ++ us) = Node.shape ts ++ Node.shape us := by
  induction ts with
  | nil => rfl
  | cons t ts ih =>
    simp only [Node.shape, List.cons_append, Node.mapList] at ih ⊢
    rw [ih]

lemma flatten_append (ts us : List (Node μ)) : flatten (ts ++ us) = flatten ts ++ flatten us := by
  induction ts with
  | nil => rfl
  | cons t ts ih => simp only [List.cons_append, flatten, ih, List.append_assoc]

/-- Whether an opening parenthesis behind the components is glued. -/
def gluesAfter (glued : Bool) : List Component → Bool
  | [] => glued
  | c :: cs => gluesAfter c.glues cs

lemma gluesAfter_append (glued : Bool) (cs ds : List Component) :
    gluesAfter glued (cs ++ ds) = gluesAfter (gluesAfter glued cs) ds := by
  induction cs generalizing glued with
  | nil => rfl
  | cons c cs ih => exact ih c.glues

/-- The characters of components behind one that glues or does not. -/
def textFrom (glued : Bool) (cs : List Component) : List Char :=
  (pieces glued cs).flatMap String.toList

@[simp] lemma textFrom_nil (glued : Bool) : textFrom glued [] = [] :=
  rfl

@[simp] lemma textFrom_cons (glued : Bool) (c : Component) (cs : List Component) :
    textFrom glued (c :: cs) = (c.piece glued).toList ++ textFrom c.glues cs :=
  rfl

lemma textFrom_append (glued : Bool) (cs ds : List Component) :
    textFrom glued (cs ++ ds) = textFrom glued cs ++ textFrom (gluesAfter glued cs) ds := by
  induction cs generalizing glued with
  | nil => rfl
  | cons c cs ih => simp only [List.cons_append, textFrom_cons, gluesAfter, ih, List.append_assoc]

lemma toList_render (cs : List Component) : (render cs).toList = textFrom false cs := by
  rw [render, String.toList_join, textFrom]

def signChars (head : Head μ) : List Char :=
  head.sign?.elim [] fun s => s.toString.toList

def fieldChars (head : Head μ) : List Char :=
  head.field?.elim [] fun name => name.toList ++ [':']

def literalBlank (head : Head μ) : List Char :=
  if head.sign?.isSome then [' '] else []

def groupBlank (head : Head μ) : List Char :=
  if head.sign?.isNone && head.field?.isSome then [] else [' ']

lemma textFrom_literal {head : Head μ} {text : String} (hne : text ≠ "") (cs : List Component) :
    textFrom false ((Node.literal head text).components ++ cs) =
      literalBlank head ++ signChars head ++ fieldChars head ++ text.toList ++
        ' ' :: textFrom false cs := by
  obtain ⟨sign?, field?, mark⟩ := head
  have hempty : text.isEmpty = false := by simpa [String.isEmpty_iff] using hne
  cases sign? <;> cases field? <;>
    simp [Node.components, Head.signMarker, Head.literalComponent, literalBlank, signChars,
      fieldChars, Component.piece, Component.glues, hempty]

lemma textFrom_group (head : Head μ) (members : List (Node μ)) (cs : List Component)
    (hmembers : gluesAfter false (flatten members) = false) :
    textFrom false ((Node.group head members).components ++ cs) =
      groupBlank head ++ signChars head ++ fieldChars head ++
        '(' :: ' ' :: (textFrom false (flatten members) ++ ' ' :: ')' :: ' ' :: textFrom false cs) := by
  obtain ⟨sign?, field?, mark⟩ := head
  cases sign? <;> cases field? <;>
    simp [Node.components, Head.signMarker, Head.scope, groupBlank, signChars, fieldChars,
      Component.piece, Component.glues, textFrom_append, hmembers, Marker.toString]

end ChantSearch.Proofs

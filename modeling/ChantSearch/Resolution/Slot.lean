import ChantSearch.Index.Basic
import ChantSearch.Resolution.Group
import ChantSearch.Schema.Basic

/-!
# Slots

Before the index is asked anything, the components are cut into slots: components that are
kept as they are, and cross-referenced fields, with their groups, whose records the index is
to look up.
-/

namespace ChantSearch.Resolution

open Query (Component)
open Index (Request)

/-- What becomes of one slot. -/
inductive Slot where
  /-- The component stays. -/
  | keep (component : Component)
  /-- A value of a cross-referenced field; earlier matches weigh more. -/
  | value (field text : String) (ref : CrossRef)
  /-- A group of a cross-referenced field, as text; all matches weigh the same. -/
  | group (field subquery : String) (ref : CrossRef)
  deriving DecidableEq, Repr

/-- The slots for components behind the first `skip` of them, which belong to a group that
has its slot already. -/
def slotsFrom (schema : Schema) (skip : Nat) : List Component → Except GroupFault (List Slot)
  | [] => .ok []
  | component :: components =>
    match skip with
    | skip + 1 => slotsFrom schema skip components
    | 0 =>
      match component with
      | .field name value =>
        match schema.crossRef? name with
        | none => (slotsFrom schema 0 components).map (.keep component :: ·)
        | some ref =>
          if value.isEmpty then
            match scopedGroup 0 (component :: components) with
            | .error fault => .error fault
            | .ok group =>
              (slotsFrom schema (group.length - 1) components).map
                (.group name group.text ref :: ·)
          else
            (slotsFrom schema 0 components).map (.value name value ref :: ·)
      | _ => (slotsFrom schema 0 components).map (.keep component :: ·)

/-- The slots for a query, or the fault of the leftmost group that has one. -/
def slotsOf (schema : Schema) (components : List Component) : Except GroupFault (List Slot) :=
  slotsFrom schema 0 components

def ofType (resourceType query : String) : String :=
  s!"type:{resourceType} AND ({query})"

def Slot.request? : Slot → Option Request
  | keep _ => none
  | value _ text ref => some (.ofQuery (ofType ref.resourceType text))
  | group _ subquery _ => some (.ofQuery subquery)

end ChantSearch.Resolution

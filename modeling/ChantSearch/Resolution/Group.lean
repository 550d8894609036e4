import ChantSearch.Query.Render

/-!
# Groups among components

A field with an empty value scopes the group behind it, which reaches from the opening
marker to the closing one that matches it. Component lists need not come from a query, so a
group may lack either.
-/

namespace ChantSearch.Resolution

open Query (Component render)

/-- Why there is no group at a place. -/
inductive GroupFault where
  | noField (position : Nat)
  | unopened (field : String)
  | unclosed (field : String)
  deriving DecidableEq, Repr

def GroupFault.message : GroupFault → String
  | noField position => s!"no field at position {position}"
  | unopened field => s!"expected \"(\" after \"{field}:\""
  | unclosed field => s!"unbalanced parentheses after \"{field}:\""

/-- The number of components up to the marker that closes the outermost of the groups that
are open, of which there are `depth`. -/
def closingAt (depth : Nat) : List Component → Option Nat
  | [] => none
  | .marker .opening :: components => (closingAt (depth + 1) components).map (· + 1)
  | .marker .closing :: components =>
    if depth ≤ 1 then some 1 else (closingAt (depth - 1) components).map (· + 1)
  | _ :: components => (closingAt depth components).map (· + 1)

/-- The components and the text of a field with the group it scopes. -/
structure ScopedGroup where
  length : Nat
  text : String
  deriving DecidableEq, Repr

/-- The field at the front of the components with its group. Faults tell the position. -/
def scopedGroup (position : Nat) (components : List Component) :
    Except GroupFault ScopedGroup :=
  match components.head?.bind Component.fieldName? with
  | none => .error (.noField position)
  | some field =>
    match components.tail with
    | .marker .opening :: members =>
      match closingAt 1 members with
      | none => .error (.unclosed field)
      | some n => .ok ⟨n + 2, render (components.take (n + 2))⟩
    | _ => .error (.unopened field)

def scopedGroupAt (components : List Component) (position : Nat) :
    Except GroupFault ScopedGroup :=
  scopedGroup position (components.drop position)

end ChantSearch.Resolution

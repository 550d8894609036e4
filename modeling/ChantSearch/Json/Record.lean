import ChantSearch.Json.Skip

/-!
# Reading records

A record of known members is read from an object, in which other members are left out and no
known member occurs twice, or from an array of its members in their order. An array may end
early; which members may be missing is for the owner of the record to say.
-/

namespace ChantSearch.Json

/-- A member of a record: its name, and how it is read into a partly read record. -/
structure Member (σ : Type) where
  name : String
  read : σ → Reader σ

namespace Reader

variable {σ α : Type}

/-- A member that is kept in a slot of the partly read record, which must still be empty. -/
def slot (name : String) (get : σ → Option α) (put : σ → α → σ) (value : Reader α) :
    Member σ where
  name := name
  read s := do
    if (get s).isSome then failure
    pure (put s (← value))

def objectMember (known : List (Member σ)) (s : σ) : Reader σ := do
  let name ← memberName
  match known.find? (·.name == name) with
  | some member => member.read s
  | none =>
    skip
    pure s

def arrayMember : List (Member σ) × σ → Reader (List (Member σ) × σ)
  | ([], _) => failure
  | (member :: others, s) => do pure (others, ← member.read s)

/-- A record with the given members, starting from an empty one. -/
def record (known : List (Member σ)) (empty : σ) : Reader σ := do
  match ← peek with
  | 0x7b =>
    let _ ← byte
    sequence 0x7d (objectMember known) empty
  | 0x5b =>
    let _ ← byte
    let (_, s) ← sequence 0x5d arrayMember (known, empty)
    pure s
  | _ => failure

def demand (value? : Option α) : Reader α :=
  match value? with
  | some a => pure a
  | none => failure

end Reader

end ChantSearch.Json

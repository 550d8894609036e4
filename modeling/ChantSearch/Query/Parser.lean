import ChantSearch.Query.Attempt

/-!
# Parsers with a trace

A parser reads a value off the front of a text, or fails. Either way it reports the attempts
it made. The result never depends on the trace, so the two can be studied apart: the result
equations below are those of a parser without a trace.
-/

namespace ChantSearch.Query

/-- What is left of a text, and the byte offset it starts at. -/
structure Cursor where
  offset : Nat
  rest : List Char
  deriving DecidableEq, Repr

def byteLength : List Char → Nat
  | [] => 0
  | c :: cs => c.utf8Size + byteLength cs

def Cursor.ofString (text : String) : Cursor :=
  ⟨0, text.toList⟩

/-- The cursor behind some characters that were read, in front of the rest. -/
def Cursor.past (c : Cursor) (read rest : List Char) : Cursor :=
  ⟨c.offset + byteLength read, rest⟩

/-- The value read and the cursor behind it, if there is one, and the attempts made. -/
structure Outcome (α : Type) where
  result : Option (α × Cursor)
  trace : List Attempt

def Parser (α : Type) : Type :=
  Cursor → Outcome α

namespace Parser

variable {α β : Type}

protected def pure (a : α) : Parser α :=
  fun c => ⟨some (a, c), []⟩

protected def bind (p : Parser α) (f : α → Parser β) : Parser β := fun c =>
  match p c with
  | ⟨none, trace⟩ => ⟨none, trace⟩
  | ⟨some (a, next), trace⟩ =>
    let second := f a next
    ⟨second.result, trace ++ second.trace⟩

instance : Monad Parser where
  pure := Parser.pure
  bind := Parser.bind

def fail : Parser α :=
  fun _ => ⟨none, []⟩

def orElse (p q : Parser α) : Parser α := fun c =>
  match p c with
  | ⟨none, trace⟩ =>
    let second := q c
    ⟨second.result, trace ++ second.trace⟩
  | found => found

def rule (r : Rule) (p : Parser α) : Parser α := fun c =>
  let inner := p c
  ⟨inner.result, [.rule r c.offset inner.trace inner.result.isSome]⟩

def absent (p : Parser α) : Parser Unit := fun c =>
  let inner := p c
  ⟨if inner.result.isSome then none else some ((), c), [.absence inner.trace]⟩

def optional (p : Parser α) : Parser (Option α) :=
  orElse (do pure (some (← p))) (pure none)

/-- The parser as often as it succeeds, but no more than `limit` times. -/
def many (limit : Nat) (p : Parser α) : Parser (List α) :=
  match limit with
  | 0 => pure []
  | limit + 1 => fun c =>
    match p c with
    | ⟨none, trace⟩ => ⟨some ([], c), trace⟩
    | ⟨some (a, next), trace⟩ =>
      let others := many limit p next
      ⟨others.result.map fun (as, stop) => (a :: as, stop), trace ++ others.trace⟩

def offset : Parser Nat :=
  fun c => ⟨some (c.offset, c), []⟩

/-- The characters that `scan` separates from the front of the text. -/
def scanned (scan : List Char → Option (List Char × List Char)) : Parser String := fun c =>
  match scan c.rest with
  | none => ⟨none, []⟩
  | some (read, rest) => ⟨some (String.ofList read, c.past read rest), []⟩

def satisfying (accept : Char → Bool) : Parser Char := fun c =>
  match c.rest with
  | [] => ⟨none, []⟩
  | d :: rest => if accept d then ⟨some (d, c.past [d] rest), []⟩ else ⟨none, []⟩

def characters (cs : List Char) : Parser Unit := fun c =>
  if cs.isPrefixOf c.rest then ⟨some ((), c.past cs (c.rest.drop cs.length)), []⟩ else ⟨none, []⟩

def skipping (accept : Char → Bool) : Parser Unit := fun c =>
  ⟨some ((), c.past (c.rest.takeWhile accept) (c.rest.dropWhile accept)), []⟩

def atEnd : Parser Unit := fun c =>
  ⟨if c.rest.isEmpty then some ((), c) else none, []⟩

@[simp] theorem result_pure (a : α) (c : Cursor) : ((pure a : Parser α) c).result = some (a, c) :=
  rfl

@[simp] theorem result_bind (p : Parser α) (f : α → Parser β) (c : Cursor) :
    ((p >>= f) c).result = (p c).result.bind fun (a, next) => (f a next).result := by
  change (Parser.bind p f c).result = _
  unfold Parser.bind
  split <;> simp_all

@[simp] theorem result_fail (c : Cursor) : ((fail : Parser α) c).result = none :=
  rfl

@[simp] theorem result_orElse (p q : Parser α) (c : Cursor) :
    (orElse p q c).result = (p c).result.or (q c).result := by
  unfold orElse
  split
  · simp_all
  · rename_i h
    cases hr : (p c).result with
    | none => exact absurd (by rw [← hr]) (h (p c).trace)
    | some _ => simp

@[simp] theorem result_rule (r : Rule) (p : Parser α) (c : Cursor) :
    (rule r p c).result = (p c).result :=
  rfl

@[simp] theorem result_absent (p : Parser α) (c : Cursor) :
    (absent p c).result = if (p c).result.isSome then none else some ((), c) :=
  rfl

@[simp] theorem result_many_zero (p : Parser α) (c : Cursor) :
    (many 0 p c).result = some ([], c) :=
  rfl

@[simp] theorem result_many_succ (limit : Nat) (p : Parser α) (c : Cursor) :
    (many (limit + 1) p c).result =
      match (p c).result with
      | none => some ([], c)
      | some (a, next) => (many limit p next).result.map fun (as, stop) => (a :: as, stop) := by
  simp only [many]
  split <;> simp_all

@[simp] theorem result_offset (c : Cursor) : (offset c).result = some (c.offset, c) :=
  rfl

@[simp] theorem result_skipping (accept : Char → Bool) (c : Cursor) :
    (skipping accept c).result =
      some ((), c.past (c.rest.takeWhile accept) (c.rest.dropWhile accept)) :=
  rfl

end Parser

end ChantSearch.Query

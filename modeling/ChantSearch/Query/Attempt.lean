/-!
# Where a reading failed

While the grammar is evaluated it keeps a trace of the rules it attempted. When the whole
reading fails, the trace is condensed to a diagnosis: the furthest position that a failed rule
started from, the rules expected there, and the rules found there that had to be absent.
-/

namespace ChantSearch.Query

/-- The rules of the grammar that a diagnosis can name, in the order it names them. -/
inductive Rule where
  | endOfInput
  | query
  | termList
  | term
  | namedField
  | defaultField
  | fieldValue
  | groupedTermList
  | sign
  | connective
  | fieldName
  | text
  | quotedText
  | wildcard
  deriving DecidableEq, Repr

def Rule.all : List Rule :=
  [endOfInput, query, termList, term, namedField, defaultField, fieldValue, groupedTermList,
   sign, connective, fieldName, text, quotedText, wildcard]

def Rule.name : Rule → String
  | endOfInput => "EOI"
  | query => "query"
  | termList => "term_list"
  | term => "term"
  | namedField => "named_field"
  | defaultField => "default_field"
  | fieldValue => "field_value"
  | groupedTermList => "grouped_term_list"
  | sign => "boolean_singleton"
  | connective => "boolean_infix"
  | fieldName => "field_name"
  | text => "text"
  | quotedText => "quoted_text"
  | wildcard => "wildcard"

/-- A step of an evaluation: a rule tried at a byte offset, with the steps it took, or the
steps taken to make sure that something is absent. -/
inductive Attempt where
  | rule (rule : Rule) (start : Nat) (inner : List Attempt) (succeeded : Bool)
  | absence (inner : List Attempt)
  deriving Repr

/-- Whether the rules under way are looked for, or looked for in order to be refused. -/
inductive Polarity where
  | sought
  | refused
  deriving DecidableEq, Repr

def Polarity.flip : Polarity → Polarity
  | sought => refused
  | refused => sought

/-- What is known about the furthest failures so far. -/
structure Diagnosis where
  position : Nat
  expected : List Rule
  unexpected : List Rule
  deriving DecidableEq, Repr

namespace Diagnosis

def empty : Diagnosis := ⟨0, [], []⟩

def count (d : Diagnosis) (offset : Nat) : Nat :=
  if offset = d.position then d.expected.length + d.unexpected.length else 0

/-- The diagnosis without what was noted at an offset since it was `before`. -/
def rewind (d before : Diagnosis) (offset : Nat) : Diagnosis :=
  if offset = d.position then
    if offset = before.position then
      { d with
        expected := d.expected.take before.expected.length
        unexpected := d.unexpected.take before.unexpected.length }
    else
      { d with expected := [], unexpected := [] }
  else
    d

/-- The diagnosis moved on to an offset, if that is further than its position. -/
def advance (d : Diagnosis) (offset : Nat) : Diagnosis :=
  if d.position < offset then ⟨offset, [], []⟩ else d

/-- The diagnosis with a rule added, if the offset is its position. -/
def add (d : Diagnosis) (polarity : Polarity) (rule : Rule) (offset : Nat) : Diagnosis :=
  if offset = d.position then
    match polarity with
    | .sought => { d with expected := d.expected ++ [rule] }
    | .refused => { d with unexpected := d.unexpected ++ [rule] }
  else
    d

/-- Note a rule that was tried at an offset. It stands for what was noted inside it since
`before`, unless that is a single rule, which says more than the rule around it. -/
def note (d before : Diagnosis) (polarity : Polarity) (rule : Rule) (offset : Nat) : Diagnosis :=
  if d.count offset - before.count offset = 1 then
    d
  else
    ((d.rewind before offset).advance offset).add polarity rule offset

end Diagnosis

/-- A sought rule is reported when it fails, a refused one when it succeeds. -/
def Polarity.reports : Polarity → Bool → Bool
  | sought, succeeded => !succeeded
  | refused, succeeded => succeeded

mutual

def Diagnosis.observe (polarity : Polarity) (d : Diagnosis) : Attempt → Diagnosis
  | .rule rule start inner succeeded =>
    let after := Diagnosis.observeAll polarity d inner
    if polarity.reports succeeded then after.note d polarity rule start else after
  | .absence inner => Diagnosis.observeAll polarity.flip d inner

def Diagnosis.observeAll (polarity : Polarity) (d : Diagnosis) : List Attempt → Diagnosis
  | [] => d
  | attempt :: attempts =>
    Diagnosis.observeAll polarity (Diagnosis.observe polarity d attempt) attempts

end

def Diagnosis.ofTrace (trace : List Attempt) : Diagnosis :=
  Diagnosis.observeAll .sought .empty trace

/-- Names in a sentence: separated by commas, with an "or" before the last. -/
def enumerate : List String → String
  | [] => ""
  | [a] => a
  | [a, b] => a ++ " or " ++ b
  | names => ", ".intercalate names.dropLast ++ ", or " ++ (names.getLast?.getD "")

def Rule.sorted (rules : List Rule) : List Rule :=
  Rule.all.filter rules.contains

def Diagnosis.message (d : Diagnosis) : String :=
  let names (rules : List Rule) := enumerate ((Rule.sorted rules).map Rule.name)
  match d.expected, d.unexpected with
  | [], [] => "unknown parsing error"
  | expected, [] => "expected " ++ names expected
  | [], unexpected => "unexpected " ++ names unexpected
  | expected, unexpected => "unexpected " ++ names unexpected ++ "; expected " ++ names expected

end ChantSearch.Query

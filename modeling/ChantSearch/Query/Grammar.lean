import ChantSearch.Query.Alphabet
import ChantSearch.Query.Parser
import ChantSearch.Query.Tree

/-!
# The grammar of queries

Terms are separated by a connective or by at least one blank. A field name is glued to its
colon and its value. A text holds at most one wildcard and ends where the term ends, so two
texts never stand side by side. Choices take their first alternative that succeeds.
-/

namespace ChantSearch.Query

open ChantSearch.Query.Parser

/-- A wildcard at the front of a text: an asterisk or a run of question marks. -/
def scanWildcard : List Char → Option (List Char × List Char)
  | '*' :: rest => some (['*'], rest)
  | '?' :: rest => some ('?' :: rest.takeWhile (· == '?'), rest.dropWhile (· == '?'))
  | _ => none

/-- A run of characters of a class with at most one wildcard in it, and the rest. -/
def scanWithWildcard (accept : Char → Bool) (cs : List Char) : List Char × List Char :=
  let front := cs.takeWhile accept
  match scanWildcard (cs.dropWhile accept) with
  | none => (front, cs.dropWhile accept)
  | some (mark, rest) => (front ++ mark ++ rest.takeWhile accept, rest.dropWhile accept)

def endsText : List Char → Bool
  | [] => true
  | c :: _ => !(isTextChar c || c == '*' || c == '?' || c == '"')

def scanText (cs : List Char) : Option (List Char × List Char) :=
  let (read, rest) := scanWithWildcard isTextChar cs
  if read.isEmpty || !endsText rest then none else some (read, rest)

def scanQuotedText : List Char → Option (List Char × List Char)
  | '"' :: cs =>
    match scanWithWildcard isQuotedChar cs with
    | (read, '"' :: rest) => some ('"' :: read ++ ['"'], rest)
    | _ => none
  | _ => none

def scanFieldName (cs : List Char) : Option (List Char × List Char) :=
  let name := cs.takeWhile isNameChar
  if name.isEmpty then none else some (name, cs.dropWhile isNameChar)

def blanks : Parser Unit :=
  skipping isBlank

def wildcard : Parser String :=
  rule .wildcard (scanned scanWildcard)

/-- What continues a word, so that a keyword cannot end in front of it. -/
def wordContinuation : Parser Unit :=
  orElse (do let _ ← satisfying isTextChar) (do let _ ← wildcard)

def spelling (c : Connective) : Parser Connective := do
  characters c.toString.toList
  pure c

/-- A connective written as a word, with no more of the word behind it. -/
def keyword : Parser Connective := do
  let c ← orElse (spelling .and) (orElse (spelling .or) (spelling .not))
  absent wordContinuation
  pure c

def connective : Parser Connective :=
  rule .connective (orElse (spelling .ampersands) (orElse (spelling .pipes) keyword))

def signSpelling (s : Sign) : Parser Sign := do
  characters s.toString.toList
  pure s

def sign : Parser Sign :=
  rule .sign (orElse (signSpelling .bang) (orElse (signSpelling .plus) (signSpelling .minus)))

/-- What stands between two terms: a connective, or at least one blank. -/
def separator : Parser (Option Connective) :=
  orElse
    (do
      blanks
      let c ← connective
      blanks
      pure (some c))
    (do
      let _ ← satisfying isBlank
      blanks
      pure none)

/-- The value of a term: a text or a group. -/
inductive Value where
  | literal (text : String)
  | group (members : Tree)

def Value.toNode (head : Head Span) : Value → Node Span
  | literal text => .literal head text
  | group members => .group head members

def fieldValue (group : Parser Tree) : Parser Value :=
  rule .fieldValue <|
    orElse (do return .literal (← rule .quotedText (scanned scanQuotedText))) <|
    orElse (do return .literal (← rule .text (scanned scanText))) <|
    do return .group (← group)

/-- A field name, a colon and a value, with nothing between them. -/
def namedField (group : Parser Tree) : Parser (Option String × Value) :=
  rule .namedField do
    let name ← rule .fieldName (scanned scanFieldName)
    characters [':']
    let value ← fieldValue group
    pure (some name, value)

def defaultField (group : Parser Tree) : Parser (Option String × Value) :=
  rule .defaultField do
    let value ← fieldValue group
    pure (none, value)

def term (group : Parser Tree) : Parser (Node Span) :=
  rule .term do
    absent keyword
    let start ← offset
    let sign? ← optional sign
    let (field?, value) ← orElse (namedField group) (defaultField group)
    let stop ← offset
    pure (value.toNode ⟨sign?, field?, ⟨start, stop⟩⟩)

/-- A further term of a list, with the connective before it. -/
def furtherTerm (group : Parser Tree) : Parser Tree := do
  let connective? ← separator
  let node ← term group
  pure (connective?.toList.map .connective ++ [node])

def termList (limit : Nat) (group : Parser Tree) : Parser Tree :=
  rule .termList do
    let first ← term group
    let others ← many limit (furtherTerm group)
    pure (first :: others.flatten)

/-- Terms in parentheses, with groups nested in each other up to a depth. -/
def groupedTermList (limit depth : Nat) : Parser Tree :=
  match depth with
  | 0 => rule .groupedTermList fail
  | depth + 1 =>
    rule .groupedTermList do
      characters ['(']
      blanks
      let members ← termList limit (groupedTermList limit depth)
      blanks
      characters [')']
      pure members

/-- A whole query. Lists have at most `limit` further terms, and groups nest up to `depth`. -/
def query (limit depth : Nat) : Parser Tree :=
  rule .query do
    blanks
    let nodes ← termList limit (groupedTermList limit depth)
    blanks
    rule .endOfInput atEnd
    pure nodes

end ChantSearch.Query

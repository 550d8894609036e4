import ChantSearch.Json.Numeral

/-!
# Reading JSON

Reads strict JSON from bytes. Arrays and objects nest up to a depth of 127, texts are valid
UTF-8, and surrogate escapes come in pairs.
-/

namespace ChantSearch.Json

/-- Reads a value off the front of some bytes, or fails. It is told a number of steps that no
loop over the bytes exceeds. -/
abbrev Reader := ReaderT Nat (StateT (List UInt8) Option)

def isBlank (b : UInt8) : Bool :=
  b == 0x20 || b == 0x09 || b == 0x0d || b == 0x0a

namespace Reader

def blanks : Reader Unit :=
  modify (List.dropWhile isBlank)

def peek : Reader UInt8 := do
  blanks
  match ← get with
  | [] => failure
  | b :: _ => pure b

def byte : Reader UInt8 := do
  match ← get with
  | [] => failure
  | b :: rest =>
    set rest
    pure b

def expect (b : UInt8) : Reader Unit := do
  blanks
  if (← byte) == b then pure () else failure

/-- Whether a given byte comes next behind blanks. If so, it is taken. -/
def accepts (b : UInt8) : Reader Bool := do
  if (← peek) == b then
    let _ ← byte
    pure true
  else
    pure false

def bytes (expected : List UInt8) : Reader Unit := do
  let input ← get
  if expected.isPrefixOf input then set (input.drop expected.length) else failure

def scanned {α : Type} (scan : List UInt8 → Option (α × List UInt8)) : Reader α :=
  fun _ => scan

def hexValue (b : UInt8) : Option Nat :=
  if 0x30 ≤ b && b ≤ 0x39 then some (b.toNat - 0x30)
  else if 0x41 ≤ b && b ≤ 0x46 then some (b.toNat - 0x41 + 10)
  else if 0x61 ≤ b && b ≤ 0x66 then some (b.toNat - 0x61 + 10)
  else none

def hexUnit (a b c d : UInt8) : Option Nat := do
  some (((← hexValue a) * 16 + (← hexValue b)) * 256 + ((← hexValue c) * 16 + (← hexValue d)))

def simpleEscape (b : UInt8) : Option UInt8 :=
  match b with
  | 0x22 => some 0x22
  | 0x5c => some 0x5c
  | 0x2f => some 0x2f
  | 0x62 => some 0x08
  | 0x66 => some 0x0c
  | 0x6e => some 0x0a
  | 0x72 => some 0x0d
  | 0x74 => some 0x09
  | _ => none

/-- Whether a 16-bit unit is the first half of a surrogate pair. -/
def isHighSurrogate (unit : Nat) : Bool :=
  0xd800 ≤ unit && unit ≤ 0xdbff

/-- Whether a 16-bit unit is the second half of a surrogate pair. -/
def isLowSurrogate (unit : Nat) : Bool :=
  0xdc00 ≤ unit && unit ≤ 0xdfff

/-- The bytes of a character in front of the reversed bytes of a text. -/
def pushChar (code : Nat) (read : List UInt8) : List UInt8 :=
  (Char.ofNat code).toString.toUTF8.toList.reverse ++ read

/-- The bytes of a text up to its closing quote, put reversed in front of `read`, and the
input behind the quote. -/
def textBytes (read : List UInt8) : List UInt8 → Option (List UInt8 × List UInt8)
  | [] => none
  | 0x22 :: rest => some (read, rest)
  | 0x5c :: 0x75 :: a :: b :: c :: d :: rest =>
    match hexUnit a b c d with
    | none => none
    | some unit =>
      if isLowSurrogate unit then
        none
      else if isHighSurrogate unit then
        match rest with
        | 0x5c :: 0x75 :: e :: f :: g :: h :: rest =>
          match hexUnit e f g h with
          | none => none
          | some second =>
            if isLowSurrogate second then
              let code := 0x10000 + (unit - 0xd800) * 0x400 + (second - 0xdc00)
              textBytes (pushChar code read) rest
            else
              none
        | _ => none
      else
        textBytes (pushChar unit read) rest
  | 0x5c :: b :: rest =>
    match simpleEscape b with
    | none => none
    | some c => textBytes (c :: read) rest
  | b :: rest => if b < 0x20 then none else textBytes (b :: read) rest

def textBody : Reader String := do
  let read ← scanned (textBytes [])
  match String.fromUTF8? ⟨read.reverse.toArray⟩ with
  | some s => pure s
  | none => failure

def text : Reader String := do
  expect 0x22
  textBody

/-- Continue a sequence behind one of its items: a comma and a further item, or the closing
byte. Every item is read into the value gathered so far. -/
def continued {σ : Type} (close : UInt8) (item : σ → Reader σ) (fuel : Nat) (s : σ) :
    Reader σ :=
  match fuel with
  | 0 => failure
  | fuel + 1 => do
    if ← accepts close then
      pure s
    else
      expect 0x2c
      continued close item fuel (← item s)

/-- A sequence behind its opening byte, with commas between its items. -/
def sequence {σ : Type} (close : UInt8) (item : σ → Reader σ) (start : σ) : Reader σ := do
  if ← accepts close then
    pure start
  else
    let s ← item start
    continued close item (← read) s

def items {α : Type} (item : Reader α) : Reader (List α) := do
  let read ← sequence 0x5d (fun read => do pure ((← item) :: read)) []
  pure read.reverse

def memberName : Reader String := do
  let name ← text
  expect 0x3a
  pure name

/-- The members of an object behind its opening brace. Of members with equal names the last
one stays. -/
def members {α : Type} (value : Reader α) : Reader (List (String × α)) :=
  sequence 0x7d
    (fun read => do
      let name ← memberName
      pure (insertMember name (← value) read))
    []

def number : Reader Number := do
  let numeral ← scanned Numeral.scan
  match numeral.number? with
  | some n => pure n
  | none => failure

/-- A value whose arrays and objects are read, behind their opening byte, by the given
readers. -/
def valueWith (array object : Reader Value) : Reader Value := do
  match ← peek with
  | 0x6e => do bytes [0x6e, 0x75, 0x6c, 0x6c]; pure .null
  | 0x74 => do bytes [0x74, 0x72, 0x75, 0x65]; pure (.bool true)
  | 0x66 => do bytes [0x66, 0x61, 0x6c, 0x73, 0x65]; pure (.bool false)
  | 0x22 => do pure (.text (← text))
  | 0x5b => do let _ ← byte; array
  | 0x7b => do let _ ← byte; object
  | _ => do pure (.number (← number))

/-- A value whose arrays and objects nest up to a depth. -/
def value (depth : Nat) : Reader Value :=
  match depth with
  | 0 => valueWith failure failure
  | depth + 1 =>
    valueWith (do pure (.array (← items (value depth))))
      (do pure (.object (← members (value depth))))

def maxDepth : Nat := 127

/-- Read all of some bytes, with blanks allowed at the end. -/
def run? {α : Type} (reader : Reader α) (input : List UInt8) : Option α :=
  match reader (input.length + 1) input with
  | some (a, rest) => if rest.all isBlank then some a else none
  | none => none

end Reader

def parseBytes (input : List UInt8) : Option Value :=
  (Reader.value Reader.maxDepth).run? input

def parse (input : String) : Option Value :=
  parseBytes input.toUTF8.toList

end ChantSearch.Json

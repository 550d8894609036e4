import ChantSearch.Json.Reader

/-!
# Leaving out JSON

A value that nobody asks for is left out: only its form is checked. It may nest to any depth,
its numbers may be out of range, and its texts may hold stray surrogate escapes and bytes
that are not UTF-8.
-/

namespace ChantSearch.Json

/-- An array or object that is open. -/
inductive Frame where
  | array
  | object
  deriving DecidableEq, Repr

def Frame.close : Frame → UInt8
  | array => 0x5d
  | object => 0x7d

def skipText : List UInt8 → Option (List UInt8)
  | [] => none
  | 0x22 :: rest => some rest
  | 0x5c :: 0x75 :: a :: b :: c :: d :: rest =>
    if (Reader.hexUnit a b c d).isSome then skipText rest else none
  | 0x5c :: b :: rest => if (Reader.simpleEscape b).isSome then skipText rest else none
  | b :: rest => if b < 0x20 then none else skipText rest

def skipBytes (expected input : List UInt8) : Option (List UInt8) :=
  if expected.isPrefixOf input then some (input.drop expected.length) else none

/-- The input behind a value that is neither array nor object. -/
def skipScalar : List UInt8 → Option (List UInt8)
  | 0x22 :: rest => skipText rest
  | 0x6e :: rest => skipBytes [0x75, 0x6c, 0x6c] rest
  | 0x74 :: rest => skipBytes [0x72, 0x75, 0x65] rest
  | 0x66 :: rest => skipBytes [0x61, 0x6c, 0x73, 0x65] rest
  | input => (Numeral.scan input).map (·.2)

def skipName (input : List UInt8) : Option (List UInt8) :=
  match input.dropWhile isBlank with
  | 0x22 :: rest =>
    match (skipText rest).map (List.dropWhile isBlank) with
    | some (0x3a :: rest) => some rest
    | _ => none
  | _ => none

/-- Leave out what is open. At the start of a value `before` is true; behind one it is false,
and the frame that the value stands in is continued or closed. Every step takes a byte, except
the one from the start of a scalar to its end. -/
def skipFrom (fuel : Nat) (before : Bool) (frames : List Frame) (input : List UInt8) :
    Option (List UInt8) :=
  match fuel with
  | 0 => none
  | fuel + 1 =>
    let input := input.dropWhile isBlank
    if before then
      match input with
      | 0x5b :: rest =>
        match rest.dropWhile isBlank with
        | 0x5d :: rest => skipFrom fuel false frames rest
        | rest => skipFrom fuel true (.array :: frames) rest
      | 0x7b :: rest =>
        match rest.dropWhile isBlank with
        | 0x7d :: rest => skipFrom fuel false frames rest
        | rest =>
          match skipName rest with
          | some rest => skipFrom fuel true (.object :: frames) rest
          | none => none
      | input =>
        match skipScalar input with
        | some rest => skipFrom fuel false frames rest
        | none => none
    else
      match frames, input with
      | [], input => some input
      | _, [] => none
      | frame :: frames, b :: rest =>
        if b = frame.close then
          skipFrom fuel false frames rest
        else if b = 0x2c then
          match frame with
          | .array => skipFrom fuel true (frame :: frames) rest
          | .object =>
            match skipName rest with
            | some rest => skipFrom fuel true (frame :: frames) rest
            | none => none
        else
          none

def Reader.skip : Reader Unit := fun limit input =>
  (skipFrom (2 * limit) true [] input).map fun rest => ((), rest)

end ChantSearch.Json

import ReferenceSystem.Stream

/-!
# JSON over bytes

Values, a reader of the JSON grammar and a compact writer. Texts are byte
strings: in a string, bytes from 0x80 on stand for themselves, and an escaped
code point for its UTF-8 encoding. A number is its decimal mantissa and
exponent. Objects keep their members in the order of the text. What the writer
writes is read back as it was, and has no control characters.
-/

namespace ReferenceSystem

inductive Json where
  | null
  | bool (value : Bool)
  | num (mantissa exponent : Int)
  | str (value : List UInt8)
  | arr (elements : List Json)
  | obj (members : List (List UInt8 × Json))

namespace Json

/-- A whole number. -/
def int (n : Int) : Json := .num n 0

/-! ## Reading -/

def isBlank (c : UInt8) : Bool := c == 32 || c == 9 || c == 10 || c == 13

def skipBlank (input : List UInt8) : List UInt8 := input.dropWhile isBlank

/-- One or more digits. -/
def readDigits : Extraction (List UInt8) := fun input =>
  match input.takeWhile isDigit with
  | [] => none
  | digits => some (digits, input.dropWhile isDigit)

/-- The whole part: no leading zero. -/
def readWhole : Extraction (List UInt8) := fun input =>
  match readDigits input with
  | none => none
  | some (digits, rest) => if digits.head? = some 48 ∧ digits.length ≠ 1 then none else some (digits, rest)

def readFraction (input : List UInt8) : Option (List UInt8 × List UInt8) :=
  match input with
  | 46 :: rest => readDigits rest
  | _ => some ([], input)

def readExponent (input : List UInt8) : Option (Int × List UInt8) :=
  match input with
  | c :: rest =>
    if c = 101 ∨ c = 69 then
      let (negative, rest) := extractSign rest
      (readDigits rest).map fun (digits, rest) => (if negative then -(digitsValue digits : Int) else digitsValue digits, rest)
    else some (0, input)
  | [] => some (0, input)

def readMinus : List UInt8 → Bool × List UInt8
  | 45 :: rest => (true, rest)
  | rest => (false, rest)

def readNumber : Extraction Json := fun input => do
  let (whole, rest) ← readWhole (readMinus input).2
  let (fraction, rest) ← readFraction rest
  let (exponent, rest) ← readExponent rest
  let magnitude : Int := digitsValue (whole ++ fraction)
  return (.num (if (readMinus input).1 then -magnitude else magnitude) (exponent - fraction.length), rest)

def hexValue (c : UInt8) : Option Nat :=
  if 48 ≤ c ∧ c ≤ 57 then some (c.toNat - 48)
  else if 97 ≤ c ∧ c ≤ 102 then some (c.toNat - 87)
  else if 65 ≤ c ∧ c ≤ 70 then some (c.toNat - 55)
  else none

def readCodeUnit : Extraction Nat := fun input =>
  match input with
  | a :: b :: c :: d :: rest => do
    let a ← hexValue a
    let b ← hexValue b
    let c ← hexValue c
    let d ← hexValue d
    return (((a * 16 + b) * 16 + c) * 16 + d, rest)
  | _ => none

def utf8 (n : Nat) : List UInt8 :=
  if n < 0x80 then [UInt8.ofNat n]
  else if n < 0x800 then [UInt8.ofNat (0xC0 + n / 64), UInt8.ofNat (0x80 + n % 64)]
  else if n < 0x10000 then
    [UInt8.ofNat (0xE0 + n / 4096), UInt8.ofNat (0x80 + n / 64 % 64), UInt8.ofNat (0x80 + n % 64)]
  else
    [UInt8.ofNat (0xF0 + n / 262144), UInt8.ofNat (0x80 + n / 4096 % 64), UInt8.ofNat (0x80 + n / 64 % 64),
      UInt8.ofNat (0x80 + n % 64)]

/-- What follows `\u`: a code unit, or a surrogate pair. -/
def readCodePoint : Extraction (List UInt8) := fun input =>
  match readCodeUnit input with
  | none => none
  | some (high, rest) =>
    if 0xD800 ≤ high ∧ high < 0xDC00 then
      match rest with
      | 92 :: 117 :: rest =>
        match readCodeUnit rest with
        | none => none
        | some (low, rest) =>
          if 0xDC00 ≤ low ∧ low < 0xE000 then
            some (utf8 (0x10000 + (high - 0xD800) * 1024 + (low - 0xDC00)), rest)
          else none
      | _ => none
    else if 0xDC00 ≤ high ∧ high < 0xE000 then none
    else some (utf8 high, rest)

/-- What follows a backslash. -/
def readEscape : Extraction (List UInt8) := fun input =>
  match input with
  | [] => none
  | c :: rest =>
    if c = 117 then readCodePoint rest
    else if c = 34 ∨ c = 92 ∨ c = 47 then some ([c], rest)
    else if c = 98 then some ([8], rest)
    else if c = 102 then some ([12], rest)
    else if c = 110 then some ([10], rest)
    else if c = 114 then some ([13], rest)
    else if c = 116 then some ([9], rest)
    else none

/-- A string after its opening quote. -/
def readChars : Nat → Extraction (List UInt8)
  | 0, _ => none
  | _ + 1, [] => none
  | n + 1, c :: rest =>
    if c = 34 then some ([], rest)
    else if c < 32 then none
    else if c = 92 then do
      let (char, rest) ← readEscape rest
      let (chars, rest) ← readChars n rest
      return (char ++ chars, rest)
    else do
      let (chars, rest) ← readChars n rest
      return (c :: chars, rest)

def readString : Extraction (List UInt8) := fun input => readChars (input.length + 1) input

def readWord (word : List UInt8) (value : Json) : Extraction Json := fun input =>
  if word.isPrefixOf input then some (value, input.drop word.length) else none

mutual

/-- A value. Each level of nesting takes some of the fuel. -/
def readValue : Nat → Extraction Json
  | 0, _ => none
  | n + 1, input =>
    match skipBlank input with
    | [] => none
    | c :: rest =>
      if c = 123 then
        match skipBlank rest with
        | 125 :: rest => some (.obj [], rest)
        | rest => (readMembers n rest).map fun (members, rest) => (.obj members, rest)
      else if c = 91 then
        match skipBlank rest with
        | 93 :: rest => some (.arr [], rest)
        | rest => (readElements n rest).map fun (elements, rest) => (.arr elements, rest)
      else if c = 34 then (readString rest).map fun (value, rest) => (.str value, rest)
      else if c = 110 then readWord [110, 117, 108, 108] .null (c :: rest)
      else if c = 116 then readWord [116, 114, 117, 101] (.bool true) (c :: rest)
      else if c = 102 then readWord [102, 97, 108, 115, 101] (.bool false) (c :: rest)
      else readNumber (c :: rest)

/-- The elements of an array up to its closing bracket. -/
def readElements : Nat → Extraction (List Json)
  | 0, _ => none
  | n + 1, input => do
    let (element, input) ← readValue n input
    match skipBlank input with
    | 44 :: rest =>
      let (elements, rest) ← readElements n rest
      return (element :: elements, rest)
    | 93 :: rest => return ([element], rest)
    | _ => none

/-- The members of an object up to its closing brace. -/
def readMembers : Nat → Extraction (List (List UInt8 × Json))
  | 0, _ => none
  | n + 1, input =>
    match skipBlank input with
    | 34 :: rest => do
      let (key, rest) ← readString rest
      match skipBlank rest with
      | 58 :: rest => do
        let (value, rest) ← readValue n rest
        match skipBlank rest with
        | 44 :: rest =>
          let (members, rest) ← readMembers n rest
          return ((key, value) :: members, rest)
        | 125 :: rest => return ([(key, value)], rest)
        | _ => none
      | _ => none
    | _ => none

end

def decode (text : List UInt8) : Option Json :=
  match readValue (text.length + 1) text with
  | none => none
  | some (value, rest) => if skipBlank rest = [] then some value else none

/-! ## Writing -/

def hexDigit (n : Nat) : UInt8 := if n < 10 then UInt8.ofNat (48 + n) else UInt8.ofNat (87 + n)

def escapeByte (c : UInt8) : List UInt8 :=
  if c = 34 ∨ c = 92 then [92, c]
  else if c = 8 then [92, 98]
  else if c = 12 then [92, 102]
  else if c = 10 then [92, 110]
  else if c = 13 then [92, 114]
  else if c = 9 then [92, 116]
  else if c < 32 then [92, 117, 48, 48, hexDigit (c.toNat / 16), hexDigit (c.toNat % 16)]
  else [c]

def encodeString (value : List UInt8) : List UInt8 := 34 :: (value.flatMap escapeByte ++ [34])

mutual

def encode : Json → List UInt8
  | .null => [110, 117, 108, 108]
  | .bool true => [116, 114, 117, 101]
  | .bool false => [102, 97, 108, 115, 101]
  | .num mantissa exponent => signedDecimal mantissa ++ if exponent = 0 then [] else 101 :: signedDecimal exponent
  | .str value => encodeString value
  | .arr elements => 91 :: (encodeElements elements ++ [93])
  | .obj members => 123 :: (encodeMembers members ++ [125])

def encodeElements : List Json → List UInt8
  | [] => []
  | [element] => encode element
  | element :: next :: elements => encode element ++ 44 :: encodeElements (next :: elements)

def encodeMembers : List (List UInt8 × Json) → List UInt8
  | [] => []
  | [(key, value)] => encodeString key ++ 58 :: encode value
  | (key, value) :: next :: members => encodeString key ++ 58 :: (encode value ++ 44 :: encodeMembers (next :: members))

end

end Json

end ReferenceSystem

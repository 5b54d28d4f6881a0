/-
Reading JSON texts.

The reader takes every text of the JSON grammar, however deeply nested and whatever its numbers;
what a program makes of a value decides about depth, numbers and characters.
-/
import XmlHarvest.Json.Value
import XmlHarvest.Text.Numerals

namespace XmlHarvest.Json

/-! ### White space and numbers -/

/-- The white space of JSON. -/
def isSpace (c : Char) : Bool :=
  c == ' ' || c == '\n' || c == '\t' || c == '\r'

def skipSpaces (cs : List Char) : List Char :=
  cs.dropWhile isSpace

/-- One digit or more, and the rest. -/
def digits (cs : List Char) : Option (List Char × List Char) :=
  if cs.head?.any Char.isDigit then some (cs.takeWhile Char.isDigit, cs.dropWhile Char.isDigit)
  else none

/-- The whole part of a number: digits that begin with a zero only when it is the only one. -/
def wholePart : List Char → Option (List Char × List Char)
  | '0' :: cs => if cs.head?.any Char.isDigit then none else some (['0'], cs)
  | cs => digits cs

/-- The fraction of a number, which may be missing. -/
def fractionPart : List Char → Option (List Char × List Char)
  | '.' :: cs => (digits cs).map fun (ds, rest) => ('.' :: ds, rest)
  | cs => some ([], cs)

/-- The digits of an exponent, a sign before them or not. -/
def signedDigits : List Char → Option (List Char × List Char)
  | '+' :: cs => (digits cs).map fun (ds, rest) => ('+' :: ds, rest)
  | '-' :: cs => (digits cs).map fun (ds, rest) => ('-' :: ds, rest)
  | cs => digits cs

/-- The exponent of a number, which may be missing. -/
def exponentPart : List Char → Option (List Char × List Char)
  | 'e' :: cs => (signedDigits cs).map fun (ds, rest) => ('e' :: ds, rest)
  | 'E' :: cs => (signedDigits cs).map fun (ds, rest) => ('E' :: ds, rest)
  | cs => some ([], cs)

/-- The literal of a number that has no sign. -/
def unsigned (cs : List Char) : Option (List Char × List Char) := do
  let (whole, cs) ← wholePart cs
  let (fraction, cs) ← fractionPart cs
  let (exponent, cs) ← exponentPart cs
  return (whole ++ fraction ++ exponent, cs)

/-- The literal of a number. -/
def numberLiteral : List Char → Option (List Char × List Char)
  | '-' :: cs => (unsigned cs).map fun (ds, rest) => ('-' :: ds, rest)
  | cs => unsigned cs

/-! ### Strings -/

/-- A part of a string: a character, or a number of sixteen bits that an escape writes. -/
inductive StringPart
  | char (c : Char)
  | word (n : Nat)
  deriving DecidableEq, Repr

/-- The number that four hexadecimal digits write. -/
def hexWord? (a b c d : Char) : Option Nat := do
  return ((← Text.hexDigit? a) * 16 + (← Text.hexDigit? b)) * 256 +
    ((← Text.hexDigit? c) * 16 + (← Text.hexDigit? d))

/-- The character of a short escape. -/
def shortEscape? : Char → Option Char
  | '"' => some '"'
  | '\\' => some '\\'
  | '/' => some '/'
  | 'b' => some '\x08'
  | 'f' => some '\x0c'
  | 'n' => some '\n'
  | 'r' => some '\r'
  | 't' => some '\t'
  | _ => none

/-- The parts of a string up to its closing quote, and the rest after it. -/
def stringParts : List Char → Option (List StringPart × List Char)
  | '"' :: rest => some ([], rest)
  | '\\' :: 'u' :: a :: b :: c :: d :: rest => do
    let n ← hexWord? a b c d
    let (parts, rest) ← stringParts rest
    return (.word n :: parts, rest)
  | '\\' :: e :: rest => do
    let c ← shortEscape? e
    let (parts, rest) ← stringParts rest
    return (.char c :: parts, rest)
  | c :: rest =>
    if c.toNat < 0x20 || c == '\\' then none
    else do
      let (parts, rest) ← stringParts rest
      return (.char c :: parts, rest)
  | [] => none

def isHighSurrogate (n : Nat) : Bool := 0xD800 ≤ n && n ≤ 0xDBFF

def isLowSurrogate (n : Nat) : Bool := 0xDC00 ≤ n && n ≤ 0xDFFF

/-- The characters that the parts of a string write.  Two surrogates that belong together write
one character, and a surrogate without its partner none. -/
def StringPart.characters? : List StringPart → Option (List Char)
  | [] => some []
  | .char c :: ps => (characters? ps).map (c :: ·)
  | .word hi :: .word lo :: ps =>
    if isHighSurrogate hi then
      if isLowSurrogate lo then
        let n := 0x10000 + (hi - 0xD800) * 0x400 + (lo - 0xDC00)
        (characters? ps).map (Char.ofNat n :: ·)
      else none
    else if isLowSurrogate hi then none
    else (characters? (.word lo :: ps)).map (Char.ofNat hi :: ·)
  | .word n :: ps =>
    if isHighSurrogate n || isLowSurrogate n then none
    else (characters? ps).map (Char.ofNat n :: ·)

/-- A string after its opening quote. -/
def stringBody (cs : List Char) : Option (Option String × List Char) :=
  (stringParts cs).map fun (parts, rest) =>
    ((StringPart.characters? parts).map String.ofList, rest)

/-! ### Values -/

mutual

/-- A value at the front of a text, which begins with no white space.  The bound limits the depth
of calls. -/
def readValue : Nat → List Char → Option (Value × List Char)
  | 0, _ => none
  | _ + 1, 'n' :: 'u' :: 'l' :: 'l' :: rest => some (.null, rest)
  | _ + 1, 't' :: 'r' :: 'u' :: 'e' :: rest => some (.bool true, rest)
  | _ + 1, 'f' :: 'a' :: 'l' :: 's' :: 'e' :: rest => some (.bool false, rest)
  | _ + 1, '"' :: cs => (stringBody cs).map fun (s, rest) => (.string s, rest)
  | bound + 1, '[' :: cs =>
    match skipSpaces cs with
    | ']' :: rest => some (.array [], rest)
    | cs => do
      let (items, rest) ← readItems bound cs
      return (.array items, rest)
  | bound + 1, '\x7b' :: cs =>
    match skipSpaces cs with
    | '\x7d' :: rest => some (.object [], rest)
    | cs => do
      let (members, rest) ← readMembers bound cs
      return (.object members, rest)
  | _ + 1, cs => (numberLiteral cs).map fun (ds, rest) => (.number ds, rest)

/-- The items of an array, at least one, and the rest after its closing bracket. -/
def readItems : Nat → List Char → Option (List Value × List Char)
  | 0, _ => none
  | bound + 1, cs => do
    let (item, cs) ← readValue bound cs
    match skipSpaces cs with
    | ',' :: cs =>
      let (items, rest) ← readItems bound (skipSpaces cs)
      return (item :: items, rest)
    | ']' :: rest => return ([item], rest)
    | _ => none

/-- The members of an object, at least one, and the rest after its closing brace. -/
def readMembers : Nat → List Char → Option (List (Option String × Value) × List Char)
  | bound + 1, '"' :: cs => do
    let (key, cs) ← stringBody cs
    match skipSpaces cs with
    | ':' :: cs =>
      let (value, cs) ← readValue bound (skipSpaces cs)
      match skipSpaces cs with
      | ',' :: cs =>
        let (members, rest) ← readMembers bound (skipSpaces cs)
        return ((key, value) :: members, rest)
      | '\x7d' :: rest => return ([(key, value)], rest)
      | _ => none
    | _ => none
  | _, _ => none

end

/-- The value that a text writes, with white space around it or not. -/
def Value.read? (text : String) : Option Value := do
  let cs := skipSpaces text.toList
  let (v, rest) ← readValue (2 * cs.length + 2) cs
  if (skipSpaces rest).isEmpty then some v else none

end XmlHarvest.Json

/-
Writing JSON values, in one line or over several.

Quotes, backslashes and the characters below the space are escaped, nothing else.
-/
import XmlHarvest.Json.Value

namespace XmlHarvest.Json

/-! ### Strings -/

/-- The escape of a control character that has no short one. -/
def controlEscape (c : Char) : List Char :=
  ['\\', 'u', '0', '0', Nat.digitChar (c.toNat / 16), Nat.digitChar (c.toNat % 16)]

/-- One character of a string. -/
def escapedChar (c : Char) : List Char :=
  if c == '"' then ['\\', '"']
  else if c == '\\' then ['\\', '\\']
  else if c == '\x08' then ['\\', 'b']
  else if c == '\x0c' then ['\\', 'f']
  else if c == '\n' then ['\\', 'n']
  else if c == '\r' then ['\\', 'r']
  else if c == '\t' then ['\\', 't']
  else if c.toNat < 0x20 then controlEscape c
  else [c]

/-- A string in its quotes.  One without characters is written as half a surrogate pair. -/
def writeString : Option String → List Char
  | some s => '"' :: s.toList.flatMap escapedChar ++ ['"']
  | none => "\"\\ud800\"".toList

/-! ### In one line -/

mutual

/-- The value without any white space. -/
def Value.compactChars : Value → List Char
  | .null => "null".toList
  | .bool b => (if b then "true" else "false").toList
  | .number literal => literal
  | .string s => writeString s
  | .array [] => ['[', ']']
  | .array (v :: vs) => '[' :: v.compactChars ++ Value.compactItems vs
  | .object [] => ['\x7b', '\x7d']
  | .object ((k, v) :: ms) =>
    '\x7b' :: writeString k ++ ':' :: v.compactChars ++ Value.compactMembers ms

/-- The items after the first, and the closing bracket. -/
def Value.compactItems : List Value → List Char
  | [] => [']']
  | v :: vs => ',' :: v.compactChars ++ Value.compactItems vs

/-- The members after the first, and the closing brace. -/
def Value.compactMembers : List (Option String × Value) → List Char
  | [] => ['\x7d']
  | (k, v) :: ms => ',' :: writeString k ++ ':' :: v.compactChars ++ Value.compactMembers ms

end

/-- The value in one line. -/
def Value.compact (v : Value) : String :=
  String.ofList v.compactChars

/-! ### Over several lines -/

/-- A line break and the indent of a depth: two spaces a level. -/
def lineBreak (depth : Nat) : List Char :=
  '\n' :: List.replicate (2 * depth) ' '

mutual

/-- The value with a line for each item and member.  Empty arrays and objects stay closed. -/
def Value.prettyChars (depth : Nat) : Value → List Char
  | .null => "null".toList
  | .bool b => (if b then "true" else "false").toList
  | .number literal => literal
  | .string s => writeString s
  | .array [] => ['[', ']']
  | .array (v :: vs) =>
    '[' :: lineBreak (depth + 1) ++ v.prettyChars (depth + 1) ++ Value.prettyItems depth vs
  | .object [] => ['\x7b', '\x7d']
  | .object ((k, v) :: ms) =>
    '\x7b' :: lineBreak (depth + 1) ++ writeString k ++ ':' :: ' ' :: v.prettyChars (depth + 1) ++
      Value.prettyMembers depth ms

/-- The items after the first, and the closing bracket. -/
def Value.prettyItems (depth : Nat) : List Value → List Char
  | [] => lineBreak depth ++ [']']
  | v :: vs =>
    ',' :: lineBreak (depth + 1) ++ v.prettyChars (depth + 1) ++ Value.prettyItems depth vs

/-- The members after the first, and the closing brace. -/
def Value.prettyMembers (depth : Nat) : List (Option String × Value) → List Char
  | [] => lineBreak depth ++ ['\x7d']
  | (k, v) :: ms =>
    ',' :: lineBreak (depth + 1) ++ writeString k ++ ':' :: ' ' :: v.prettyChars (depth + 1) ++
      Value.prettyMembers depth ms

end

/-- The value over several lines. -/
def Value.pretty (v : Value) : String :=
  String.ofList (v.prettyChars 0)

end XmlHarvest.Json

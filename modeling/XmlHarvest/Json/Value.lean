/-
JSON values as they are written.

A value keeps what a text says and no more: a number is its literal, members stand in order and
may repeat a key, and a string whose escapes name half a surrogate pair has no characters.
-/
namespace XmlHarvest.Json

/-- A JSON value. -/
inductive Value
  | null
  | bool (b : Bool)
  | number (literal : List Char)
  /-- A string, or `none` when its escapes do not write characters. -/
  | string (text : Option String)
  | array (items : List Value)
  | object (members : List (Option String × Value))
  deriving Inhabited

/-- The value of a text. -/
def Value.ofText (s : String) : Value := .string (some s)

/-- The value of a list of texts. -/
def Value.ofTexts (ss : List String) : Value := .array (ss.map .ofText)

/-- An object whose keys are texts. -/
def Value.ofMembers (ms : List (String × Value)) : Value :=
  .object (ms.map fun m => (some m.1, m.2))

/-- The value of a natural number. -/
def Value.ofNat (n : Nat) : Value := .number (Nat.toDigits 10 n)

end XmlHarvest.Json

/-
Numbers as texts write them: by decimal or hexadecimal digits, and whole numbers with or without a
sign that fit into 64 bits.
-/
namespace XmlHarvest.Text

/-! ### Digits -/

/-- The number that decimal digits write. -/
def decimal (digits : List Char) : Nat :=
  digits.foldl (fun n d => 10 * n + (d.toNat - 48)) 0

/-- The value of a hexadecimal digit. -/
def hexDigit? (c : Char) : Option Nat :=
  if c.isDigit then some (c.toNat - 48)
  else if 'a' ≤ c && c ≤ 'f' then some (c.toNat - 87)
  else if 'A' ≤ c && c ≤ 'F' then some (c.toNat - 55)
  else none

/-- Whether a character is a hexadecimal digit. -/
def isHexDigit (c : Char) : Bool := (hexDigit? c).isSome

/-- The number that hexadecimal digits write. -/
def hexadecimal (digits : List Char) : Nat :=
  digits.foldl (fun n d => 16 * n + (hexDigit? d).getD 0) 0

/-! ### Whole numbers -/

/-- The number that ASCII digits write; there has to be one. -/
def natural? (cs : List Char) : Option Nat :=
  if !cs.isEmpty && cs.all Char.isDigit then some (decimal cs) else none

/-- Whether a number fits into 64 bits, of which one is the sign. -/
def fitsSigned (i : Int) : Bool := -0x8000000000000000 ≤ i && i < 0x8000000000000000

/-- The number that a text writes, of at most 64 bits. -/
def integer? (cs : List Char) : Option Int :=
  let value : Option Int :=
    match cs with
    | '+' :: ds => (natural? ds).map fun n => (n : Int)
    | '-' :: ds => (natural? ds).map fun n => -(n : Int)
    | ds => (natural? ds).map fun n => (n : Int)
  value.filter fitsSigned

end XmlHarvest.Text

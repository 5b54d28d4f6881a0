/-
How large a number is taken to be.

A number is taken up in double precision by way of a significand of 64 bits and a power of ten:
digits that the significand has no room for are dropped, the significand and a power that is not
below one are each rounded to double precision, and then multiplied.  So numbers just above the
largest double may be taken up, and some just below it may not.
-/
import XmlHarvest.Text.Numerals

namespace XmlHarvest.Json

/-! ### Rounding -/

/-- The nearest number of 53 significant bits; of two that are equally near, the even one. -/
def nearestDouble (n : Nat) : Nat :=
  let unit := Nat.pow 2 (n.log2 - 52)
  let below := n / unit
  let up := unit < 2 * (n % unit) || (2 * (n % unit) == unit && below % 2 == 1)
  (if up then below + 1 else below) * unit

/-- The least number that is rounded to none of the doubles. -/
def overflowBound : Nat := Nat.pow 2 1024 - Nat.pow 2 970

/-! ### Significands -/

/-- Append digits to a significand while it stays below 2 to the 64; the digits that are left. -/
def extendSignificand (n : Nat) : List Char → Nat × List Char
  | [] => (n, [])
  | d :: ds =>
    let next := 10 * n + Text.decimal [d]
    if next < 0x10000000000000000 then extendSignificand next ds else (n, d :: ds)

/-- A number as it is taken up, its sign apart. -/
structure Scaled where
  significand : Nat
  /-- The exponent of the power of ten. -/
  exponent : Int
  deriving DecidableEq, Repr

/-- A number from the digits before and after its point and from its exponent.  Digits before the
point that are dropped raise the exponent, digits after it that are taken lower it. -/
def Scaled.ofDigits (whole fraction : List Char) (exponent : Int) : Scaled :=
  let (n, dropped) := extendSignificand 0 whole
  let (n, left) := extendSignificand n fraction
  ⟨n, exponent + (dropped.length : Int) - ((fraction.length - left.length : Nat) : Int)⟩

/-- Whether a number lies beyond the doubles. -/
def Scaled.overflows (x : Scaled) : Bool :=
  if x.significand = 0 || x.exponent < 0 then false
  else if 308 < x.exponent then true
  else overflowBound ≤ nearestDouble x.significand * nearestDouble (Nat.pow 10 x.exponent.toNat)

/-! ### Literals -/

/-- Whether a character marks an exponent. -/
def isExponentMark (c : Char) : Bool := c == 'e' || c == 'E'

/-- The exponent that the literal of a number gives. -/
def exponentOf (literal : List Char) : Int :=
  let power := (literal.dropWhile fun c => !isExponentMark c).drop 1
  let size : Int := Text.decimal (power.filter Char.isDigit)
  if power.head? == some '-' then -size else size

/-- The number that a literal gives. -/
def Scaled.ofLiteral (literal : List Char) : Scaled :=
  let mantissa := literal.takeWhile fun c => !isExponentMark c
  let whole := (mantissa.takeWhile (· != '.')).filter Char.isDigit
  .ofDigits whole ((mantissa.dropWhile (· != '.')).drop 1) (exponentOf literal)

end XmlHarvest.Json

/-
Reading the shapes that the formats here are made of: texts, flags, numbers, lists and records.

A record is an object, in which unknown members are ignored, or the array of its fields in their
order.  Arrays and objects open at most 127 deep; `room` says how many more may open here.  What
stands in an ignored member counts for nothing, neither its depth nor its numbers nor the
characters of its strings.
-/
import XmlHarvest.Json.Magnitude
import XmlHarvest.Json.Reader

namespace XmlHarvest.Json

/-- How deep arrays and objects may nest. -/
def maxDepth : Nat := 127

/-! ### Simple shapes -/

/-- A text. -/
def Value.text? : Value → Option String
  | .string s => s
  | _ => none

/-- A flag. -/
def Value.flag? : Value → Option Bool
  | .bool b => some b
  | _ => none

/-- A natural number of at most 32 bits, written by digits alone. -/
def Value.word? : Value → Option Nat
  | .number literal =>
    if literal.all Char.isDigit && Text.decimal literal < 0x100000000 then some (Text.decimal literal)
    else none
  | _ => none

/-- A value of some shape, or `null` for none. -/
def Value.nullable? {α : Type} (read : Value → Option α) : Value → Option (Option α)
  | .null => some none
  | v => (read v).map some

/-- A list whose items have one shape. -/
def Value.list? {α : Type} (room : Nat) (read : Value → Option α) : Value → Option (List α)
  | .array vs => if room = 0 then none else vs.mapM read
  | _ => none

/-- A list of texts. -/
def Value.texts? (room : Nat) (v : Value) : Option (List String) :=
  v.list? room Value.text?

/-! ### Records -/

/-- How often a key occurs among members. -/
def occurrences (key : String) (ms : List (Option String × Value)) : Nat :=
  ms.countP fun m => m.1 == some key

/-- The values that a record has for the fields with these names, in their order.  Every key of an
object has characters, and no key of a field occurs twice.  An array gives at least the first
`required` fields and at most all. -/
def Value.fields? (names : List String) (required : Nat) : Value → Option (List (Option Value))
  | .object ms =>
    if ms.all (·.1.isSome) && names.all (fun n => occurrences n ms ≤ 1) then
      some (names.map fun n => ms.lookup (some n))
    else none
  | .array vs =>
    if required ≤ vs.length && vs.length ≤ names.length then
      some (vs.map some ++ List.replicate (names.length - vs.length) none)
    else none
  | _ => none

/-- A field that may be missing. -/
def fieldOr {α : Type} (default : α) (read : Value → Option α) : Option Value → Option α
  | none => some default
  | some v => read v

/-! ### Whole values -/

mutual

/-- Whether a value can be taken up whole: within the depth, every string with its characters and
every number finite. -/
def Value.sound : Nat → Value → Bool
  | _, .null | _, .bool _ => true
  | _, .number literal => !(Scaled.ofLiteral literal).overflows
  | _, .string s => s.isSome
  | 0, .array _ | 0, .object _ => false
  | room + 1, .array vs => Value.soundItems room vs
  | room + 1, .object ms => Value.soundMembers room ms

def Value.soundItems (room : Nat) : List Value → Bool
  | [] => true
  | v :: vs => v.sound room && Value.soundItems room vs

def Value.soundMembers (room : Nat) : List (Option String × Value) → Bool
  | [] => true
  | (k, v) :: ms => k.isSome && v.sound room && Value.soundMembers room ms

end

end XmlHarvest.Json

/-
The ledger of progress: texts under keys, with the ways to write them.

A key that was never written reads as the empty text.
-/
import XmlHarvest.Keyed

namespace XmlHarvest

/-- How a written value is combined with the one that is stored. -/
inductive WriteMode
  /-- The new value counts; for flags. -/
  | replace
  /-- The new value counts; for marks that move on. -/
  | update
  /-- The new value is put after the stored one. -/
  | append
  deriving DecidableEq, Repr

/-- What the mode does, in a word. -/
def WriteMode.verb : WriteMode → String
  | replace => "replace"
  | update => "update"
  | append => "append"

/-- The value to be stored. -/
def WriteMode.combine : WriteMode → (stored written : String) → String
  | replace, _, written | update, _, written => written
  | append, stored, written => stored ++ written

/-- A value to be written under a key. -/
structure LedgerWrite where
  key : String
  value : String
  mode : WriteMode
  deriving DecidableEq, Repr

/-- Progress under keys. -/
abbrev Ledger := Keyed String

/-- The value under a key, empty if it was never written. -/
def Ledger.value (l : Ledger) (key : String) : String := (l.get? key).getD ""

/-- The ledger after a write. -/
def Ledger.write (l : Ledger) (w : LedgerWrite) : Ledger :=
  l.put w.key (w.mode.combine (Ledger.value l w.key) w.value)

@[simp] theorem Ledger.value_empty (key : String) : Ledger.value Keyed.empty key = "" := rfl

@[simp] theorem Ledger.value_write_same (l : Ledger) (w : LedgerWrite) :
    Ledger.value (Ledger.write l w) w.key = w.mode.combine (Ledger.value l w.key) w.value := by
  simp [Ledger.value, Ledger.write]

theorem Ledger.value_write_other (l : Ledger) (w : LedgerWrite) {key : String} (h : key ≠ w.key) :
    Ledger.value (Ledger.write l w) key = Ledger.value l key := by
  simp [Ledger.value, Ledger.write, Keyed.get?_put_other _ h]

end XmlHarvest

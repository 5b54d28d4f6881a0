/-
Databases in files.

A file holds the JSON form of a database's contents after a mark that no text begins with.  It
also says how changes reach it: by a log written ahead, which needs memory that all users of the
file share, or by a journal from which a change can be rolled back.  A file of at most one byte
holds no database yet.
-/
import XmlHarvest.Store.Json

namespace XmlHarvest

open Json (Value)

/-- How changes reach a file. -/
inductive Journal
  /-- They are written to a log first. -/
  | ahead
  /-- What they replace is kept until they are complete. -/
  | rollback
  deriving DecidableEq, Repr

/-- A database as it stands in a file. -/
structure Filed where
  journal : Journal
  contents : Contents
  deriving DecidableEq, Repr

namespace Filed

/-- The mark at the start of a file.  Its first byte occurs in no text. -/
def mark : List UInt8 := 0xFF :: "XmlHarvest\n".toUTF8.toList

def toJson (f : Filed) : Value :=
  .ofMembers [("ahead", .bool (f.journal = .ahead)), ("contents", f.contents.toJson)]

def ofJson? (v : Value) : Option Filed := do
  let [some ahead, some contents] ← v.fields? ["ahead", "contents"] 2 | none
  return ⟨if ← ahead.flag? then .ahead else .rollback, ← Contents.ofJson? contents⟩

/-- The bytes of the file. -/
def write (f : Filed) : ByteArray :=
  ⟨mark.toArray⟩ ++ f.toJson.compact.toUTF8

/-- The database in a file, if one stands there; no result for a file that holds something else. -/
def read? (bytes : ByteArray) : Option (Option Filed) :=
  if bytes.size ≤ 1 then some none
  else if mark.isPrefixOf bytes.toList then do
    let text ← String.fromUTF8? ⟨(bytes.toList.drop mark.length).toArray⟩
    return some (← ofJson? (← Value.read? text))
  else none

end Filed

end XmlHarvest

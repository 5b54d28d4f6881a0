/-
The JSON form of a database's contents.
-/
import XmlHarvest.Json.Shape
import XmlHarvest.Json.Writer
import XmlHarvest.Store.Contents

namespace XmlHarvest

open Json (Value)

/-! ### Writing -/

/-- What may be missing is written as `null` then. -/
def orNull {α : Type} (write : α → Value) : Option α → Value
  | none => .null
  | some a => write a

def Migration.toJson (m : Migration) : Value :=
  .ofMembers [("version", .ofText m.version), ("name", .ofText m.name)]

def Row.toJson (r : Row) : Value :=
  .ofMembers [
    ("id", .ofNat r.id),
    ("source", .ofText r.source),
    ("title", .ofText r.title),
    ("tree", .ofText r.tree),
    ("sentences", .ofNat r.sentenceCount),
    ("created", orNull .ofText r.created)]

def Tables.toJson (t : Tables) : Value :=
  .ofMembers [
    ("rows", .array (t.rows.map Row.toJson)),
    ("last", .ofNat t.lastId),
    ("ledger", .array (t.ledger.entries.map fun (k, v) => .ofTexts [k, v]))]

def Contents.toJson (c : Contents) : Value :=
  .ofMembers [
    ("versions", orNull (fun ms => .array (ms.map Migration.toJson)) c.versions),
    ("tables", orNull Tables.toJson c.tables),
    ("rejected", .ofTexts c.rejected)]

/-! ### Reading -/

/-- A natural number, however large. -/
def count? : Value → Option Nat
  | .number literal => if literal.all Char.isDigit then some (Text.decimal literal) else none
  | _ => none

def Migration.ofJson? (v : Value) : Option Migration := do
  let [some version, some name] ← v.fields? ["version", "name"] 2 | none
  return { version := ← version.text?, name := ← name.text? }

def Row.ofJson? (v : Value) : Option Row := do
  let [some id, some source, some title, some tree, some sentences, some created] ←
    v.fields? ["id", "source", "title", "tree", "sentences", "created"] 6 | none
  return {
    id := ← count? id
    source := ← source.text?
    title := ← title.text?
    tree := ← tree.text?
    sentenceCount := ← count? sentences
    created := ← created.nullable? Value.text?
  }

/-- A key of the ledger with its value. -/
def pair? (v : Value) : Option (String × String) := do
  let [key, value] ← v.texts? Json.maxDepth | none
  return (key, value)

def Tables.ofJson? (v : Value) : Option Tables := do
  let [some rows, some last, some ledger] ← v.fields? ["rows", "last", "ledger"] 3 | none
  return {
    rows := ← rows.list? Json.maxDepth Row.ofJson?
    lastId := ← count? last
    ledger := .ofList (← ledger.list? Json.maxDepth pair?)
  }

def Contents.ofJson? (v : Value) : Option Contents := do
  let [some versions, some tables, some rejected] ←
    v.fields? ["versions", "tables", "rejected"] 3 | none
  return {
    versions := ← versions.nullable? (Value.list? Json.maxDepth Migration.ofJson?)
    tables := ← tables.nullable? Tables.ofJson?
    rejected := ← rejected.texts? Json.maxDepth
  }

end XmlHarvest

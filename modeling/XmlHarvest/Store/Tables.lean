/-
The stored documents and the ledger.

A document is stored as a row: its JSON text with what is asked for without reading it.  Rows stand
in the order of their ids.  Ids count up and are not given twice, until everything is cleared.
-/
import XmlHarvest.Document.Json
import XmlHarvest.Document.Sharing
import XmlHarvest.Instant
import XmlHarvest.Store.Ledger

namespace XmlHarvest

/-! ### Rows -/

/-- A stored document. -/
structure Row where
  id : Nat
  /-- The file that the document comes from. -/
  source : String
  title : String
  /-- The JSON text of the document. -/
  tree : String
  sentenceCount : Nat
  /-- When the document was stored; there is no text for the present. -/
  created : Option String
  deriving DecidableEq, Repr

/-- The row of a document. -/
def Row.ofDocument (source : String) (id : Nat) (d : Document) : Row :=
  ⟨id, source, d.title, d.write, d.sentenceCount, none⟩

/-- A document that is read back.  Equal metadata of neighbouring sentences is shared again, and a
time of storing that cannot be read counts as the present, for which there is no moment. -/
structure StoredDocument where
  id : Nat
  source : String
  title : String
  body : TextUnit Held
  created : Option Instant
  deriving Repr

/-- The document of a row, if its text can be read. -/
def Row.document? (r : Row) : Option StoredDocument :=
  (Document.read? r.tree).map fun d =>
    ⟨r.id, r.source, d.title, (d.body.apart 0).share, r.created.bind Instant.read?⟩

/-! ### Tables -/

/-- All rows, the last id that was given, and the ledger. -/
structure Tables where
  rows : List Row
  lastId : Nat
  ledger : Ledger
  deriving DecidableEq, Repr

namespace Tables

/-- Nothing stored yet. -/
def empty : Tables := ⟨[], 0, .empty⟩

/-- The ids that so many further documents get. -/
def nextIds (t : Tables) (count : Nat) : List Nat := List.range' (t.lastId + 1) count

/-- Store documents of one source behind the others. -/
def add (t : Tables) (source : String) (ds : List Document) : Tables :=
  { t with
    rows := t.rows ++ List.zipWith (Row.ofDocument source) (t.nextIds ds.length) ds
    lastId := t.lastId + ds.length }

/-- Write to the ledger. -/
def log (t : Tables) (w : LedgerWrite) : Tables :=
  { t with ledger := Ledger.write t.ledger w }

/-- The row with an id. -/
def row? (t : Tables) (id : Int) : Option Row :=
  t.rows.find? fun r => (r.id : Int) == id

/-- The ids of all rows, in increasing order. -/
def ids (t : Tables) : List Nat := t.rows.map Row.id

/-- The sources, each where its first row stands. -/
def sources (t : Tables) : List String := (t.rows.map Row.source).eraseDups

/-- How many sentences all rows have. -/
def sentenceCount (t : Tables) : Nat := t.rows.foldr (fun r n => r.sentenceCount + n) 0

/-- Change the row with an id. -/
def edit (t : Tables) (id : Int) (change : Row → Row) : Tables :=
  { t with rows := t.rows.map fun r => if (r.id : Int) = id then change r else r }

end Tables

end XmlHarvest

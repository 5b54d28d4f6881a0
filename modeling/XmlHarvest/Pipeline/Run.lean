/-
What a run works on, why it stops, and the steps it is made of.

A run changes a database through accesses that are committed one by one, and it calls a parser that
has a state of its own.  A run may also be cut off: then only so many accesses are committed, and
the next one stops it.
-/
import XmlHarvest.Checkpoint
import XmlHarvest.Harvest.Extractor

namespace XmlHarvest

/-! ### Parsers -/

/-- A grammatical parser: what it says of a document depends on its own state, which it changes. -/
abbrev Parser (σ : Type) := StoredDocument → σ → Except String Unit × σ

/-- The parser that takes every document and does nothing. -/
def Parser.idle : Parser Unit := fun _ s => (.ok (), s)

/-! ### Errors -/

/-- Why a run stops. -/
inductive RunError
  | store (error : StoreError)
  /-- The directory of the collection cannot be listed. -/
  | unlisted (path : String)
  /-- The documents of a file cannot be extracted. -/
  | extracting (file : String) (error : ExtractionError)
  /-- The parser does not take a document. -/
  | parsing (id : Nat) (reason : String)
  /-- A document is gone. -/
  | vanished (id : Nat)
  /-- Documents are left to be parsed. -/
  | unparsed (count : Nat)
  /-- The run was cut off. -/
  | cutOff
  deriving DecidableEq, Repr

/-- The texts of the errors that have one of their own. -/
def RunError.message? : RunError → Option String
  | store e => e.message?
  | unlisted path => some ("Failed to list collection " ++ path)
  | extracting file _ => some ("Failed to extract " ++ file)
  | parsing id reason => some ("Parser failed on document " ++ toString id ++ ": " ++ reason)
  | vanished id => some ("Document " ++ toString id ++ " disappeared")
  | unparsed count => some (toString count ++ " documents are still unparsed")
  | cutOff => none

/-! ### Steps -/

/-- What a run works on. -/
structure Run (σ : Type) where
  database : Database
  parser : σ
  /-- The documents that the parser was called with, in order, and whether it took them. -/
  calls : List (Nat × Bool)
  /-- How many writes are still committed, if the run is to be cut off. -/
  writesLeft : Option Nat

/-- A run that begins on a database and is not cut off. -/
def Run.start {σ : Type} (db : Database) (parser : σ) : Run σ := ⟨db, parser, [], none⟩

/-- A step of a run.  What was done before it failed stays done. -/
abbrev Step (σ : Type) := EStateM RunError (Run σ)

variable {σ α : Type}

/-- Look at the database. -/
def consult (access : Access α) : Step σ α := fun r =>
  match access r.database with
  | .ok a db => .ok a { r with database := db }
  | .error e db => .error (.store e) { r with database := db }

/-- Change the database, unless the run is cut off before. -/
def commit (access : Access α) : Step σ α := fun r =>
  if r.writesLeft = some 0 then .error .cutOff r
  else
    match access r.database with
    | .ok a db => .ok a { r with database := db, writesLeft := r.writesLeft.map (· - 1) }
    | .error e db => .error (.store e) { r with database := db }

/-- Call the parser. -/
def callParser (parser : Parser σ) (d : StoredDocument) : Step σ (Except String Unit) := fun r =>
  let (verdict, s) := parser d r.parser
  .ok verdict { r with parser := s, calls := r.calls ++ [(d.id, verdict.isOk)] }

end XmlHarvest

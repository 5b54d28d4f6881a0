/-
Extracted documents: trees of units with metadata, and sentences at their units.
-/
import XmlHarvest.Grammar.Rule

namespace XmlHarvest

/-- A value that a metadata rule gave, with the rule that gave it. -/
structure Metadata where
  value : String
  propertyName : String
  specification : MetadataRule
  deriving DecidableEq, Repr

/-- A sentence, with the metadata of the block of text that it comes from. -/
structure Sentence where
  text : String
  metadata : List Metadata
  deriving DecidableEq, Repr

/-- A unit of a document: what its rule calls it, its metadata, the units in it, and what it holds
itself of the kind `α`, such as sentences. -/
structure TextUnit (α : Type) where
  name : String
  metadata : List Metadata
  units : List (TextUnit α)
  sentences : List α
  deriving Repr

/-- A document; a file may yield any number. -/
structure Document where
  title : String
  body : TextUnit Sentence
  deriving Repr

/-- The document of a top unit.  Its name is the title too. -/
def Document.ofUnit (u : TextUnit Sentence) : Document := ⟨u.name, u⟩

variable {α β : Type}

mutual

/-- What a unit holds, then what the units in it hold, the first unit first. -/
def TextUnit.leaves : TextUnit α → List α
  | ⟨_, _, units, own⟩ => own ++ TextUnit.leavesOf units

def TextUnit.leavesOf : List (TextUnit α) → List α
  | [] => []
  | u :: us => u.leaves ++ TextUnit.leavesOf us

end

mutual

/-- The same tree with something else held by each unit. -/
def TextUnit.mapOwn (f : List α → List β) : TextUnit α → TextUnit β
  | ⟨name, metadata, units, own⟩ => ⟨name, metadata, TextUnit.mapOwns f units, f own⟩

def TextUnit.mapOwns (f : List α → List β) : List (TextUnit α) → List (TextUnit β)
  | [] => []
  | u :: us => u.mapOwn f :: TextUnit.mapOwns f us

end

/-- How many sentences a document has. -/
def Document.sentenceCount (d : Document) : Nat := d.body.leaves.length

end XmlHarvest

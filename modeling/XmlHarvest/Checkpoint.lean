/-
Progress that a run can be taken up from.

The ledger holds it as texts: a flag for each stage, one mark after the other for the recorded
files, and the id of the document that was parsed last.  The mark of a file is its number in
brackets, so no mark occurs inside another.
-/
import XmlHarvest.Store.Access
import XmlHarvest.Text.Basic
import XmlHarvest.Text.Numerals

namespace XmlHarvest

/-! ### Stages -/

/-- The stages of a run, in their order. -/
inductive Stage
  | textAndMetadata
  | grammaticalProcessing
  | wordCounts
  | tfidf
  | wordSimilarity
  deriving DecidableEq, Repr

namespace Stage

/-- All stages. -/
def all : List Stage :=
  [textAndMetadata, grammaticalProcessing, wordCounts, tfidf, wordSimilarity]

/-- The key of the ledger under which a stage's flag stands. -/
def flagKey : Stage → String
  | textAndMetadata => "finished_recording_text_and_metadata"
  | grammaticalProcessing => "finished_grammatical_processing"
  | wordCounts => "word_counts_done"
  | tfidf => "tfidf_done"
  | wordSimilarity => "word_similarity_calculations_done"

/-- What a stage does, in words. -/
def description : Stage → String
  | textAndMetadata => "Extracting document text and metadata"
  | grammaticalProcessing => "Parsing documents"
  | wordCounts => "Calculating word counts"
  | tfidf => "Calculating TF-IDFs"
  | wordSimilarity => "Calculating word similarities"

end Stage

/-! ### Texts of the ledger -/

namespace Checkpoint

/-- The key of the marks of recorded files. -/
def recordedKey : String := "text_and_metadata_recorded"

/-- The key of the mark of the document parsed last. -/
def parsedKey : String := "latest_parsed_document_id"

/-- The text of a flag. -/
def flagText (done : Bool) : String := if done then "true" else "false"

/-- Whether the text of a flag says that the stage is done, in capital or small letters. -/
def saysDone (text : String) : Bool :=
  Text.occursIn "true".toList (text.toList.map Char.toLower)

/-- The mark of the file with a number. -/
def fileMark (index : Nat) : String := "[" ++ toString index ++ "]"

/-! ### Access to the ledger -/

/-- Whether a stage is done. -/
def stageDone (stage : Stage) : Access Bool :=
  saysDone <$> Access.ledgerValue stage.flagKey

/-- Set the flag of a stage. -/
def setStage (stage : Stage) (done : Bool) : Access Unit :=
  Access.log ⟨stage.flagKey, flagText done, .replace⟩

/-- Whether the file with a number is recorded; numbers count from one. -/
def fileRecorded (index : Nat) : Access Bool :=
  (fun text => Text.contains text (fileMark index)) <$> Access.ledgerValue recordedKey

/-- Store the documents of the file with a number and mark it as recorded, both or neither. -/
def recordFile (index : Nat) (source : String) (ds : List Document) : Access (List Nat) :=
  Access.saveLogged source ds ⟨recordedKey, fileMark index, .append⟩

/-- The id that the mark of the document parsed last writes; zero when there is none. -/
def latestParsed : Access Int := do
  let text := Text.trim (← Access.ledgerValue parsedKey)
  if text = "" then return 0
  else
    match Text.integer? text.toList with
    | some id => return id
    | none => throw (.badMark parsedKey text)

/-- Set the mark of the document parsed last. -/
def setLatestParsed (id : Int) : Access Unit :=
  Access.log ⟨parsedKey, toString id, .update⟩

end Checkpoint

end XmlHarvest

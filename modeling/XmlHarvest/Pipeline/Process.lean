/-
Processing a collection in stages.

A stage whose flag says that it is done is left out.  Within a stage every file and every document
is marked when it is done, so a run that stops is taken up by the next at the file or document at
which it stopped.
-/
import XmlHarvest.Collection
import XmlHarvest.Pipeline.Run

namespace XmlHarvest

open Checkpoint

/-- What a collection is processed with. -/
structure Pipeline (σ : Type) where
  config : Config
  extractor : Extractor
  collection : Collection
  parser : Parser σ

/-- What a run has done. -/
structure Summary where
  filesExtracted : Nat
  documentsRecorded : Nat
  documentsParsed : Nat
  stagesRun : List Stage
  deriving DecidableEq, Repr

variable {σ α : Type}

namespace Pipeline

/-! ### Recording files -/

/-- Extract a file and record its documents; yields how many there are. -/
def recordOne (p : Pipeline σ) (index : Nat) (name : String) (content : Option String) :
    Step σ Nat := do
  commit (setStage .textAndMetadata false)
  match p.extractor.extractFile content with
  | .error e => throw (.extracting name e)
  | .ok ds =>
    let _ ← commit (recordFile index name ds)
    return ds.length

/-- Record those files, numbered on from `index`, that are not recorded yet; yields how many files
and documents there are. -/
def recordFrom (p : Pipeline σ) (index : Nat) : List (String × Option String) → Step σ (Nat × Nat)
  | [] => pure (0, 0)
  | (name, content) :: fs => do
    if ← consult (fileRecorded index) then p.recordFrom (index + 1) fs
    else
      let here ← p.recordOne index name content
      let (files, documents) ← p.recordFrom (index + 1) fs
      return (files + 1, here + documents)

/-- Record all files of the collection and set the flag of the stage. -/
def extractRecord (p : Pipeline σ) : Step σ (Nat × Nat) :=
  match p.collection.files p.config with
  | none => throw (.unlisted p.collection.path)
  | some files => do
    let counts ← p.recordFrom 1 files
    commit (setStage .textAndMetadata true)
    return counts

/-! ### Parsing documents -/

/-- The ids of the documents behind the mark of the document parsed last. -/
def pending : Access (List Nat) := do
  let latest ← latestParsed
  let ids ← Access.ids
  return ids.filter fun (id : Nat) => latest < (id : Int)

/-- Call the parser until it takes a document, again at most `retries` times.  Log messages are left
out, and with them the sum `retries + 1` in 32 bits, which a warning about a failed call states. -/
def parseWithin (parser : Parser σ) (d : StoredDocument) : (retries : Nat) → Step σ Unit
  | 0 => do
    match ← callParser parser d with
    | .ok () => return
    | .error reason => throw (.parsing d.id reason)
  | retries + 1 => do
    match ← callParser parser d with
    | .ok () => return
    | .error _ => parseWithin parser d retries

/-- Parse the document with an id and move the mark to it. -/
def parseOne (p : Pipeline σ) (id : Nat) : Step σ Unit := do
  match ← consult (Access.document? id) with
  | none => throw (.vanished id)
  | some d =>
    parseWithin p.parser d p.config.parserRetries
    commit (setLatestParsed id)

/-- Parse documents one after the other. -/
def parseEach (p : Pipeline σ) : List Nat → Step σ Unit
  | [] => pure ()
  | id :: ids => do
    p.parseOne id
    p.parseEach ids

/-- Parse the documents behind the mark; yields how many there are. -/
def parseDocuments (p : Pipeline σ) : Step σ Nat := do
  let ids ← consult pending
  if ids.isEmpty then return 0
  else
    commit (setStage .grammaticalProcessing false)
    p.parseEach ids
    return ids.length

/-- Set the flag of the parsing stage, if every document is parsed. -/
def finishParsing : Step σ Unit := do
  let ids ← consult pending
  if ids.isEmpty then commit (setStage .grammaticalProcessing true)
  else throw (.unparsed ids.length)

/-! ### All stages -/

/-- Do the work of a stage unless it is done. -/
def unlessDone (stage : Stage) (work : Step σ α) : Step σ (Option α) := do
  if ← consult (stageDone stage) then return none
  else
    let a ← work
    return some a

/-- A stage without work of its own: only its flag is set. -/
def flagOnly (stage : Stage) : Step σ (Option Unit) :=
  unlessDone stage (commit (setStage stage true))

/-- Do the work of a stage if it is asked for. -/
def ifAsked (asked : Bool) (work : Step σ (Option α)) : Step σ (Option α) :=
  if asked then work else pure none

/-- A stage as a list, if it was run. -/
def ran (stage : Stage) (outcome : Option α) : List Stage :=
  if outcome.isSome then [stage] else []

/-- Run all stages that are not done; from scratch, everything is cleared before. -/
def process (p : Pipeline σ) (scratch : Bool) : Step σ Summary := do
  if scratch then commit Access.reset
  let recorded ← unlessDone .textAndMetadata p.extractRecord
  let parsed ← ifAsked p.config.needsParsing <| unlessDone .grammaticalProcessing do
    let count ← p.parseDocuments
    finishParsing
    return count
  let counts ← flagOnly .wordCounts
  let tfidf ← flagOnly .tfidf
  let similarity ← ifAsked p.config.wordToWordSimilarity (flagOnly .wordSimilarity)
  let (files, documents) := recorded.getD (0, 0)
  return {
    filesExtracted := files
    documentsRecorded := documents
    documentsParsed := parsed.getD 0
    stagesRun :=
      ran .textAndMetadata recorded ++ ran .grammaticalProcessing parsed ++
        ran .wordCounts counts ++ ran .tfidf tfidf ++ ran .wordSimilarity similarity
  }

end Pipeline

end XmlHarvest

/-
Carrying out commands.
-/
import XmlHarvest.CommandLine.Command
import XmlHarvest.CommandLine.Files
import XmlHarvest.CommandLine.OpenDatabase
import XmlHarvest.Outline
import XmlHarvest.Pipeline.Process

namespace XmlHarvest.CommandLine

/-- How a command ends. -/
structure Ending where
  /-- 0 for success, 1 for failure, 2 for a wrong command line. -/
  code : Nat
  /-- What is printed. -/
  output : String
  /-- What is said of a failure. -/
  complaint : String
  deriving DecidableEq, Repr

/-- A command succeeds. -/
def Ending.success (output : String) : Ending := ⟨0, output, ""⟩

/-- A command fails for a reason. -/
def Ending.failure (reason : String) : Ending := ⟨1, "", "Error: " ++ reason ++ "\n"⟩

/-! ### What is said of failures -/

def grammarReason (path : String) : GrammarError → String
  | .unreadable => "Failed to read structure grammar " ++ path
  | .malformed => "Malformed structure grammar"
  | e@(.missingField _) => e.message?.getD ""

def extractionReason (path : String) : ExtractionError → String
  | .unreadable => "Failed to read " ++ path
  | .malformed => "Malformed XML in " ++ path
  | e => e.message?.getD ""

/-- The reason of a run that stopped, with what lies behind it. -/
def runReason (e : RunError) : String :=
  let outer := e.message?.getD "database error"
  match e with
  | .extracting file cause => outer ++ ": " ++ extractionReason file cause
  | _ => outer

def databaseReason (path : String) : String := "Failed to open database " ++ path

/-! ### Commands -/

variable {m : Type → Type} [Monad m]

/-- Process a collection with settings and a grammar. -/
def runProcess (files : Files m) (database collection : String) (config : Config) (grammar : Rule)
    (fromScratch : Bool) : m Ending := do
  match ← openDatabase files database with
  | none => return .failure (databaseReason database)
  | some o =>
    let p : Pipeline Unit := {
      config := config
      extractor := ⟨grammar, .punctuation, config.tokenizeSentences⟩
      collection := ← loadCollection files config collection
      parser := .idle
    }
    let (fault, after) := match p.process fromScratch o.startRun with
      | .ok _ r => (none, r.database)
      | .error e r => (some e, r.database)
    let kept := (← (o.keep files after).run).isSome
    o.close files
    match fault with
    | some e => return .failure ("Processing " ++ collection ++ " stopped: " ++ runReason e)
    | none => return if kept then .success "" else .failure (databaseReason database)

/-- The documents of a file as they are printed. -/
def shownDocuments (json : Bool) (ds : List Document) : String :=
  if json then (Json.Value.array (ds.map Document.toJson)).pretty ++ "\n" else Outline.render ds

/-- Show the documents of a file. -/
def runExtract (files : Files m) (file : String) (grammar : Rule) (json tokenize : Bool) :
    m Ending := do
  let x : Extractor := ⟨grammar, .punctuation, tokenize⟩
  match x.extractFile (← files.readText (.ofText file)).join with
  | .ok ds => return .success (shownDocuments json ds)
  | .error e => return .failure (extractionReason file e)

/-- A key of the ledger with its value, the value in a column of its own. -/
def statusLine (key value : String) : String :=
  key ++ String.ofList (List.replicate (40 - key.length) ' ') ++ " " ++ value ++ "\n"

/-- The flags of all stages, then the other keys of the ledger, then the counts. -/
def statusText : Access String := do
  let flags ← Stage.all.mapM fun stage =>
    statusLine stage.flagKey <$> Access.ledgerValue stage.flagKey
  let entries ← Access.ledgerEntries
  let others := entries.filter fun (key, _) => !Stage.all.any (·.flagKey == key)
  let documents ← Access.documentCount
  let sentences ← Access.sentenceCount
  return String.join flags ++ String.join (others.map fun (key, value) => statusLine key value) ++
    toString documents ++ " documents, " ++ toString sentences ++ " sentences recorded\n"

/-- Show what is recorded. -/
def runStatus (files : Files m) (database : String) : m Ending := do
  match ← openDatabase files database with
  | none => return .failure (databaseReason database)
  | some o =>
    o.close files
    match statusText (.ofContents o.contents) with
    | .ok text _ => return .success text
    | .error e _ => return .failure (runReason (.store e))

/-- Carry out a command. -/
def Invocation.execute (files : Files m) (locations : Locations) (i : Invocation) : m Ending := do
  let database := i.database.getD locations.database
  match i.command with
  | .process collection grammar config extension fromScratch =>
    match ← loadConfig files locations config with
    | .error e => return .failure e.message
    | .ok c =>
      let c := { c with filenameExtension := extension.getD c.filenameExtension }
      match ← loadGrammar files grammar with
      | .error e => return .failure (grammarReason grammar e)
      | .ok rule => runProcess files database collection c rule fromScratch
  | .extract file grammar json tokenize =>
    match ← loadGrammar files grammar with
    | .error e => return .failure (grammarReason grammar e)
    | .ok rule => runExtract files file rule json tokenize
  | .status => runStatus files database
  | .initConfig =>
    if ← saveConfig files locations .default then return .success "Wrote default configuration\n"
    else return .failure "Failed to write config file"

/-- Carry out what the arguments call. -/
def run (files : Files m) (locations : Locations) (arguments : List String) : m Ending :=
  match Invocation.read arguments with
  | .ok i => i.execute files locations
  | .error (.help form) => pure (.success form.helpText)
  | .error .wrong => pure ⟨2, "", "Usage: " ++ programForm.usage ++ "\n"⟩

end XmlHarvest.CommandLine

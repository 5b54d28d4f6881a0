/-
The settings of a run, and their JSON form.
-/
import XmlHarvest.Json.Shape
import XmlHarvest.Json.Writer

namespace XmlHarvest

open Json (Value)

/-- The settings of a run. -/
structure Config where
  /-- Whether documents are parsed grammatically. -/
  grammaticalProcessing : Bool
  /-- Whether word similarities are worked out; with tagging this needs parsing too. -/
  wordToWordSimilarity : Bool
  partOfSpeechTagging : Bool
  /-- The extension of the files of a collection, with its dot or without. -/
  filenameExtension : String
  /-- Whether the texts of terminal rules are cut into sentences. -/
  tokenizeSentences : Bool
  /-- How often a failed parse is tried again. -/
  parserRetries : Nat
  deriving DecidableEq, Repr

/-- The settings that hold when nothing else is said. -/
def Config.default : Config :=
  ⟨false, false, false, ".xml", true, 0⟩

/-- Whether a run parses documents. -/
def Config.needsParsing (c : Config) : Bool :=
  c.grammaticalProcessing || (c.wordToWordSimilarity && c.partOfSpeechTagging)

/-- An extension without the dots it begins with, in lower case as far as it is ASCII. -/
def bareExtension (extension : String) : List Char :=
  (extension.toList.dropWhile (· == '.')).map Char.toLower

/-- Whether an extension is the one of the collection's files. -/
def Config.matchesExtension (c : Config) (extension : String) : Bool :=
  bareExtension extension == bareExtension c.filenameExtension

/-! ### JSON form -/

/-- The names of the fields, in their order. -/
def Config.fieldNames : List String :=
  ["grammatical_processing", "word_to_word_similarity", "part_of_speech_tagging",
    "filename_extension", "tokenize_sentences", "parser_retries"]

/-- Settings, in which every field may be missing. -/
def Config.ofJson? (v : Value) : Option Config := do
  let [grammatical, similarity, tagging, extension, tokenize, retries] ←
    v.fields? Config.fieldNames 0 | none
  let d := Config.default
  return {
    grammaticalProcessing := ← Json.fieldOr d.grammaticalProcessing Value.flag? grammatical
    wordToWordSimilarity := ← Json.fieldOr d.wordToWordSimilarity Value.flag? similarity
    partOfSpeechTagging := ← Json.fieldOr d.partOfSpeechTagging Value.flag? tagging
    filenameExtension := ← Json.fieldOr d.filenameExtension Value.text? extension
    tokenizeSentences := ← Json.fieldOr d.tokenizeSentences Value.flag? tokenize
    parserRetries := ← Json.fieldOr d.parserRetries Value.word? retries
  }

def Config.toJson (c : Config) : Value :=
  .ofMembers (Config.fieldNames.zip
    [.bool c.grammaticalProcessing, .bool c.wordToWordSimilarity, .bool c.partOfSpeechTagging,
      .ofText c.filenameExtension, .bool c.tokenizeSentences, .ofNat c.parserRetries])

/-! ### Files -/

/-- Why settings cannot be had from a file. -/
inductive ConfigError
  /-- The file holds no text. -/
  | unreadable (path : String)
  /-- The text is not JSON of the right shape. -/
  | malformed (path : String)
  deriving DecidableEq, Repr

/-- The text of the error. -/
def ConfigError.message : ConfigError → String
  | unreadable path => "Failed to read config file " ++ path
  | malformed path => "Failed to parse config file " ++ path

/-- The settings that a text writes. -/
def Config.read? (text : String) : Option Config :=
  (Value.read? text).bind Config.ofJson?

/-- The settings in the file at a path.  There is no content when there is no file, and no text in
the content when it is not UTF-8. -/
def Config.load (path : String) (content : Option (Option String)) : Except ConfigError Config :=
  match content with
  | none => .ok .default
  | some none => .error (.unreadable path)
  | some (some text) =>
    match Config.read? text with
    | some c => .ok c
    | none => .error (.malformed path)

end XmlHarvest

/-
The commands of the program, and how arguments call them.
-/
import XmlHarvest.CommandLine.Arguments

namespace XmlHarvest.CommandLine

/-! ### Commands -/

/-- A command with its arguments. -/
inductive Command
  /-- Process a collection with a grammar. -/
  | process (collection grammar : String) (config extension : Option String) (fromScratch : Bool)
  /-- Show the documents of a file. -/
  | extract (file grammar : String) (json tokenize : Bool)
  /-- Show what is recorded. -/
  | status
  /-- Write the default settings. -/
  | initConfig
  deriving DecidableEq, Repr

/-- A command with the path of the database, if one is given. -/
structure Invocation where
  database : Option String
  command : Command
  deriving DecidableEq, Repr

/-! ### Forms -/

/-- The option for the database, which every command takes. -/
def dbOption : OptionForm :=
  ⟨"db", none, .path "DB", false, "Database file (defaults to the platform data directory)"⟩

def grammarOption : OptionForm :=
  ⟨"grammar", some 'g', .path "GRAMMAR", true, "JSON structure grammar"⟩

def processForm : Form where
  path := "wsi process"
  about := "Process a collection, resuming any interrupted run"
  commands := []
  operand := some ⟨"<COLLECTION_DIR>", "Directory holding the collection files"⟩
  options := [
    dbOption, grammarOption,
    ⟨"config", some 'c', .path "CONFIG", false,
      "Pipeline configuration file (defaults to the user config directory)"⟩,
    ⟨"extension", some 'e', .text "EXTENSION", false,
      "Extension of collection files, overriding the configuration"⟩,
    ⟨"from-scratch", none, .nothing, false, "Discard recorded documents and progress first"⟩]

def extractForm : Form where
  path := "wsi extract"
  about := "Extract one file and print its document tree"
  commands := []
  operand := some ⟨"<FILE>", ""⟩
  options := [
    dbOption, grammarOption,
    ⟨"json", none, .nothing, false, "Print JSON instead of a tree"⟩,
    ⟨"no-tokenize", none, .nothing, false, "Keep each terminal block as one sentence"⟩]

def statusForm : Form where
  path := "wsi status"
  about := "Show recorded progress"
  commands := []
  operand := none
  options := [dbOption]

def initConfigForm : Form where
  path := "wsi init-config"
  about := "Write the default configuration to the user config directory"
  commands := []
  operand := none
  options := [dbOption]

def helpForm : Form where
  path := "wsi help"
  about := "Print this message or the help of the given subcommand(s)"
  commands := []
  operand := some ⟨"[COMMAND]...", "Print help for the subcommand(s)"⟩
  options := []

/-- The commands by their names. -/
def forms : List (String × Form) :=
  [("process", processForm), ("extract", extractForm), ("status", statusForm),
    ("init-config", initConfigForm), ("help", helpForm)]

/-- The form of the whole program. -/
def programForm : Form where
  path := "wsi"
  about := "Extract structured documents from XML collections"
  commands := forms.map fun (name, form) => (name, form.about)
  operand := none
  options := [dbOption]

/-! ### Reading -/

/-- The command of a name by what was read for it. -/
def Command.ofReading (name : String) (r : Reading) : Option Command :=
  match name with
  | "process" => do
    return .process (← r.operand) (← r.value? "grammar") (r.value? "config") (r.value? "extension")
      (r.has "from-scratch")
  | "extract" => do
    return .extract (← r.operand) (← r.value? "grammar") (r.has "json") (!r.has "no-tokenize")
  | "status" => some .status
  | "init-config" => some .initConfig
  | _ => none

/-- The help that the words after `help` ask for; commands have no commands of their own. -/
def helpOn : List String → Stop
  | [] => .help programForm
  | [name] =>
    match forms.lookup name with
    | some form => .help form
    | none => .wrong
  | _ => .wrong

/-- The command of a name with its arguments.  What was read before the name is settled when the
arguments are in order; of two databases the later counts. -/
def commandWith (before : Reading) (name : String) (form : Form) (arguments : List String) :
    Except Stop Invocation := do
  let r ← form.read arguments
  let before ← before.settle
  match Command.ofReading name r with
  | some command => .ok ⟨(r.value? "db").or (before.value? "db"), command⟩
  | none => .error .wrong

/-- Read arguments up to the name of a command, and the command. -/
def invocationFrom (r : Reading) : List String → Except Stop Invocation
  | [] => .error .wrong
  | argument :: rest =>
    let mayName := r.awaiting.isNone && !r.operandsOnly
    match if mayName then forms.lookup argument else none with
    | some form =>
      if argument = "help" then .error (helpOn rest) else commandWith r argument form rest
    | none =>
      match r.next programForm argument with
      | .ok r => invocationFrom r rest
      | .error stop => .error stop

/-- What arguments call. -/
def Invocation.read (arguments : List String) : Except Stop Invocation :=
  invocationFrom .start arguments

end XmlHarvest.CommandLine

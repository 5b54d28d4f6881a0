/-
The program on the files of the machine.
-/
import XmlHarvest.CommandLine.Execute

namespace XmlHarvest.CommandLine

/-- Whether an action does not fail. -/
def succeeds (action : IO Unit) : IO Bool := do
  match ← action.toBaseIO with
  | .ok () => return true
  | .error _ => return false

/-- Do something with a path, unless no text writes it. -/
def onDisk {α : Type} (otherwise : α) (action : String → IO α) (path : Path) : IO α :=
  match path.text? with
  | some text => action text
  | none => return otherwise

/-- What is at a path. -/
def readDisk : Path → IO (Option (Option ByteArray)) :=
  onDisk none fun path => do
    let file := (← IO.currentDir) / path
    if ← file.pathExists then
      match ← (IO.FS.readBinFile file).toBaseIO with
      | .ok content => return some (some content)
      | .error _ => return some none
    else return none

/-- The entries of the directory at a path. -/
def listDisk : Path → IO (Option (List (FileName × Bool))) :=
  onDisk none fun path => do
    match ← ((← IO.currentDir) / path).readDir.toBaseIO with
    | .ok entries =>
      return some (← entries.toList.mapM fun e => do return (.text e.fileName, ← e.path.isDir))
    | .error _ => return none

/-- Create a directory and those it lies in. -/
def createDirectoriesOnDisk : Path → IO Bool :=
  onDisk false fun path => do succeeds (IO.FS.createDirAll ((← IO.currentDir) / path))

/-- The files of the machine. -/
def diskFiles : Files IO where
  read := readDisk
  list := listDisk
  createDirectories := createDirectoriesOnDisk
  write path content := onDisk false (fun file => succeeds (IO.FS.writeBinFile file content)) path
  remove := onDisk false fun file => succeeds (IO.FS.removeFile file)

/-- A directory from the environment, if its path is absolute, or one in the home directory. -/
def userDirectory (name inHome : String) : IO String := do
  match ← IO.getEnv name with
  | some directory => if directory.startsWith "/" then return directory else home
  | none => home
where
  home : IO String := return (← IO.getEnv "HOME").getD "" ++ "/" ++ inHome

/-- Where the user's files are. -/
def userLocations : IO Locations := do
  let config ← userDirectory "XDG_CONFIG_HOME" ".config"
  let data ← userDirectory "XDG_DATA_HOME" ".local/share"
  return ⟨config ++ "/wordseer-ingest/config.json", data ++ "/wordseer-ingest/wordseer.db"⟩

end XmlHarvest.CommandLine

open XmlHarvest.CommandLine in
/-- Carry out what the arguments call, print what it yields, and exit with its code. -/
def main (arguments : List String) : IO UInt32 := do
  let ending ← run diskFiles (← userLocations) arguments
  IO.print ending.output
  IO.eprint ending.complaint
  return ending.code.toUInt32

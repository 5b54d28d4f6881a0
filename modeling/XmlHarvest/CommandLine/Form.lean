/-
The forms of commands: which options and operands there are, and the help that describes them.
-/
namespace XmlHarvest.CommandLine

/-! ### Options, operands and commands -/

/-- What an option takes. -/
inductive Taken
  | nothing
  /-- A path, which is not empty, by the name that stands for it. -/
  | path (name : String)
  /-- Any text, by the name that stands for it. -/
  | text (name : String)
  deriving DecidableEq, Repr

/-- An option. -/
structure OptionForm where
  long : String
  short : Option Char
  takes : Taken
  required : Bool
  help : String
  deriving DecidableEq, Repr

/-- An operand as it is shown, and what it is. -/
structure OperandForm where
  shown : String
  help : String
  deriving DecidableEq, Repr

/-- A command, or the program itself with its commands. -/
structure Form where
  /-- The words that call it. -/
  path : String
  about : String
  /-- Its commands, each with what it does. -/
  commands : List (String × String)
  operand : Option OperandForm
  options : List OptionForm
  deriving DecidableEq, Repr

/-- The option that asks for help, which stands last where there are options. -/
def OptionForm.helpFlag : OptionForm := ⟨"help", some 'h', .nothing, false, "Print help"⟩

/-! ### Help -/

/-- An option with the name of its value. -/
def OptionForm.shown (o : OptionForm) : String :=
  match o.takes with
  | .nothing => "--" ++ o.long
  | .path name | .text name => "--" ++ o.long ++ " <" ++ name ++ ">"

/-- The short form of an option, or the space for it. -/
def OptionForm.shortShown (o : OptionForm) : String :=
  match o.short with
  | some c => String.ofList ['-', c, ',', ' ']
  | none => "    "

/-- A column of entries and a column of texts, two spaces apart at least. -/
def columns (rows : List (String × String × String)) : String :=
  let width := rows.foldl (fun w (_, entry, _) => max w entry.length) 0
  String.join <| rows.map fun (lead, entry, text) =>
    "  " ++ lead ++ entry ++ String.ofList (List.replicate (width + 2 - entry.length) ' ') ++
      text ++ "\n"

/-- A section of the help, left out when it is empty. -/
def helpPart (title : String) (rows : List (String × String × String)) : String :=
  if rows.isEmpty then "" else "\n" ++ title ++ ":\n" ++ columns rows

/-- How a command is called. -/
def Form.usage (f : Form) : String :=
  String.join [
    f.path,
    if f.options.any (!·.required) then " [OPTIONS]" else "",
    String.join ((f.options.filter (·.required)).map (" " ++ ·.shown)),
    match f.operand with
    | some o => " " ++ o.shown
    | none => "",
    if f.commands.isEmpty then "" else " <COMMAND>"]

/-- The help of a command. -/
def Form.helpText (f : Form) : String :=
  let options := if f.options.isEmpty then [] else f.options ++ [.helpFlag]
  String.join [
    f.about, "\n\nUsage: ", f.usage, "\n",
    helpPart "Commands" (f.commands.map fun (name, about) => ("", name, about)),
    helpPart "Arguments" (f.operand.toList.map fun o => ("", o.shown, o.help)),
    helpPart "Options" (options.map fun o => (o.shortShown, o.shown, o.help))]

end XmlHarvest.CommandLine

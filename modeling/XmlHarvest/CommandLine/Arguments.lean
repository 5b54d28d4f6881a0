/-
Reading arguments by the form of a command.

Arguments are taken one after the other.  A value that stands in an argument of its own is looked
at only when the next argument needs it settled or the arguments end, a value that is attached to
its option at once.
-/
import XmlHarvest.CommandLine.Form

namespace XmlHarvest.CommandLine

/-- Why the arguments call no command. -/
inductive Stop
  /-- Help was asked for. -/
  | help (form : Form)
  /-- The arguments do not fit the form. -/
  | wrong
  deriving DecidableEq, Repr

/-- What has been read so far. -/
structure Reading where
  /-- The options by their long names, with their values. -/
  options : List (String × String)
  operand : Option String
  /-- A value that is not settled, of an option or, without one, of the operand. -/
  unsettled : Option (Option OptionForm × String)
  /-- An option whose value has to come next. -/
  awaiting : Option OptionForm
  /-- Whether only operands follow. -/
  operandsOnly : Bool
  deriving DecidableEq, Repr

namespace Reading

/-- Nothing read yet. -/
def start : Reading := ⟨[], none, none, none, false⟩

/-- Take a value of an option, which is given once and fits. -/
def take (r : Reading) (o : OptionForm) (value : String) : Except Stop Reading :=
  let fits :=
    match o.takes with
    | .path _ => value != ""
    | .nothing | .text _ => true
  if fits && !r.options.any (·.1 == o.long) then
    .ok { r with options := (o.long, value) :: r.options }
  else .error .wrong

/-- Take the value that is not settled. -/
def settle (r : Reading) : Except Stop Reading :=
  let settled := { r with unsettled := none }
  match r.unsettled with
  | none => .ok settled
  | some (some o, value) => settled.take o value
  | some (none, value) =>
    if value = "" then .error .wrong else .ok { settled with operand := some value }

/-- An option with a value attached to it or not. -/
def option (form : Form) (r : Reading) (o : OptionForm) (attached : Option String) :
    Except Stop Reading := do
  let r ← r.settle
  match o.takes, attached with
  | .nothing, none => if o = .helpFlag then .error (.help form) else r.take o ""
  | .nothing, some _ => .error .wrong
  | _, some value => r.take o value
  | _, none => .ok { r with awaiting := some o }

/-- Short options in one argument; what follows an option that takes a value is the value. -/
def shorts (form : Form) (r : Reading) : List Char → Except Stop Reading
  | [] => .ok r
  | c :: cs =>
    match (form.options ++ [OptionForm.helpFlag]).find? (·.short == some c) with
    | none => .error .wrong
    | some o =>
      match o.takes, cs with
      | .nothing, _ => do (← option form r o none).shorts form cs
      | _, [] => option form r o none
      | _, '=' :: value => option form r o (some (String.ofList value))
      | _, value => option form r o (some (String.ofList value))

/-- An argument after two hyphens. -/
def long (form : Form) (r : Reading) (cs : List Char) : Except Stop Reading :=
  let name := String.ofList (cs.takeWhile (· != '='))
  let attached :=
    match cs.dropWhile (· != '=') with
    | [] => none
    | _ :: value => some (String.ofList value)
  match (form.options ++ [OptionForm.helpFlag]).find? (·.long == name) with
  | none => .error .wrong
  | some o => option form r o attached

/-- An operand, of which there is one at most. -/
def word (form : Form) (r : Reading) (value : String) : Except Stop Reading := do
  let r ← r.settle
  if form.operand.isSome && r.operand.isNone then .ok { r with unsettled := some (none, value) }
  else .error .wrong

/-- The next argument. -/
def next (form : Form) (r : Reading) (argument : String) : Except Stop Reading :=
  let cs := argument.toList
  if r.operandsOnly then r.word form argument
  else
    match r.awaiting, cs with
    | some _, '-' :: _ :: _ => .error .wrong
    | some o, _ => .ok { r with awaiting := none, unsettled := some (some o, argument) }
    | none, ['-', '-'] => .ok { r with operandsOnly := true }
    | none, '-' :: '-' :: name => r.long form name
    | none, '-' :: c :: names => r.shorts form (c :: names)
    | none, _ => r.word form argument

/-- The end of the arguments: what has to be there is there. -/
def finish (form : Form) (r : Reading) : Except Stop Reading := do
  let r ← r.settle
  let complete := form.options.all fun o => !o.required || r.options.any (·.1 == o.long)
  if r.awaiting.isNone && complete && (form.operand.isNone || r.operand.isSome) then .ok r
  else .error .wrong

/-- The value of an option. -/
def value? (r : Reading) (name : String) : Option String := r.options.lookup name

/-- Whether an option is given. -/
def has (r : Reading) (name : String) : Bool := (r.value? name).isSome

end Reading

/-- Read all arguments of a command. -/
def Form.read (form : Form) (arguments : List String) : Except Stop Reading := do
  (← arguments.foldlM (Reading.next form) .start).finish form

end XmlHarvest.CommandLine

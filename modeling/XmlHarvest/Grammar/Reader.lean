/-
Reading a grammar from its JSON text.

Only the root rule has to give a name and expressions; what another rule leaves out is empty.  The
shape of the whole text comes first: a text of another shape is malformed, whatever its root lacks.
-/
import XmlHarvest.Grammar.Rule
import XmlHarvest.Json.Shape

namespace XmlHarvest

open Json (Value)

/-- Why a grammar cannot be had. -/
inductive GrammarError
  /-- The file is missing or no text. -/
  | unreadable
  /-- The text is not JSON of the right shape. -/
  | malformed
  /-- The root rule lacks a field. -/
  | missingField (name : String)
  deriving DecidableEq, Repr

/-- What the root rule lacks, in words; the other errors have none of their own. -/
def GrammarError.message? : GrammarError → Option String
  | missingField name => some ("Structure grammar root lacks `" ++ name ++ "`")
  | unreadable | malformed => none

/-- A metadata rule; every field may be missing. -/
def MetadataRule.ofJson? (room : Nat) (v : Value) : Option MetadataRule :=
  match room with
  | 0 => none
  | room + 1 => do
    let [xpaths, attr, propertyName] ← v.fields? ["xpaths", "attr", "propertyName"] 0 | none
    return {
      xpaths := ← Json.fieldOr [] (Value.texts? room) xpaths
      attr := ← Json.fieldOr none (Value.nullable? Value.text?) attr
      propertyName := ← Json.fieldOr "" Value.text? propertyName
    }

/-- A rule as it is written, with what it leaves out. -/
structure RuleDraft where
  name : Option String
  xpaths : Option (List String)
  metadata : List MetadataRule
  units : List RuleDraft

/-- A rule as it is written. -/
def RuleDraft.ofJson? : Nat → Value → Option RuleDraft
  | 0, _ => none
  | room + 1, v => do
    let [name, xpaths, metadata, units] ←
      v.fields? ["structureName", "xpaths", "metadata", "units"] 2 | none
    return {
      name := ← Json.fieldOr none (Value.nullable? Value.text?) name
      xpaths := ← Json.fieldOr none (Value.nullable? (Value.texts? room)) xpaths
      metadata := ← Json.fieldOr [] (Value.list? room (MetadataRule.ofJson? (room - 1))) metadata
      units := ← Json.fieldOr [] (Value.list? room fun u =>
        match room with
        | 0 => none
        | inner + 1 => RuleDraft.ofJson? inner u) units
    }

mutual

/-- The rule that a draft stands for.  A terminal rule drops the rules that are written below
it. -/
def RuleDraft.rule : RuleDraft → Rule
  | ⟨name, xpaths, metadata, units⟩ =>
    let head : RuleHead := ⟨name.getD "", xpaths.getD [], metadata⟩
    if marksTerminal head.name then .terminal head else .nested head (RuleDraft.rules units)

def RuleDraft.rules : List RuleDraft → List Rule
  | [] => []
  | d :: ds => d.rule :: RuleDraft.rules ds

end

/-- The grammar that a JSON text writes. -/
def Rule.read (text : String) : Except GrammarError Rule :=
  match (Value.read? text).bind (RuleDraft.ofJson? Json.maxDepth) with
  | none => .error .malformed
  | some draft =>
    if draft.name.isNone then .error (.missingField "structureName")
    else if draft.xpaths.isNone then .error (.missingField "xpaths")
    else .ok draft.rule

/-- The grammar in a file, whose text is missing when the file is or holds none. -/
def Rule.load (text : Option String) : Except GrammarError Rule :=
  match text with
  | none => .error .unreadable
  | some t => Rule.read t

end XmlHarvest

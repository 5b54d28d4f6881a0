/-
The JSON form of documents.

A document is written as one object: its title and, beside it, the fields of its top unit.  It is
taken up whole when it is read, so also what stands in unknown members must lie within the depth
and have characters and finite numbers.
-/
import XmlHarvest.Document.Basic
import XmlHarvest.Grammar.Reader
import XmlHarvest.Json.Writer

namespace XmlHarvest

open Json (Value)

/-! ### Writing -/

/-- The attribute is left out when there is none. -/
def MetadataRule.toJson (r : MetadataRule) : Value :=
  .ofMembers (("xpaths", .ofTexts r.xpaths) ::
    ((r.attr.map fun a => ("attr", Value.ofText a)).toList ++
      [("propertyName", .ofText r.propertyName)]))

def Metadata.toJson (m : Metadata) : Value :=
  .ofMembers [
    ("value", .ofText m.value),
    ("property_name", .ofText m.propertyName),
    ("specification", m.specification.toJson)]

def Sentence.toJson (s : Sentence) : Value :=
  .ofMembers [
    ("text", .ofText s.text),
    ("metadata", .array (s.metadata.map Metadata.toJson))]

mutual

/-- The members of a unit, in their order. -/
def TextUnit.members : TextUnit Sentence → List (String × Value)
  | ⟨name, metadata, units, sentences⟩ => [
    ("name", .ofText name),
    ("metadata", .array (metadata.map Metadata.toJson)),
    ("units", .array (TextUnit.unitsToJson units)),
    ("sentences", .array (sentences.map Sentence.toJson))]

def TextUnit.unitsToJson : List (TextUnit Sentence) → List Value
  | [] => []
  | u :: us => .ofMembers u.members :: TextUnit.unitsToJson us

end

def TextUnit.toJson (u : TextUnit Sentence) : Value := .ofMembers u.members

def Document.toJson (d : Document) : Value :=
  .ofMembers (("title", .ofText d.title) :: d.body.members)

/-- The document in one line of JSON. -/
def Document.write (d : Document) : String := d.toJson.compact

/-! ### Reading -/

/-- A metadata value, all of whose fields are there. -/
def Metadata.ofJson? (room : Nat) (v : Value) : Option Metadata :=
  match room with
  | 0 => none
  | room + 1 => do
    let [some value, some propertyName, some specification] ←
      v.fields? ["value", "property_name", "specification"] 3 | none
    return {
      value := ← value.text?
      propertyName := ← propertyName.text?
      specification := ← MetadataRule.ofJson? room specification
    }

/-- A sentence, both of whose fields are there. -/
def Sentence.ofJson? (room : Nat) (v : Value) : Option Sentence :=
  match room with
  | 0 => none
  | room + 1 => do
    let [some text, some metadata] ← v.fields? ["text", "metadata"] 2 | none
    return {
      text := ← text.text?
      metadata := ← metadata.list? room (Metadata.ofJson? (room - 1))
    }

/-- A unit from the values of its fields, all of which are there. -/
def TextUnit.ofFields? (room : Nat) (unit : Value → Option (TextUnit Sentence)) :
    List (Option Value) → Option (TextUnit Sentence)
  | [some name, some metadata, some units, some sentences] => do
    return {
      name := ← name.text?
      metadata := ← metadata.list? room (Metadata.ofJson? (room - 1))
      units := ← units.list? room unit
      sentences := ← sentences.list? room (Sentence.ofJson? (room - 1))
    }
  | _ => none

/-- A unit inside another. -/
def TextUnit.ofJson? : Nat → Value → Option (TextUnit Sentence)
  | 0, _ => none
  | room + 1, v => do
    let fields ← v.fields? ["name", "metadata", "units", "sentences"] 4
    TextUnit.ofFields? room
      (fun u =>
        match room with
        | 0 => none
        | inner + 1 => TextUnit.ofJson? inner u)
      fields

/-- A document, which is an object and is taken up whole. -/
def Document.ofJson? (v : Value) : Option Document :=
  match v with
  | .object _ => do
    let some title :: fields ←
      v.fields? ["title", "name", "metadata", "units", "sentences"] 5 | none
    if v.sound Json.maxDepth then
      return {
        title := ← title.text?
        body := ← TextUnit.ofFields? (Json.maxDepth - 1) (TextUnit.ofJson? (Json.maxDepth - 2))
          fields
      }
    else none
  | _ => none

/-- The document that a JSON text writes. -/
def Document.read? (text : String) : Option Document :=
  (Value.read? text).bind Document.ofJson?

end XmlHarvest

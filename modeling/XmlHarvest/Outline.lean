/-
Documents drawn as trees, one line for each document, unit and sentence.

A line shows the branch of the tree it hangs on; under the last child of a unit the space below
stays blank, under the others a bar goes on.  Sentences are marked and cut to a width.
-/
import XmlHarvest.Document.Basic
import XmlHarvest.Text.Basic

namespace XmlHarvest.Outline

/-- The most characters that a sentence takes. -/
def maxWidth : Nat := 60

/-- A sentence in one line, its words apart by single spaces, cut when it is too long. -/
def shorten (text : String) : String :=
  let flat := Text.squeeze text.toList
  if flat.length ≤ maxWidth then String.ofList flat
  else String.ofList (flat.take (maxWidth - 1) ++ ['…'])

/-- Metadata in brackets, if there is any. -/
def labels (metadata : List Metadata) : String :=
  if metadata.isEmpty then ""
  else
    " [" ++ String.intercalate ", " (metadata.map fun m => m.propertyName ++ "=" ++ m.value) ++ "]"

/-- The branch at which a child hangs. -/
def branch (last : Bool) : String := if last then "└── " else "├── "

/-- What stands under that branch in the lines below. -/
def continuation (last : Bool) : String := if last then "    " else "│   "

/-- The lines of a unit's sentences.  The last of them is the last child if no unit follows. -/
def sentenceLines (indent : String) (last : Bool) : List Sentence → List String
  | [] => []
  | [s] => [indent ++ branch last ++ "¶ " ++ shorten s.text]
  | s :: t :: ss =>
    (indent ++ branch false ++ "¶ " ++ shorten s.text) :: sentenceLines indent last (t :: ss)

mutual

/-- The lines below the line of a unit: its sentences, then the units in it. -/
def below (indent : String) : TextUnit Sentence → List String
  | ⟨_, _, units, sentences⟩ =>
    sentenceLines indent units.isEmpty sentences ++ unitLines indent units

/-- The lines of the units in a unit. -/
def unitLines (indent : String) : List (TextUnit Sentence) → List String
  | [] => []
  | u :: us =>
    (indent ++ branch us.isEmpty ++ u.name ++ labels u.metadata) ::
      (below (indent ++ continuation us.isEmpty) u ++ unitLines indent us)

end

/-- The lines of a document. -/
def documentLines (d : Document) : List String :=
  (d.title ++ labels d.body.metadata) :: below "" d.body

/-- The trees of some documents, each line ended by a line feed. -/
def render (ds : List Document) : String :=
  String.join ((ds.flatMap documentLines).map (· ++ "\n"))

end XmlHarvest.Outline

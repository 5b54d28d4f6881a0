/-
Metadata of a node by the rules of a grammar.

Values come in the order of the rules, within a rule in the order of its expressions, and for one
expression in document order.
-/
import XmlHarvest.Document.Basic
import XmlHarvest.Harvest.Tools

namespace XmlHarvest

open Xml (Item Tree)

/-- The values in an attribute of the elements among some items: its parts between spaces.  An
element without the attribute gives none, and neither does an item that is an attribute. -/
def attributeValues (t : Tree) (name : String) (items : List Item) : List String :=
  items.flatMap fun x =>
    match x.nodeNumber?.bind fun k => (t.node? k).bind (·.attribute? name) with
    | some value => (Text.runsBetween (· == ' ') value.toList).map String.ofList
    | none => []

/-- The texts of some items without the blanks around them; blank texts give no value. -/
def textValues (t : Tree) (items : List Item) : List String :=
  (items.map fun x => Text.trim (x.text t)).filter (· != "")

/-- The metadata that a rule makes of the items that one of its expressions selects. -/
def MetadataRule.values (t : Tree) (rule : MetadataRule) (items : List Item) : List Metadata :=
  let texts :=
    match rule.attr with
    | some name => attributeValues t name items
    | none => textValues t items
  texts.map fun value => ⟨value, rule.propertyName, rule⟩

variable {m : Type → Type} [Monad m]

/-- The metadata of a node. -/
def metadataAt (tools : Tools m) (t : Tree) (rules : List MetadataRule) (k : Nat) :
    m (List Metadata) :=
  gather (fun rule =>
    gather (fun e => rule.values t <$> XPath.resolve tools.compiled t e k) rule.xpaths) rules

end XmlHarvest

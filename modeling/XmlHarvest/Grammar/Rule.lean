/-
Structure grammars: which elements of a document become units, and which texts their sentences.

A rule whose name contains `sentence` is terminal: what it matches becomes sentences of the unit
around it.  The matches of every other rule become units, to which the rules below it apply.
-/
import XmlHarvest.Text.Basic

namespace XmlHarvest

/-- How metadata values come from a node: from an attribute of the elements that the expressions
select, or from the texts of what they select. -/
structure MetadataRule where
  xpaths : List String
  attr : Option String
  propertyName : String
  deriving DecidableEq, Repr

/-- What all rules have. -/
structure RuleHead where
  name : String
  xpaths : List String
  metadata : List MetadataRule
  deriving DecidableEq, Repr

/-- A rule of a grammar; the grammar is its root rule. -/
inductive Rule
  | terminal (head : RuleHead)
  | nested (head : RuleHead) (units : List Rule)
  deriving Repr

/-- The part that all rules have. -/
def Rule.head : Rule → RuleHead
  | terminal h => h
  | nested h _ => h

/-- The rules below a rule; a terminal rule has none. -/
def Rule.units : Rule → List Rule
  | terminal _ => []
  | nested _ rs => rs

def Rule.isTerminal : Rule → Bool
  | terminal _ => true
  | nested .. => false

/-- Whether a rule of this name is terminal. -/
def marksTerminal (name : String) : Bool :=
  Text.contains name "sentence"

end XmlHarvest

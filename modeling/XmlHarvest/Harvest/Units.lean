/-
The units that a grammar finds in a document.

Under a node, each expression of a rule selects elements, and each selected element becomes a unit
of the rule's name.  The unit takes sentences from the terminal rules below its rule and units from
the others, in the order in which they stand.
-/
import XmlHarvest.Document.Sharing
import XmlHarvest.Harvest.Passage

namespace XmlHarvest

open Xml (Item Tree)

variable {m : Type → Type} [Monad m]

/-- The elements among the children of a node. -/
def elementChildren (t : Tree) (k : Nat) : List Nat := (t.children k).filter t.isElement

/-- The elements that an expression selects under a node; the blank expression selects the
children of the node, not the node itself. -/
def elementsUnder (tools : Tools m) (t : Tree) (k : Nat) (e : String) : m (List Nat) :=
  if XPath.isSelf e then pure (elementChildren t k)
  else
    (fun items => (items.filterMap Item.nodeNumber?).filter t.isElement) <$>
      XPath.resolve tools.compiled t e k

/-- The units of the elements that a rule selects under a node, given what each unit holds. -/
def unitsOver (tools : Tools m) (t : Tree) (head : RuleHead)
    (held : Nat → m (List (TextUnit Passage) × List Passage)) (k : Nat) :
    m (List (TextUnit Passage)) :=
  gather (fun e => do
    let elements ← elementsUnder tools t k e
    gather (fun i => do
      let metadata ← metadataAt tools t head.metadata i
      let (units, passages) ← held i
      return [⟨head.name, metadata, units, passages⟩]) elements) head.xpaths

mutual

/-- The units that a rule makes under a node. -/
def unitsUnder (tools : Tools m) (t : Tree) : Rule → Nat → m (List (TextUnit Passage))
  | .terminal head => unitsOver tools t head fun _ => pure ([], [])
  | .nested head rules => unitsOver tools t head fun i => heldAt tools t rules i

/-- The units and passages that the rules below a rule make at one of its elements. -/
def heldAt (tools : Tools m) (t : Tree) :
    List Rule → Nat → m (List (TextUnit Passage) × List Passage)
  | [], _ => pure ([], [])
  | .terminal head :: rules, k => do
    let passage ← passageAt tools t head k
    let (units, passages) ← heldAt tools t rules k
    return (units, passage :: passages)
  | .nested head inner :: rules, k => do
    let first ← unitsUnder tools t (.nested head inner) k
    let (units, passages) ← heldAt tools t rules k
    return (first ++ units, passages)

end

/-- The same units with sentences for passages. -/
def TextUnit.spread (u : TextUnit Passage) : TextUnit Sentence :=
  u.mapOwn (·.flatMap Passage.sentences)

/-- For each sentence of a unit the number of its list, in the order of first appearance. -/
def TextUnit.passageSharing (u : TextUnit Passage) : List Nat :=
  renumber (u.leaves.zipIdx.flatMap fun (b, k) => List.replicate b.texts.length k)

end XmlHarvest

/-
Documents with numbered nodes.

The nodes of a document are numbered in document order: the root has the number 0, and a node
comes before its children, which come one after the other, each with all that is below it.
Attributes have no numbers.  A number leads to its node at once, and to the numbers of the nodes
around it.
-/
import XmlHarvest.Xml.Node

namespace XmlHarvest.Xml

/-! ### Numbers -/

mutual

/-- How many nodes there are at and below a node. -/
def Node.count : Node → Nat
  | .root ns | .element _ _ ns => Node.countAll ns + 1
  | .text _ | .comment _ | .instruction => 1

/-- How many nodes there are at and below some nodes. -/
def Node.countAll : List Node → Nat
  | [] => 0
  | n :: ns => n.count + Node.countAll ns

end

/-- The numbers of nodes that follow each other, of which the first has the number `k`. -/
def Node.numbers (k : Nat) : List Node → List Nat
  | [] => []
  | n :: ns => k :: Node.numbers (k + n.count) ns

/-- A node with the numbers of the nodes above it, the nearest first, and of its children. -/
structure Entry where
  node : Node
  above : List Nat
  children : List Nat

mutual

/-- The entries of the nodes at and below a node, in document order, given the number of the node
and those of the nodes above it. -/
def Node.entries (k : Nat) (above : List Nat) : Node → List Entry
  | .root ns =>
    ⟨.root ns, above, Node.numbers (k + 1) ns⟩ :: Node.entriesOf (k + 1) (k :: above) ns
  | .element name attributes ns =>
    ⟨.element name attributes ns, above, Node.numbers (k + 1) ns⟩ ::
      Node.entriesOf (k + 1) (k :: above) ns
  | .text s => [⟨.text s, above, []⟩]
  | .comment s => [⟨.comment s, above, []⟩]
  | .instruction => [⟨.instruction, above, []⟩]

/-- The entries of the nodes at and below nodes that follow each other. -/
def Node.entriesOf (k : Nat) (above : List Nat) : List Node → List Entry
  | [] => []
  | n :: ns => Node.entries k above n ++ Node.entriesOf (k + n.count) above ns

end

mutual

/-- Every node at and below a node has an entry. -/
theorem Node.length_entries (k : Nat) (above : List Nat) :
    (n : Node) → (n.entries k above).length = n.count
  | .root ns => by simp [Node.entries, Node.count, Node.length_entriesOf _ _ ns]
  | .element _ _ ns => by simp [Node.entries, Node.count, Node.length_entriesOf _ _ ns]
  | .text _ => rfl
  | .comment _ => rfl
  | .instruction => rfl

theorem Node.length_entriesOf (k : Nat) (above : List Nat) :
    (ns : List Node) → (Node.entriesOf k above ns).length = Node.countAll ns
  | [] => rfl
  | n :: ns => by
    simp [Node.entriesOf, Node.countAll, Node.length_entries _ _ n, Node.length_entriesOf _ _ ns]

end

/-! ### Trees -/

/-- A document, with the entry of every node under the number of the node. -/
structure Tree where
  root : Node
  entries : Array Entry
  entries_eq : entries = (root.entries 0 []).toArray

namespace Tree

/-- The tree of a document. -/
def ofRoot (root : Node) : Tree := ⟨root, (root.entries 0 []).toArray, rfl⟩

/-- The number of the root. -/
def rootNumber : Nat := 0

/-- The node with a number. -/
def node? (t : Tree) (k : Nat) : Option Node := t.entries[k]?.map (·.node)

/-- The numbers of the nodes above a node, the nearest first. -/
def above (t : Tree) (k : Nat) : List Nat := (t.entries[k]?.map (·.above)).getD []

/-- The numbers of the children of a node. -/
def children (t : Tree) (k : Nat) : List Nat := (t.entries[k]?.map (·.children)).getD []

/-- The numbers of the nodes below a node. -/
def below (t : Tree) (k : Nat) : List Nat :=
  match t.node? k with
  | some n => List.range' (k + 1) (n.count - 1)
  | none => []

/-- The numbers of the children of the node above, itself among them. -/
def siblings (t : Tree) (k : Nat) : List Nat :=
  match t.above k with
  | [] => []
  | parent :: _ => t.children parent

/-- The attributes of a node. -/
def attributes (t : Tree) (k : Nat) : List Attribute :=
  ((t.node? k).map Node.attributes).getD []

/-- Whether a node is an element. -/
def isElement (t : Tree) (k : Nat) : Bool := (t.node? k).any Node.isElement

end Tree

end XmlHarvest.Xml

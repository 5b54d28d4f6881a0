/-
What an expression selects from an item of a document.

A path goes step by step: all items that a step reaches from the items before are put in document
order without repetition before the next step.  Predicates filter the items of one step from one
item, in the order of the axis, one predicate after the other, so positions count what the
predicates before have left.
-/
import XmlHarvest.XPath.Path
import XmlHarvest.Xml.Item

namespace XmlHarvest.XPath

open Xml (Item Node Tree)

/-! ### Axes -/

/-- The numbers of the nodes on an axis from a node, nearest first. -/
def Axis.numbers (t : Tree) (k : Nat) : Axis → List Nat
  | .child => t.children k
  | .descendant => t.below k
  | .descendantOrSelf => k :: t.below k
  | .self => [k]
  | .parent => (t.above k).take 1
  | .ancestor => t.above k
  | .attributes => []
  | .followingSibling => (t.siblings k).filter (k < ·)
  | .precedingSibling => ((t.siblings k).filter (· < k)).reverse

/-- The items on an axis from a node, nearest first. -/
def Axis.ofNode (t : Tree) (k : Nat) : Axis → List Item
  | .attributes => (List.range (t.attributes k).length).map fun i => ⟨k, some i⟩
  | axis => (axis.numbers t k).map .node

/-- The items on an axis from an attribute: itself, and the element that has it with all above. -/
def Axis.ofAttribute (t : Tree) (k i : Nat) : Axis → List Item
  | .self => [⟨k, some i⟩]
  | .parent => [.node k]
  | .ancestor => (k :: t.above k).map .node
  | _ => []

/-- The items on an axis from an item, nearest first. -/
def Axis.items (t : Tree) (axis : Axis) (x : Item) : List Item :=
  match x.slot with
  | some i => axis.ofAttribute t x.number i
  | none => axis.ofNode t x.number

/-! ### Node tests -/

/-- Whether a node passes a test.  Only elements have names here. -/
def NodeTest.acceptsNode (n : Node) : NodeTest → Bool
  | .any => n.isElement
  | .name label => n.label? == some label
  | .text => n.isText
  | .node => true

/-- Whether an item passes a test. -/
def NodeTest.accepts (t : Tree) (test : NodeTest) (x : Item) : Bool :=
  match x.slot with
  | none => (t.node? x.number).any test.acceptsNode
  | some _ =>
    match test with
    | .any | .node => true
    | .name label => x.label? t == some label
    | .text => false

/-! ### Steps and paths -/

/-- Whether two texts compare in the given way. -/
def Comparison.holds (c : Comparison) (s t : String) : Bool :=
  match c with
  | .equal => s == t
  | .notEqual => s != t

mutual

/-- The items that a path selects from an item. -/
def Path.select (t : Tree) : Path → Item → List Item
  | .mk absolute steps, x =>
    Step.selectAll t steps [if absolute then .node Tree.rootNumber else x]

/-- The items that steps one after the other reach from some items. -/
def Step.selectAll (t : Tree) : List Step → List Item → List Item
  | [], xs => xs
  | s :: ss, xs => Step.selectAll t ss (Item.union (xs.map fun x => Item.arrange (Step.select t s x)))

/-- The items that a step reaches from one item, in the order of its axis. -/
def Step.select (t : Tree) : Step → Item → List Item
  | .mk axis test predicates, x =>
    Predicate.filterAll t predicates ((axis.items t x).filter (test.accepts t))

/-- The items that pass predicates one after the other. -/
def Predicate.filterAll (t : Tree) : List Predicate → List Item → List Item
  | [], xs => xs
  | p :: ps, xs =>
    let size := xs.length
    Predicate.filterAll t ps
      (((xs.zipIdx 1).filter fun (x, k) => Predicate.holds t p x k size).map (·.1))

/-- Whether an item that is the `position`th of `size` passes a predicate. -/
def Predicate.holds (t : Tree) : Predicate → Item → Nat → Nat → Bool
  | .position n, _, position, _ => position == n
  | .last, _, position, size => position == size
  | .nonempty path, x, _, _ => !(Path.select t path x).isEmpty
  | .compare path c literal, x, _, _ =>
    (Path.select t path x).any fun y => c.holds (y.text t) literal

end

/-- The items that an expression selects from a node. -/
def Expression.select (t : Tree) (e : Expression) (k : Nat) : List Item :=
  Item.union (e.paths.map fun path => path.select t (.node k))

end XmlHarvest.XPath

/-
Expressions: unions of location paths, whose steps may carry predicates that are paths again.
-/
namespace XmlHarvest.XPath

/-- The direction in which a step looks. -/
inductive Axis
  | child
  | descendant
  | descendantOrSelf
  | self
  | parent
  | ancestor
  | attributes
  | followingSibling
  | precedingSibling
  deriving DecidableEq, Repr

/-- The axis of a name. -/
def Axis.ofName? : String → Option Axis
  | "child" => some child
  | "descendant" => some descendant
  | "descendant-or-self" => some descendantOrSelf
  | "self" => some self
  | "parent" => some parent
  | "ancestor" => some ancestor
  | "attribute" => some attributes
  | "following-sibling" => some followingSibling
  | "preceding-sibling" => some precedingSibling
  | _ => none

/-- Which items on its axis a step takes. -/
inductive NodeTest
  /-- Elements or attributes with this local name, in any namespace. -/
  | name (name : String)
  /-- All elements or attributes. -/
  | any
  | text
  | node
  deriving DecidableEq, Repr

/-- How a predicate compares texts. -/
inductive Comparison
  | equal
  | notEqual
  deriving DecidableEq, Repr

mutual

/-- A location path. -/
inductive Path
  | mk (absolute : Bool) (steps : List Step)

/-- A step: from an item to those items on an axis that pass the test and every predicate. -/
inductive Step
  | mk (axis : Axis) (test : NodeTest) (predicates : List Predicate)

/-- A condition on the items of a step. -/
inductive Predicate
  /-- The item's place on the axis, counted from one. -/
  | position (n : Nat)
  | last
  /-- The path selects something. -/
  | nonempty (path : Path)
  /-- The path selects something whose text compares in this way with the literal. -/
  | compare (path : Path) (comparison : Comparison) (literal : String)

end

deriving instance Repr for Path, Step, Predicate

/-- Whether the path starts at the document root. -/
def Path.absolute : Path → Bool
  | mk a _ => a

/-- The steps of a path. -/
def Path.steps : Path → List Step
  | mk _ ss => ss

/-- The step `descendant-or-self::node()`, which `//` stands for. -/
def Step.anyDepth : Step := .mk .descendantOrSelf .node []

/-- The step `.`. -/
def Step.here : Step := .mk .self .node []

/-- The step `..`. -/
def Step.up : Step := .mk .parent .node []

/-- An expression is a union of paths. -/
structure Expression where
  paths : List Path
  deriving Repr

end XmlHarvest.XPath

/-
What an expression selects: nodes and attributes of a document, in document order.

A node comes before its attributes, these come in their own order, and all of them come before
the children of the node.
-/
import XmlHarvest.Xml.Tree

namespace XmlHarvest.Xml

/-- A node by its number, or one of the attributes of the element with that number by its place
among them. -/
structure Item where
  number : Nat
  slot : Option Nat
  deriving DecidableEq, Repr

/-- A node as an item. -/
def Item.node (k : Nat) : Item := ⟨k, none⟩

/-! ### Order -/

/-- Document order. -/
def Item.order (x y : Item) : Ordering :=
  (compare x.number y.number).then (compare x.slot y.slot)

/-- Merge a list with one that begins with `x`, given how to merge it with the rest of that. -/
def Item.mergeFrom (x : Item) (rest : List Item → List Item) : List Item → List Item
  | [] => x :: rest []
  | y :: ys =>
    match x.order y with
    | .lt => x :: rest (y :: ys)
    | .eq => x :: rest ys
    | .gt => y :: x.mergeFrom rest ys

/-- The items of two lists in document order, in document order without repetition. -/
def Item.merge : List Item → List Item → List Item
  | [], ys => ys
  | x :: xs, ys => x.mergeFrom (Item.merge xs) ys

/-- Merge lists two by two. -/
def Item.mergePairs : List (List Item) → List (List Item)
  | xs :: ys :: rest => Item.merge xs ys :: Item.mergePairs rest
  | rest => rest

/-- Merge all lists: in rounds two by two, and one by one when the rounds are used up. -/
def Item.mergeRounds : Nat → List (List Item) → List Item
  | _, [] => []
  | _, [xs] => xs
  | 0, lists => lists.foldr Item.merge []
  | rounds + 1, lists => Item.mergeRounds rounds (Item.mergePairs lists)

/-- The items of lists in document order, in document order without repetition. -/
def Item.union (lists : List (List Item)) : List Item :=
  Item.mergeRounds lists.length lists

/-- Put an item before lists in document order: before the first of them, if it belongs there, or
else in a list of its own. -/
def Item.addToRuns (x : Item) : List (List Item) → List (List Item)
  | (y :: ys) :: runs => if x.order y = .lt then (x :: y :: ys) :: runs else [x] :: (y :: ys) :: runs
  | runs => [x] :: runs

/-- Items in document order and without repetition. -/
def Item.arrange (xs : List Item) : List Item :=
  Item.union (xs.foldr Item.addToRuns [])

/-! ### Arranging keeps the items and adds none -/

theorem Item.eq_of_order_eq {x y : Item} (h : x.order y = .eq) : x = y := by
  obtain ⟨hn, hs⟩ := Ordering.then_eq_eq.mp h
  cases x
  cases y
  simp only [Std.LawfulEqOrd.compare_eq_iff_eq] at hn hs
  rw [hn, hs]

theorem Item.mem_mergeFrom {x z : Item} {rest : List Item → List Item} {xs : List Item}
    (h : ∀ ys, z ∈ rest ys ↔ z ∈ xs ∨ z ∈ ys) (ys : List Item) :
    z ∈ x.mergeFrom rest ys ↔ z ∈ x :: xs ∨ z ∈ ys := by
  induction ys with
  | nil => simp [Item.mergeFrom, h]
  | cons y ys ih =>
    unfold Item.mergeFrom
    split
    · simp [h, or_assoc]
    · rename_i e
      have : x = y := Item.eq_of_order_eq e
      subst this
      simp only [List.mem_cons, h]
      grind
    · simp only [List.mem_cons, ih]
      grind

theorem Item.mem_merge {z : Item} (xs ys : List Item) :
    z ∈ Item.merge xs ys ↔ z ∈ xs ∨ z ∈ ys := by
  induction xs generalizing ys with
  | nil => simp [Item.merge]
  | cons x xs ih => exact Item.mem_mergeFrom ih ys

theorem Item.mem_flatten_mergePairs {z : Item} (lists : List (List Item)) :
    z ∈ (Item.mergePairs lists).flatten ↔ z ∈ lists.flatten := by
  fun_induction Item.mergePairs lists with
  | case1 xs ys rest ih =>
    simp only [List.flatten_cons, List.mem_append, Item.mem_merge, ih, or_assoc]
  | case2 => rfl

theorem Item.mem_foldr_merge {z : Item} (lists : List (List Item)) :
    z ∈ lists.foldr Item.merge [] ↔ z ∈ lists.flatten := by
  induction lists with
  | nil => simp
  | cons xs lists ih => simp only [List.foldr_cons, List.flatten_cons, List.mem_append,
      Item.mem_merge, ih]

theorem Item.mem_union {z : Item} (lists : List (List Item)) :
    z ∈ Item.union lists ↔ z ∈ lists.flatten := by
  unfold Item.union
  generalize lists.length = rounds
  fun_induction Item.mergeRounds rounds lists with
  | case1 => simp
  | case2 => simp
  | case3 lists => exact Item.mem_foldr_merge lists
  | case4 rounds lists _ _ ih => rw [ih, Item.mem_flatten_mergePairs]

theorem Item.mem_flatten_addToRuns {x z : Item} (runs : List (List Item)) :
    z ∈ (x.addToRuns runs).flatten ↔ z = x ∨ z ∈ runs.flatten := by
  unfold Item.addToRuns
  split
  · split <;> simp
  · simp

theorem Item.mem_arrange {z : Item} (xs : List Item) : z ∈ Item.arrange xs ↔ z ∈ xs := by
  unfold Item.arrange
  rw [Item.mem_union]
  induction xs with
  | nil => simp
  | cons x xs ih => rw [List.foldr_cons, Item.mem_flatten_addToRuns, ih, List.mem_cons]

/-! ### What an item is in a document -/

/-- The attribute that an item names, if it names one. -/
def Item.attribute? (t : Tree) (x : Item) : Option Attribute :=
  x.slot.bind fun k => (t.attributes x.number)[k]?

/-- The name of an element or attribute without its namespace. -/
def Item.label? (t : Tree) (x : Item) : Option String :=
  match x.slot with
  | none => (t.node? x.number).bind Node.label?
  | some _ => (x.attribute? t).map (·.name.label)

/-- The text of an item: an attribute's value, or the text that stands for a node. -/
def Item.text (t : Tree) (x : Item) : String :=
  match x.slot with
  | none => ((t.node? x.number).map Node.stringValue).getD ""
  | some _ => ((x.attribute? t).map (·.value)).getD ""

/-- The number of an item that is a node. -/
def Item.nodeNumber? (x : Item) : Option Nat :=
  match x.slot with
  | none => some x.number
  | some _ => none

end XmlHarvest.Xml

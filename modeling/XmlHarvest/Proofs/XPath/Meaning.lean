/-
What expressions mean.

A path leads from an item to an item along a chain of one item for each step, and a step takes an
item to those on its axis that pass its test and survive its predicates one after the other.  This
says nothing of lists that are sorted or joined between the steps.  Evaluation selects exactly the
items to which a path leads (`Path.mem_select`), each once and in document order.
-/
import XmlHarvest.Proofs.Xml.Order
import XmlHarvest.XPath.Selection

namespace XmlHarvest.XPath

open Xml (Item Tree)

/-! ### Survivors -/

/-- Of some items, of which the first has the position `n`, those remain that satisfy `P` at their
positions. -/
inductive Kept (P : Item → Nat → Prop) : Nat → List Item → List Item → Prop
  | nil {n : Nat} : Kept P n [] []
  | keep {n : Nat} {x : Item} {xs ys : List Item} (holds : P x n) (rest : Kept P (n + 1) xs ys) :
      Kept P n (x :: xs) (x :: ys)
  | drop {n : Nat} {x : Item} {xs ys : List Item} (fails : ¬ P x n)
      (rest : Kept P (n + 1) xs ys) : Kept P n (x :: xs) ys

/-- Two texts compare in the given way. -/
def Comparison.Relates : Comparison → String → String → Prop
  | .equal, s, s' => s = s'
  | .notEqual, s, s' => s ≠ s'

/-! ### Paths, steps and predicates -/

mutual

/-- The path leads from the item `x`, or from the root if it is absolute, to the item `y`. -/
def Path.Leads (t : Tree) : Path → Item → Item → Prop
  | .mk absolute steps, x, y => Step.Chain t steps (if absolute then .node Tree.rootNumber else x) y

/-- Steps one after the other lead from `x` to `y`, with one item between two steps. -/
def Step.Chain (t : Tree) : List Step → Item → Item → Prop
  | [], x, y => x = y
  | s :: ss, x, y => ∃ z, Step.Takes t s x z ∧ Step.Chain t ss z y

/-- The step takes `x` to `y`: on the axis from `x` the item passes the test, and it is among the
survivors of the predicates. -/
def Step.Takes (t : Tree) : Step → Item → Item → Prop
  | .mk axis test predicates, x, y =>
    ∃ ys, Predicate.Leave t predicates ((axis.items t x).filter (test.accepts t)) ys ∧ y ∈ ys

/-- The predicates leave the items `ys` of `xs`, each counting positions and the size anew among
those that the predicates before it have left. -/
def Predicate.Leave (t : Tree) : List Predicate → List Item → List Item → Prop
  | [], xs, ys => xs = ys
  | p :: ps, xs, ys =>
    ∃ zs, Kept (fun x n => Predicate.Holds t p x n xs.length) 1 xs zs ∧ Predicate.Leave t ps zs ys

/-- The predicate holds of an item that is the `position`th of `size`. -/
def Predicate.Holds (t : Tree) : Predicate → Item → Nat → Nat → Prop
  | .position n, _, position, _ => position = n
  | .last, _, position, size => position = size
  | .nonempty path, x, _, _ => ∃ y, Path.Leads t path x y
  | .compare path c literal, x, _, _ => ∃ y, Path.Leads t path x y ∧ c.Relates (y.text t) literal

end

/-! ### Evaluation -/

/-- Filtering by positions leaves what is kept. -/
theorem kept_iff {P : Item → Nat → Prop} {f : Item → Nat → Bool} (h : ∀ x n, f x n = true ↔ P x n)
    (xs : List Item) (n : Nat) (ys : List Item) :
    Kept P n xs ys ↔ ((xs.zipIdx n).filter fun (x, k) => f x k).map (·.1) = ys := by
  induction xs generalizing n ys with
  | nil =>
    constructor
    · rintro ⟨⟩
      rfl
    · rintro rfl
      exact .nil
  | cons x xs ih =>
    rw [List.zipIdx_cons, List.filter_cons]
    by_cases hx : f x n = true
    · rw [if_pos hx, List.map_cons]
      constructor
      · intro hkept
        cases hkept with
        | keep _ rest => rw [(ih _ _).mp rest]
        | drop fails _ => exact absurd ((h x n).mp hx) fails
      · rintro rfl
        exact .keep ((h x n).mp hx) ((ih _ _).mpr rfl)
    · rw [if_neg hx]
      constructor
      · intro hkept
        cases hkept with
        | keep holds _ => exact absurd ((h x n).mpr holds) hx
        | drop _ rest => exact (ih _ _).mp rest
      · intro hys
        exact .drop (fun holds => hx ((h x n).mpr holds)) ((ih _ _).mpr hys)

theorem Comparison.holds_iff (c : Comparison) (s s' : String) :
    c.holds s s' = true ↔ c.Relates s s' := by
  cases c <;> simp [Comparison.holds, Comparison.Relates]

mutual

/-- A path selects exactly the items to which it leads. -/
theorem Path.mem_select (t : Tree) : ∀ (p : Path) (x y : Item),
    y ∈ p.select t x ↔ p.Leads t x y
  | .mk absolute steps, x, y => by
    rw [Path.select, Path.Leads, Step.mem_selectAll t steps]
    simp

theorem Step.mem_selectAll (t : Tree) : ∀ (ss : List Step) (xs : List Item) (y : Item),
    y ∈ Step.selectAll t ss xs ↔ ∃ x ∈ xs, Step.Chain t ss x y
  | [], xs, y => by simp [Step.selectAll, Step.Chain]
  | s :: ss, xs, y => by
    rw [Step.selectAll, Step.mem_selectAll t ss]
    constructor
    · -- An item of the union was reached from one of the items before.
      rintro ⟨z, hz, hchain⟩
      obtain ⟨zs, hzs, hz⟩ := List.mem_flatten.mp ((Item.mem_union _).mp hz)
      obtain ⟨x, hx, rfl⟩ := List.mem_map.mp hzs
      exact ⟨x, hx, z, (Step.mem_select t s x z).mp ((Item.mem_arrange _).mp hz), hchain⟩
    · rintro ⟨x, hx, z, htakes, hchain⟩
      refine ⟨z, ?_, hchain⟩
      rw [Item.mem_union, List.mem_flatten]
      refine ⟨_, List.mem_map_of_mem hx, ?_⟩
      rw [Item.mem_arrange]
      exact (Step.mem_select t s x z).mpr htakes

theorem Step.mem_select (t : Tree) : ∀ (s : Step) (x y : Item),
    y ∈ s.select t x ↔ s.Takes t x y
  | .mk axis test predicates, x, y => by
    rw [Step.select, Step.Takes]
    constructor
    · intro hy
      exact ⟨_, (Predicate.leave_iff t predicates _ _).mpr rfl, hy⟩
    · rintro ⟨ys, hleave, hy⟩
      rwa [(Predicate.leave_iff t predicates _ _).mp hleave]

/-- Predicates one after the other leave the items that filtering by them leaves. -/
theorem Predicate.leave_iff (t : Tree) : ∀ (ps : List Predicate) (xs ys : List Item),
    Predicate.Leave t ps xs ys ↔ Predicate.filterAll t ps xs = ys
  | [], xs, ys => by rw [Predicate.Leave, Predicate.filterAll]
  | p :: ps, xs, ys => by
    -- The size is that of the list before the predicate, whichever items are left.
    have hkept := kept_iff (fun x n => Predicate.holds_iff t p x n xs.length) xs 1
    rw [Predicate.Leave, Predicate.filterAll]
    constructor
    · rintro ⟨zs, hzs, hleave⟩
      rw [(hkept zs).mp hzs]
      exact (Predicate.leave_iff t ps zs ys).mp hleave
    · intro hys
      exact ⟨_, (hkept _).mpr rfl, (Predicate.leave_iff t ps _ ys).mpr hys⟩

theorem Predicate.holds_iff (t : Tree) : ∀ (p : Predicate) (x : Item) (position size : Nat),
    p.holds t x position size = true ↔ p.Holds t x position size
  | .position n, x, position, size => by simp [Predicate.holds, Predicate.Holds]
  | .last, x, position, size => by simp [Predicate.holds, Predicate.Holds]
  | .nonempty path, x, position, size => by
    rw [Predicate.holds, Predicate.Holds, Bool.not_eq_true', List.isEmpty_eq_false_iff_exists_mem]
    exact exists_congr fun y => Path.mem_select t path x y
  | .compare path c literal, x, position, size => by
    rw [Predicate.holds, Predicate.Holds, List.any_eq_true]
    refine exists_congr fun y => ?_
    rw [Path.mem_select t path x y, c.holds_iff]

end

/-! ### Longer paths -/

/-- The path with further steps behind it. -/
def Path.followedBy : Path → List Step → Path
  | .mk absolute steps, ss => .mk absolute (steps ++ ss)

theorem Step.chain_append {t : Tree} (ss ss' : List Step) (x y : Item) :
    Step.Chain t (ss ++ ss') x y ↔ ∃ z, Step.Chain t ss x z ∧ Step.Chain t ss' z y := by
  induction ss generalizing x with
  | nil => simp [Step.Chain]
  | cons s ss ih =>
    rw [List.cons_append, Step.Chain]
    simp only [ih, Step.Chain]
    constructor
    · rintro ⟨z, htakes, z', hchain, hrest⟩
      exact ⟨z', ⟨z, htakes, hchain⟩, hrest⟩
    · rintro ⟨z', ⟨z, htakes, hchain⟩, hrest⟩
      exact ⟨z, htakes, z', hchain, hrest⟩

theorem Step.chain_singleton {t : Tree} {s : Step} {x y : Item} :
    Step.Chain t [s] x y ↔ s.Takes t x y := by
  simp [Step.Chain]

/-- Further steps lead on from where the path leads. -/
theorem Path.leads_followedBy {t : Tree} (p : Path) (ss : List Step) (x y : Item) :
    (p.followedBy ss).Leads t x y ↔ ∃ z, p.Leads t x z ∧ Step.Chain t ss z y := by
  obtain ⟨absolute, steps⟩ := p
  simp only [Path.followedBy, Path.Leads, Step.chain_append]

/-! ### Document order -/

theorem Predicate.mem_of_mem_filterAll {t : Tree} {ps : List Predicate} {xs : List Item} {y : Item}
    (h : y ∈ Predicate.filterAll t ps xs) : y ∈ xs := by
  induction ps generalizing xs with
  | nil => rwa [Predicate.filterAll] at h
  | cons p ps ih =>
    rw [Predicate.filterAll] at h
    obtain ⟨e, he, rfl⟩ := List.mem_map.mp (ih h)
    exact List.fst_mem_of_mem_zipIdx (List.mem_filter.mp he).1

theorem not_mem_map_node {ks : List Nat} {k i : Nat} : (⟨k, some i⟩ : Item) ∉ ks.map Item.node := by
  intro h
  obtain ⟨j, -, hj⟩ := List.mem_map.mp h
  cases hj

/-- An attribute stands on an axis only from itself or from its element. -/
theorem Axis.attribute_mem_items {t : Tree} {axis : Axis} {x : Item} {k i : Nat}
    (h : ⟨k, some i⟩ ∈ axis.items t x) : x = ⟨k, some i⟩ ∨ i < (t.attributes k).length := by
  obtain ⟨number, slot⟩ := x
  cases slot with
  | some j =>
    left
    cases axis with
    | self => exact (List.mem_singleton.mp h).symm
    | parent => cases List.mem_singleton.mp h
    | ancestor => exact absurd h not_mem_map_node
    | child | descendant | descendantOrSelf | attributes | followingSibling | precedingSibling =>
      exact absurd h List.not_mem_nil
  | none =>
    right
    cases axis with
    | attributes =>
      obtain ⟨j, hj, heq⟩ := List.mem_map.mp h
      cases heq
      exact List.mem_range.mp hj
    | child | descendant | descendantOrSelf | self | parent | ancestor | followingSibling
    | precedingSibling => exact absurd h not_mem_map_node

/-- What stands on an axis from an item of the document and passes a test is one, too. -/
theorem Axis.mem_items {t : Tree} {axis : Axis} {test : NodeTest} {x y : Item} (hx : x ∈ t.items)
    (hy : y ∈ axis.items t x) (haccepts : test.accepts t y = true) : y ∈ t.items := by
  obtain ⟨k, slot⟩ := y
  cases slot with
  | none =>
    -- Only nodes that are there pass a test.
    refine Tree.node_mem_items ?_
    unfold NodeTest.accepts at haccepts
    cases hnode : t.node? k with
    | none => simp [hnode] at haccepts
    | some n => rfl
  | some i =>
    -- A test does not look whether an attribute is there, but the axis does.
    rcases Axis.attribute_mem_items hy with rfl | hi
    · exact hx
    · exact Tree.attribute_mem_items hi

theorem Step.takes_mem_items {t : Tree} {s : Step} {x y : Item} (hx : x ∈ t.items)
    (h : s.Takes t x y) : y ∈ t.items := by
  rw [← Step.mem_select] at h
  obtain ⟨axis, test, predicates⟩ := s
  rw [Step.select] at h
  obtain ⟨haxis, haccepts⟩ := List.mem_filter.mp (Predicate.mem_of_mem_filterAll h)
  exact Axis.mem_items hx haxis haccepts

theorem Step.chain_mem_items {t : Tree} {ss : List Step} {x y : Item} (hx : x ∈ t.items)
    (h : Step.Chain t ss x y) : y ∈ t.items := by
  induction ss generalizing x with
  | nil =>
    obtain rfl : x = y := by rwa [Step.Chain] at h
    exact hx
  | cons s ss ih =>
    rw [Step.Chain] at h
    obtain ⟨z, htakes, hchain⟩ := h
    exact ih (Step.takes_mem_items hx htakes) hchain

/-- A path leads from items of the document to items of the document. -/
theorem Path.leads_mem_items {t : Tree} {p : Path} {x y : Item} (hx : x ∈ t.items)
    (h : p.Leads t x y) : y ∈ t.items := by
  obtain ⟨absolute, steps⟩ := p
  rw [Path.Leads] at h
  refine Step.chain_mem_items ?_ h
  cases absolute with
  | true => exact Tree.root_mem_items t
  | false => exact hx

theorem Step.ordered_selectAll (t : Tree) (ss : List Step) {xs : List Item} (h : Item.Ordered xs) :
    Item.Ordered (Step.selectAll t ss xs) := by
  induction ss generalizing xs with
  | nil => rwa [Step.selectAll]
  | cons s ss ih =>
    rw [Step.selectAll]
    refine ih (Item.ordered_union ?_)
    intro ys hys
    obtain ⟨x, -, rfl⟩ := List.mem_map.mp hys
    exact Item.ordered_arrange _

theorem Path.ordered_select (t : Tree) (p : Path) (x : Item) : Item.Ordered (p.select t x) := by
  obtain ⟨absolute, steps⟩ := p
  rw [Path.select]
  exact Step.ordered_selectAll t steps (List.pairwise_singleton _ _)

/-- An expression selects exactly the items to which one of its paths leads. -/
theorem Expression.mem_select (t : Tree) (e : Expression) (k : Nat) (y : Item) :
    y ∈ e.select t k ↔ ∃ p ∈ e.paths, p.Leads t (.node k) y := by
  rw [select, Item.mem_union, List.mem_flatten]
  constructor
  · rintro ⟨ys, hys, hy⟩
    obtain ⟨p, hp, rfl⟩ := List.mem_map.mp hys
    exact ⟨p, hp, (p.mem_select t (.node k) y).mp hy⟩
  · rintro ⟨p, hp, hleads⟩
    exact ⟨_, List.mem_map_of_mem hp, (p.mem_select t (.node k) y).mpr hleads⟩

theorem Expression.ordered_select (t : Tree) (e : Expression) (k : Nat) :
    Item.Ordered (e.select t k) := by
  refine Item.ordered_union ?_
  intro ys hys
  obtain ⟨p, -, rfl⟩ := List.mem_map.mp hys
  exact p.ordered_select t (.node k)

/-- What an expression selects at a node are items of the document. -/
theorem Expression.mem_items_of_mem_select {t : Tree} {e : Expression} {k : Nat} {x : Item}
    (hk : (t.node? k).isSome = true) (hx : x ∈ e.select t k) : x ∈ t.items := by
  obtain ⟨p, -, hleads⟩ := (e.mem_select t k x).mp hx
  exact Path.leads_mem_items (Tree.node_mem_items hk) hleads

/-- An expression selects exactly the items of the document to which one of its paths leads from
the node, in the order in which the document holds them and each once. -/
theorem Expression.select_meaning (t : Tree) (e : Expression) {k : Nat}
    (hk : (t.node? k).isSome = true) :
    (e.select t k).Sublist t.items ∧ (e.select t k).Pairwise Item.Before ∧
      ∀ y, y ∈ e.select t k ↔ ∃ p ∈ e.paths, p.Leads t (.node k) y := by
  have hordered : Item.Ordered (e.select t k) := e.ordered_select t k
  have hsubset : e.select t k ⊆ t.items := fun y hy => mem_items_of_mem_select hk hy
  refine ⟨?_, hordered, e.mem_select t k⟩
  exact Item.Ordered.sublist hordered t.ordered_items hsubset

/-- From an element, two paths that lead to the second text and to everything: together they select
all items of the document, each once. -/
theorem Expression.select_meaning_all :
    let t := Tree.ofRoot
      (.root [.element ⟨none, "a"⟩ [⟨⟨none, "b"⟩, "c"⟩] [.text "d", .comment "e", .text "f"]])
    let everything : Path := .mk true [.anyDepth]
    let e : Expression :=
      ⟨[.mk false [.mk .child .text [.last]], everything,
        .mk true [.anyDepth, .mk .attributes .any []]]⟩
    (t.node? 1).isSome = true ∧ e.select t 1 = t.items ∧ (e.select t 1).Sublist t.items ∧
      (e.select t 1).Pairwise Item.Before ∧
      ∀ y, y ∈ e.select t 1 ↔ ∃ p ∈ e.paths, p.Leads t (.node 1) y := by
  intro t everything e
  have hk : (t.node? 1).isSome = true := by decide
  have hall : e.select t 1 = t.items := by decide +kernel
  exact ⟨hk, hall, Expression.select_meaning t e hk⟩

end XmlHarvest.XPath

/-
Expressions that look downward.

An expression looks downward if its paths, and the paths in their predicates, are relative and take
no step up or aside.  What it selects at a node depends on the subtree of the node only: it is what
the expression selects at the top of the document that is this subtree, with the numbers that the
items have here (`Expression.select_shift`).
-/
import XmlHarvest.Proofs.XPath.Meaning
import XmlHarvest.Proofs.Xml.Subtree
import XmlHarvest.XPath.Parser

namespace XmlHarvest.XPath

open Xml (Item Node Tree)

/-! ### Downward steps -/

/-- The axis leads to the item itself, to attributes or to what is below. -/
def Axis.isDownward : Axis → Bool
  | child | descendant | descendantOrSelf | self | attributes => true
  | parent | ancestor | followingSibling | precedingSibling => false

mutual

/-- The path is relative, and all its steps look downward. -/
def Path.isDownward : Path → Bool
  | .mk absolute steps => !absolute && Step.allDownward steps

def Step.allDownward : List Step → Bool
  | [] => true
  | s :: ss => s.isDownward && Step.allDownward ss

/-- The step looks downward, and so do its predicates. -/
def Step.isDownward : Step → Bool
  | .mk axis _ predicates => axis.isDownward && Predicate.allDownward predicates

def Predicate.allDownward : List Predicate → Bool
  | [] => true
  | p :: ps => p.isDownward && Predicate.allDownward ps

/-- The path of the predicate looks downward, if it has one. -/
def Predicate.isDownward : Predicate → Bool
  | .position _ | .last => true
  | .nonempty path | .compare path _ _ => path.isDownward

end

/-- All paths of the expression look downward. -/
def Expression.isDownward (e : Expression) : Bool := e.paths.all Path.isDownward

/-! ### Axes and tests -/

section Steps

variable {t : Tree} {axis : Axis} {k : Nat} {x y : Item}

theorem Axis.lt_of_mem_numbers (hdown : axis.isDownward = true) (hk : k < t.root.count) {i : Nat}
    (hi : i ∈ axis.numbers t k) : i < t.root.count := by
  cases axis with
  | child => exact Tree.lt_of_mem_children hi
  | descendant => exact Tree.lt_of_mem_below hi
  | descendantOrSelf =>
    rcases List.mem_cons.mp hi with rfl | hi
    · exact hk
    · exact Tree.lt_of_mem_below hi
  | self => exact List.mem_singleton.mp hi ▸ hk
  | attributes => cases hi
  | parent | ancestor | followingSibling | precedingSibling => cases hdown

theorem Axis.lt_of_mem_items (hdown : axis.isDownward = true) (hx : x.number < t.root.count)
    (hy : y ∈ axis.items t x) : y.number < t.root.count := by
  obtain ⟨k, slot⟩ := x
  cases slot with
  | some i =>
    cases axis with
    | self => exact List.mem_singleton.mp hy ▸ hx
    | child | descendant | descendantOrSelf | attributes => cases hy
    | parent | ancestor | followingSibling | precedingSibling => cases hdown
  | none =>
    cases axis with
    | child | descendant | descendantOrSelf | self =>
      obtain ⟨i, hi, rfl⟩ := List.mem_map.mp hy
      exact Axis.lt_of_mem_numbers hdown hx hi
    | attributes =>
      obtain ⟨i, -, rfl⟩ := List.mem_map.mp hy
      exact hx
    | parent | ancestor | followingSibling | precedingSibling => cases hdown

variable {d : Nat} {n : Node}

theorem Axis.numbers_add (h : t.node? d = some n) (hdown : axis.isDownward = true)
    (hk : k < n.count) :
    axis.numbers t (d + k) = (axis.numbers (Tree.ofRoot n) k).map (d + ·) := by
  cases axis with
  | child => exact Tree.children_add h hk
  | descendant => exact Tree.below_add h hk
  | descendantOrSelf => exact congrArg (List.cons (d + k)) (Tree.below_add h hk)
  | self | attributes => rfl
  | parent | ancestor | followingSibling | precedingSibling => cases hdown

theorem Axis.items_shift (h : t.node? d = some n) (hdown : axis.isDownward = true)
    (hx : x.number < n.count) :
    axis.items t (x.shift d) = (axis.items (Tree.ofRoot n) x).map (Item.shift d) := by
  obtain ⟨k, slot⟩ := x
  cases slot with
  | some i =>
    cases axis with
    | self | child | descendant | descendantOrSelf | attributes => rfl
    | parent | ancestor | followingSibling | precedingSibling => cases hdown
  | none =>
    have hnodes : (axis.numbers t (d + k)).map Item.node =
        ((axis.numbers (Tree.ofRoot n) k).map Item.node).map (Item.shift d) := by
      rw [Axis.numbers_add h hdown hx, List.map_map, List.map_map]
      rfl
    cases axis with
    | child | descendant | descendantOrSelf | self => exact hnodes
    | attributes =>
      show (List.range (t.attributes (d + k)).length).map _ = ((List.range _).map _).map _
      rw [Tree.attributes_add h hx, List.map_map]
      rfl
    | parent | ancestor | followingSibling | precedingSibling => cases hdown

theorem NodeTest.accepts_shift (h : t.node? d = some n) (test : NodeTest)
    (hx : x.number < n.count) :
    test.accepts t (x.shift d) = test.accepts (Tree.ofRoot n) x := by
  unfold NodeTest.accepts
  rw [Item.label?_shift h hx]
  simp only [Item.shift, Tree.node?_add h hx]

/-- A predicate that does not tell the items further on from the items leaves the same of them. -/
theorem Predicate.filter_shift (holds holds' : Item → Nat → Bool) {xs : List Item}
    (h : ∀ x ∈ xs, ∀ k, holds (x.shift d) k = holds' x k) :
    (((xs.map (Item.shift d)).zipIdx 1).filter fun (x, k) => holds x k).map (·.1) =
      (((xs.zipIdx 1).filter fun (x, k) => holds' x k).map (·.1)).map (Item.shift d) := by
  have hfilter : (xs.zipIdx 1).filter (fun e => holds (e.1.shift d) e.2) =
      (xs.zipIdx 1).filter fun e => holds' e.1 e.2 := by
    refine List.filter_congr ?_
    intro e he
    exact h e.1 (List.fst_mem_of_mem_zipIdx he) e.2
  rw [List.zipIdx_map, List.filter_map, List.map_map, List.map_map, ← hfilter]
  rfl

end Steps

/-! ### Selection in a subtree -/

section Subtree

variable {t : Tree} {d : Nat} {n : Node}

mutual

theorem Path.select_shift (h : t.node? d = some n) : ∀ (p : Path), p.isDownward = true →
    ∀ x ∈ (Tree.ofRoot n).items,
      p.select t (x.shift d) = (p.select (Tree.ofRoot n) x).map (Item.shift d)
  | .mk true steps, hdown, x, hx => by simp [Path.isDownward] at hdown
  | .mk false steps, hdown, x, hx => by
    rw [Path.isDownward, Bool.not_false, Bool.true_and] at hdown
    exact Step.selectAll_shift h steps hdown [x] (List.forall_mem_singleton.mpr hx)

theorem Step.selectAll_shift (h : t.node? d = some n) : ∀ (ss : List Step),
    Step.allDownward ss = true → ∀ xs : List Item, (∀ x ∈ xs, x ∈ (Tree.ofRoot n).items) →
      Step.selectAll t ss (xs.map (Item.shift d)) =
        (Step.selectAll (Tree.ofRoot n) ss xs).map (Item.shift d)
  | [], hdown, xs, hxs => by rw [Step.selectAll, Step.selectAll]
  | s :: ss, hdown, xs, hxs => by
    rw [Step.allDownward, Bool.and_eq_true] at hdown
    -- Arranging goes by the order of the items, which is the same further on.
    have hstep : (xs.map (Item.shift d)).map (fun x => Item.arrange (s.select t x)) =
        (xs.map fun x => Item.arrange (s.select (Tree.ofRoot n) x)).map
          (List.map (Item.shift d)) := by
      rw [List.map_map, List.map_map]
      refine List.map_congr_left ?_
      intro x hx
      simp only [Function.comp_apply]
      rw [Step.select_shift h s hdown.1 x (hxs x hx), Item.arrange_shift]
    rw [Step.selectAll, Step.selectAll, hstep, Item.union_shift]
    · refine Step.selectAll_shift h ss hdown.2 _ ?_
      intro y hy
      obtain ⟨ys, hys, hy⟩ := List.mem_flatten.mp ((Item.mem_union _).mp hy)
      obtain ⟨x, hx, rfl⟩ := List.mem_map.mp hys
      rw [Item.mem_arrange, Step.mem_select] at hy
      exact Step.takes_mem_items (hxs x hx) hy
    · intro ys hys
      obtain ⟨x, -, rfl⟩ := List.mem_map.mp hys
      exact Item.ordered_arrange _

theorem Step.select_shift (h : t.node? d = some n) : ∀ (s : Step), s.isDownward = true →
    ∀ x ∈ (Tree.ofRoot n).items,
      s.select t (x.shift d) = (s.select (Tree.ofRoot n) x).map (Item.shift d)
  | .mk axis test predicates, hdown, x, hx => by
    rw [Step.isDownward, Bool.and_eq_true] at hdown
    have hnumber := Tree.number_lt_of_mem_items hx
    have htest : (axis.items (Tree.ofRoot n) x).filter (test.accepts t ∘ Item.shift d) =
        (axis.items (Tree.ofRoot n) x).filter (test.accepts (Tree.ofRoot n)) := by
      refine List.filter_congr ?_
      intro y hy
      -- Outside the subtree the test might meet other nodes, but the axis does not leave it.
      exact NodeTest.accepts_shift h test (Axis.lt_of_mem_items hdown.1 hnumber hy)
    rw [Step.select, Step.select, Axis.items_shift h hdown.1 hnumber, List.filter_map, htest]
    refine Predicate.filterAll_shift h predicates hdown.2 _ ?_
    intro y hy
    obtain ⟨haxis, haccepts⟩ := List.mem_filter.mp hy
    exact Axis.mem_items hx haxis haccepts

theorem Predicate.filterAll_shift (h : t.node? d = some n) : ∀ (ps : List Predicate),
    Predicate.allDownward ps = true → ∀ xs : List Item, (∀ x ∈ xs, x ∈ (Tree.ofRoot n).items) →
      Predicate.filterAll t ps (xs.map (Item.shift d)) =
        (Predicate.filterAll (Tree.ofRoot n) ps xs).map (Item.shift d)
  | [], hdown, xs, hxs => by rw [Predicate.filterAll, Predicate.filterAll]
  | p :: ps, hdown, xs, hxs => by
    rw [Predicate.allDownward, Bool.and_eq_true] at hdown
    have hleft := Predicate.filter_shift (fun x k => p.holds t x k xs.length)
      (fun x k => p.holds (Tree.ofRoot n) x k xs.length)
      fun x hx k => Predicate.holds_shift h p hdown.1 x (hxs x hx) k xs.length
    rw [Predicate.filterAll, Predicate.filterAll, List.length_map, hleft]
    refine Predicate.filterAll_shift h ps hdown.2 _ ?_
    intro y hy
    obtain ⟨e, he, rfl⟩ := List.mem_map.mp hy
    exact hxs e.1 (List.fst_mem_of_mem_zipIdx (List.mem_filter.mp he).1)

theorem Predicate.holds_shift (h : t.node? d = some n) : ∀ (p : Predicate),
    p.isDownward = true → ∀ x ∈ (Tree.ofRoot n).items, ∀ position size : Nat,
      p.holds t (x.shift d) position size = p.holds (Tree.ofRoot n) x position size
  | .position _, _, _, _, _, _ => rfl
  | .last, _, _, _, _, _ => rfl
  | .nonempty path, hdown, x, hx, _, _ => by
    rw [Predicate.holds, Predicate.holds, Path.select_shift h path hdown x hx, List.isEmpty_map]
  | .compare path c literal, hdown, x, hx, _, _ => by
    rw [Predicate.holds, Predicate.holds, Path.select_shift h path hdown x hx, List.any_map]
    rw [Bool.eq_iff_iff, List.any_eq_true, List.any_eq_true]
    refine exists_congr fun y => and_congr_right fun hy => ?_
    have hitem := Path.leads_mem_items hx ((path.mem_select _ x y).mp hy)
    rw [Function.comp_apply, Item.text_shift h (Tree.number_lt_of_mem_items hitem)]

end

/-- At a node of the subtree of another node, an expression that looks downward selects what it
selects in the document that is the subtree. -/
theorem Expression.select_shift (h : t.node? d = some n) {e : Expression}
    (hdown : e.isDownward = true) {k : Nat} (hk : k < n.count) :
    e.select t (d + k) = (e.select (Tree.ofRoot n) k).map (Item.shift d) := by
  have hpaths : e.paths.map (fun path => path.select t (.node (d + k))) =
      (e.paths.map fun path => path.select (Tree.ofRoot n) (.node k)).map
        (List.map (Item.shift d)) := by
    rw [List.map_map]
    refine List.map_congr_left ?_
    intro path hpath
    have hpathDown := List.all_eq_true.mp hdown path hpath
    have hnode : Item.node k ∈ (Tree.ofRoot n).items := Tree.node_mem_items (Tree.isSome_node? hk)
    exact Path.select_shift h path hpathDown (.node k) hnode
  rw [select, select, hpaths, Item.union_shift]
  intro ys hys
  obtain ⟨path, -, rfl⟩ := List.mem_map.mp hys
  exact path.ordered_select _ _

end Subtree

/-! ### Texts of expressions -/

/-- The text is blank, or its expression looks downward where it compiles. -/
def looksDownward (expression : String) : Bool :=
  isSelf expression || (compile expression).toOption.all Expression.isDownward

end XmlHarvest.XPath

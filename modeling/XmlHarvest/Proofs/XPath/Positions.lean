/-
Positions.

An axis leads away from the item where it starts: forward in document order, or backward
(`Axis.pairwise_items`).  So the item at a position is known without the list that an evaluation
makes, by how many of the items that pass the test are nearer to the start, and the last item is the
farthest.  Main statement: `Step.positions_countAway`.
-/
import Mathlib.Data.Finset.Card
import XmlHarvest.Proofs.XPath.Meaning
import XmlHarvest.Proofs.Xml.Ancestry

namespace XmlHarvest.XPath

open Xml (Item Tree)

/-! ### Nearer and farther -/

/-- The axis leads against document order. -/
def Axis.isReverse : Axis → Bool
  | ancestor | precedingSibling => true
  | child | descendant | descendantOrSelf | self | parent | attributes | followingSibling => false

/-- Of two items on the axis the first is nearer to where the axis starts. -/
def Axis.Nearer (axis : Axis) (x y : Item) : Prop :=
  if axis.isReverse then y.Before x else x.Before y

instance (axis : Axis) : DecidableRel axis.Nearer := fun x y =>
  inferInstanceAs (Decidable (if axis.isReverse then y.Before x else x.Before y))

/-- The items on the axis that pass the test. -/
def Axis.candidates (t : Tree) (axis : Axis) (test : NodeTest) (x : Item) : Finset Item :=
  ((axis.items t x).filter (test.accepts t)).toFinset

/-- The item is the `n`th of the items, counted from where the axis starts: all but one of `n` items
are nearer. -/
def Axis.IsNth (axis : Axis) (ys : Finset Item) (n : Nat) (y : Item) : Prop :=
  y ∈ ys ∧ (ys.filter (axis.Nearer · y)).card + 1 = n

/-- The item is the farthest of the items: all others are nearer. -/
def Axis.IsFarthest (axis : Axis) (ys : Finset Item) (y : Item) : Prop :=
  y ∈ ys ∧ ∀ z ∈ ys, z ≠ y → axis.Nearer z y

theorem Axis.Nearer.asymm {axis : Axis} {x y : Item} (h : axis.Nearer x y) : ¬ axis.Nearer y x := by
  unfold Axis.Nearer at h ⊢
  split
  · next hreverse =>
    rw [if_pos hreverse] at h
    exact h.asymm
  · next hforward =>
    rw [if_neg hforward] at h
    exact h.asymm

theorem Axis.Nearer.irrefl (axis : Axis) (x : Item) : ¬ axis.Nearer x x := fun h => h.asymm h

/-! ### An axis leads away -/

section

variable {axis : Axis}

theorem Axis.pairwise_nodes {ks : List Nat} (hforward : axis.isReverse = false)
    (h : ks.Pairwise (· < ·)) : (ks.map Item.node).Pairwise axis.Nearer := by
  refine List.pairwise_map.mpr (h.imp fun {i j} hlt => ?_)
  rw [Nearer, hforward, if_neg Bool.false_ne_true, Item.before_iff]
  exact .inl hlt

theorem Axis.pairwise_nodes_reverse {ks : List Nat} (hreverse : axis.isReverse = true)
    (h : ks.Pairwise (· > ·)) : (ks.map Item.node).Pairwise axis.Nearer := by
  refine List.pairwise_map.mpr (h.imp fun {i j} hgt => ?_)
  rw [Nearer, if_pos hreverse, Item.before_iff]
  exact .inl hgt

/-- An axis comes to the nearer items first. -/
theorem Axis.pairwise_items (t : Tree) (axis : Axis) (x : Item) :
    (axis.items t x).Pairwise axis.Nearer := by
  obtain ⟨k, slot⟩ := x
  cases slot with
  | some i =>
    cases axis with
    | self | parent => exact List.pairwise_singleton _ _
    | ancestor => exact pairwise_nodes_reverse rfl (t.pairwise_above k)
    | child | descendant | descendantOrSelf | attributes | followingSibling | precedingSibling =>
      exact .nil
  | none =>
    cases axis with
    | child => exact pairwise_nodes rfl (t.pairwise_children k)
    | descendant => exact pairwise_nodes rfl (t.pairwise_below k).of_cons
    | descendantOrSelf => exact pairwise_nodes rfl (t.pairwise_below k)
    | self => exact List.pairwise_singleton _ _
    | parent =>
      -- There is at most one parent, so nothing is nearer than another.
      show (((t.above k).take 1).map Item.node).Pairwise _
      cases t.above k with
      | nil => exact .nil
      | cons m ms => exact List.pairwise_singleton _ _
    | ancestor => exact pairwise_nodes_reverse rfl (t.pairwise_above k).of_cons
    | attributes =>
      refine List.pairwise_map.mpr (List.pairwise_lt_range.imp fun {i j} hlt => ?_)
      exact Item.before_iff.mpr (.inr ⟨rfl, Nat.succ_lt_succ hlt⟩)
    | followingSibling => exact pairwise_nodes rfl ((t.pairwise_siblings k).filter _)
    | precedingSibling =>
      exact pairwise_nodes_reverse rfl
        (List.pairwise_reverse.mpr ((t.pairwise_siblings k).filter _))

/-! ### Places in a list of items -/

variable {xs : List Item} {y : Item}

theorem Axis.nodup_of_pairwise (h : xs.Pairwise axis.Nearer) : xs.Nodup := by
  refine h.imp ?_
  rintro x y hxy rfl
  exact Nearer.irrefl axis x hxy

/-- In a list that comes to the nearer items first, those in front of an item are nearer. -/
theorem Axis.card_nearer {front back : List Item}
    (h : (front ++ y :: back).Pairwise axis.Nearer) :
    ((front ++ y :: back).toFinset.filter (axis.Nearer · y)).card = front.length := by
  obtain ⟨hfront, hrest, hcross⟩ := List.pairwise_append.mp h
  have hback := (List.pairwise_cons.mp hrest).1
  have hfilter : (front ++ y :: back).toFinset.filter (axis.Nearer · y) = front.toFinset := by
    ext z
    rw [Finset.mem_filter, List.mem_toFinset, List.mem_toFinset, List.mem_append, List.mem_cons]
    constructor
    · rintro ⟨hz | rfl | hz, hnear⟩
      · exact hz
      · exact absurd hnear (Nearer.irrefl axis z)
      · exact absurd hnear (hback z hz).asymm
    · intro hz
      exact ⟨.inl hz, hcross z hz y List.mem_cons_self⟩
  rw [hfilter, List.toFinset_card_of_nodup (nodup_of_pairwise hfront)]

theorem Axis.isNth_iff_getElem? (h : xs.Pairwise axis.Nearer) (n : Nat) :
    axis.IsNth xs.toFinset (n + 1) y ↔ xs[n]? = some y := by
  rw [IsNth, List.mem_toFinset, Nat.add_right_cancel_iff]
  constructor
  · rintro ⟨hy, hcard⟩
    obtain ⟨front, back, rfl⟩ := List.append_of_mem hy
    rw [card_nearer h] at hcard
    simp [← hcard]
  · intro hy
    obtain ⟨hlt, rfl⟩ := List.getElem?_eq_some_iff.mp hy
    refine ⟨List.getElem_mem hlt, ?_⟩
    have hcut : xs = xs.take n ++ xs[n] :: xs.drop (n + 1) := by simp
    have hcard := card_nearer (hcut ▸ h)
    rw [← hcut, List.length_take, Nat.min_eq_left (Nat.le_of_lt hlt)] at hcard
    exact hcard

theorem Axis.isFarthest_iff_getLast? (h : xs.Pairwise axis.Nearer) :
    axis.IsFarthest xs.toFinset y ↔ xs.getLast? = some y := by
  rw [IsFarthest, List.mem_toFinset]
  constructor
  · rintro ⟨hy, hfar⟩
    obtain ⟨front, back, rfl⟩ := List.append_of_mem hy
    cases back with
    | nil => simp
    | cons z back =>
      -- What stands behind the item would be nearer, and it is farther.
      have hrest := (List.pairwise_append.mp h).2.1
      have hyz : axis.Nearer y z := (List.pairwise_cons.mp hrest).1 z List.mem_cons_self
      have hne : z ≠ y := by
        rintro rfl
        exact Nearer.irrefl axis z hyz
      exact absurd (hfar z (by simp) hne) hyz.asymm
  · intro hy
    obtain ⟨front, rfl⟩ := List.getLast?_eq_some_iff.mp hy
    refine ⟨List.mem_append_right _ List.mem_cons_self, ?_⟩
    intro z hz hne
    rw [List.mem_toFinset, List.mem_append, List.mem_singleton] at hz
    exact (List.pairwise_append.mp h).2.2 z (hz.resolve_right hne) y List.mem_cons_self

end

/-! ### Predicates for positions -/

theorem filter_zipIdx_eq (xs : List Item) (m n : Nat) :
    ((xs.zipIdx m).filter fun (_, k) => k == m + n).map (·.1) = xs[n]?.toList := by
  induction xs generalizing m n with
  | nil => rfl
  | cons x xs ih =>
    rw [List.zipIdx_cons, List.filter_cons]
    cases n with
    | zero =>
      have hlater : ∀ e ∈ xs.zipIdx (m + 1), ¬ (e.2 == m + 0) = true := by
        intro e he
        have hle := (List.mem_zipIdx he).1
        simp only [Nat.add_zero, beq_iff_eq]
        omega
      rw [if_pos (by simp), List.filter_eq_nil_iff.mpr hlater]
      rfl
    | succ n =>
      have hplace : m + (n + 1) = m + 1 + n := by omega
      rw [if_neg (by simp), hplace, ih]
      rfl

theorem Predicate.filterAll_position (t : Tree) (n : Nat) (xs : List Item) :
    Predicate.filterAll t [.position (n + 1)] xs = xs[n]?.toList := by
  rw [Predicate.filterAll, Predicate.filterAll, Nat.add_comm n 1]
  simp only [Predicate.holds]
  exact filter_zipIdx_eq xs 1 n

theorem Predicate.filterAll_last (t : Tree) (xs : List Item) :
    Predicate.filterAll t [.last] xs = xs.getLast?.toList := by
  rw [Predicate.filterAll, Predicate.filterAll]
  simp only [Predicate.holds]
  cases xs with
  | nil => rfl
  | cons x xs =>
    rw [List.getLast?_eq_getElem?, List.length_cons, Nat.add_sub_cancel, Nat.add_comm]
    exact filter_zipIdx_eq (x :: xs) 1 xs.length

/-! ### Steps that take one item -/

section

variable {t : Tree} {axis : Axis} {test : NodeTest} {x y : Item}

theorem Axis.pairwise_candidates :
    ((axis.items t x).filter (test.accepts t)).Pairwise axis.Nearer :=
  (axis.pairwise_items t x).filter _

theorem Axis.card_candidates :
    (axis.candidates t test x).card = ((axis.items t x).filter (test.accepts t)).length :=
  List.toFinset_card_of_nodup (nodup_of_pairwise pairwise_candidates)

theorem Step.mem_select_position {n : Nat} (hn : 1 ≤ n) :
    y ∈ (Step.mk axis test [.position n]).select t x ↔
      axis.IsNth (axis.candidates t test x) n y := by
  obtain ⟨m, rfl⟩ := Nat.exists_eq_add_of_le' hn
  rw [Step.select, Predicate.filterAll_position, Option.mem_toList, Axis.candidates,
    Axis.isNth_iff_getElem? Axis.pairwise_candidates]

theorem Step.mem_select_last :
    y ∈ (Step.mk axis test [.last]).select t x ↔
      axis.IsFarthest (axis.candidates t test x) y := by
  rw [Step.select, Predicate.filterAll_last, Option.mem_toList, Axis.candidates,
    Axis.isFarthest_iff_getLast? Axis.pairwise_candidates]

/-- A step behind a path starts anew from every item that the path selects. -/
theorem Path.mem_select_followedBy (p : Path) (s : Step) :
    y ∈ (p.followedBy [s]).select t x ↔ ∃ z ∈ p.select t x, y ∈ s.select t z := by
  rw [Path.mem_select, Path.leads_followedBy]
  simp only [Path.mem_select, Step.mem_select, Step.chain_singleton]

end

/-! ### Counting -/

section

variable (t : Tree) (axis : Axis) (test : NodeTest)

/-- Seen from one item, positions are counted away from it. -/
structure Axis.CountsFrom (x : Item) : Prop where
  /-- `axis::test[n]` takes the one item that has exactly `n - 1` others nearer than it. -/
  nth : ∀ n, 1 ≤ n → n ≤ (axis.candidates t test x).card →
    ∃ y, (Step.mk axis test [.position n]).select t x = [y] ∧
      ∀ z, axis.IsNth (axis.candidates t test x) n z ↔ z = y
  /-- It takes nothing where there are fewer than `n` items. -/
  beyond : ∀ n, (axis.candidates t test x).card < n →
    (Step.mk axis test [.position n]).select t x = []
  /-- `axis::test[last()]` takes the one item that is the farthest. -/
  last : axis.candidates t test x ≠ ∅ →
    ∃ y, (Step.mk axis test [.last]).select t x = [y] ∧
      ∀ z, axis.IsFarthest (axis.candidates t test x) z ↔ z = y
  none : axis.candidates t test x = ∅ → (Step.mk axis test [.last]).select t x = []

/-- Behind a path, each of the items that the path selects from `x` counts its own axis, and what is
taken is joined in document order. -/
structure Axis.CountsBehind (p : Path) (x : Item) : Prop where
  nth : ∀ n, 1 ≤ n → ∀ y, y ∈ (p.followedBy [.mk axis test [.position n]]).select t x ↔
    ∃ z ∈ p.select t x, axis.IsNth (axis.candidates t test z) n y
  last : ∀ y, y ∈ (p.followedBy [.mk axis test [.last]]).select t x ↔
    ∃ z ∈ p.select t x, axis.IsFarthest (axis.candidates t test z) y
  ordered : ∀ predicates,
    ((p.followedBy [.mk axis test predicates]).select t x).Pairwise Item.Before

variable {t axis test}

theorem Axis.countsFrom (x : Item) : axis.CountsFrom t test x := by
  constructor
  case nth =>
    intro n hn hle
    obtain ⟨m, rfl⟩ := Nat.exists_eq_add_of_le' hn
    rw [card_candidates] at hle
    have hselect : (Step.mk axis test [.position (m + 1)]).select t x =
        [((axis.items t x).filter (test.accepts t))[m]] := by
      rw [Step.select, Predicate.filterAll_position, List.getElem?_eq_getElem hle]
      rfl
    refine ⟨_, hselect, fun z => ?_⟩
    rw [← Step.mem_select_position hn, hselect, List.mem_singleton]
  case beyond =>
    intro n hlt
    obtain ⟨m, rfl⟩ := Nat.exists_eq_add_of_lt hlt
    rw [card_candidates, Step.select, Predicate.filterAll_position,
      List.getElem?_eq_none (Nat.le_add_right _ m)]
    rfl
  case last =>
    intro hne
    have hitems : (axis.items t x).filter (test.accepts t) ≠ [] := by
      rintro hnil
      rw [candidates, hnil] at hne
      exact hne rfl
    have hselect : (Step.mk axis test [.last]).select t x =
        [((axis.items t x).filter (test.accepts t)).getLast hitems] := by
      rw [Step.select, Predicate.filterAll_last, List.getLast?_eq_some_getLast hitems]
      rfl
    refine ⟨_, hselect, fun z => ?_⟩
    rw [← Step.mem_select_last, hselect, List.mem_singleton]
  case none =>
    intro hempty
    rw [List.eq_nil_iff_forall_not_mem]
    intro y hy
    obtain ⟨hmem, -⟩ := Step.mem_select_last.mp hy
    rw [hempty] at hmem
    exact absurd hmem (Finset.notMem_empty y)

theorem Axis.countsBehind (p : Path) (x : Item) : axis.CountsBehind t test p x := by
  constructor
  case nth =>
    intro n hn y
    simp only [Path.mem_select_followedBy, Step.mem_select_position hn]
  case last =>
    intro y
    simp only [Path.mem_select_followedBy, Step.mem_select_last]
  case ordered =>
    intro predicates
    exact Path.ordered_select t _ x

end

/-- On every axis and with every test, positions count away from the item where the axis starts, and
from each such item anew. -/
theorem Step.positions_countAway (t : Tree) (axis : Axis) (test : NodeTest) :
    (∀ x : Item, axis.CountsFrom t test x) ∧
      ∀ (p : Path) (x : Item), axis.CountsBehind t test p x :=
  ⟨fun x => Axis.countsFrom x, fun p x => Axis.countsBehind p x⟩

/-- The nearest element above the innermost one is its parent, and the last is the outermost. -/
example :
    let t := Xml.Tree.ofRoot (.root [.element ⟨none, "a"⟩ [] [.element ⟨none, "b"⟩ []
      [.element ⟨none, "c"⟩ [] []]]])
    (Step.mk .ancestor .any [.position 1]).select t (.node 3) = [.node 2] ∧
      (Step.mk .ancestor .any [.last]).select t (.node 3) = [.node 1] := by decide

end XmlHarvest.XPath

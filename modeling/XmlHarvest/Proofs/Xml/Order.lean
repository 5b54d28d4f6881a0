/-
Document order.

`Tree.items` lists all items of a document as the document holds them: a node, then its attributes,
then what is below it.  This list is in strictly increasing order (`Tree.ordered_items`), so the
order of items is their order in the document.  Arranging items, and joining lists that are
arranged, gives lists in this order without repetition (`Item.ordered_arrange`,
`Item.ordered_union`).
-/
import XmlHarvest.Xml.Item
import Mathlib.Data.List.Sort

namespace XmlHarvest.Xml

/-! ### The order of items -/

namespace Item

/-- The place of an item at its node: the node itself comes before its attributes. -/
def place (x : Item) : Nat :=
  match x.slot with
  | none => 0
  | some i => i + 1

/-- The item comes before the other in the document. -/
def Before (x y : Item) : Prop := x.order y = .lt

instance : DecidableRel Before := fun x y => inferInstanceAs (Decidable (x.order y = .lt))

theorem order_eq (x y : Item) :
    x.order y = (compare x.number y.number).then (compare x.place y.place) := by
  have hslot : compare x.slot y.slot = compare x.place y.place := by
    unfold place
    cases x.slot with
    | none => cases y.slot <;> rfl
    | some i =>
      cases y.slot with
      | none => rfl
      | some j =>
        show compare i j = compare (i + 1) (j + 1)
        simp [Nat.compare_eq_ite_lt]
  rw [order, hslot]

theorem before_iff {x y : Item} :
    x.Before y ↔ x.number < y.number ∨ x.number = y.number ∧ x.place < y.place := by
  rw [Before, order_eq, Ordering.then_eq_lt, Nat.compare_eq_lt, Nat.compare_eq_eq,
    Nat.compare_eq_lt]

theorem order_eq_gt_iff {x y : Item} : x.order y = .gt ↔ y.Before x := by
  rw [before_iff, order_eq, Ordering.then_eq_gt, Nat.compare_eq_gt, Nat.compare_eq_eq,
    Nat.compare_eq_gt, @eq_comm _ x.number]

theorem Before.trans {x y z : Item} (hxy : x.Before y) (hyz : y.Before z) : x.Before z := by
  rw [before_iff] at hxy hyz ⊢
  omega

theorem Before.irrefl (x : Item) : ¬ x.Before x := by
  rw [before_iff]
  omega

theorem Before.asymm {x y : Item} (h : x.Before y) : ¬ y.Before x :=
  fun h' => Before.irrefl x (h.trans h')

/-- The items are in document order without repetition. -/
abbrev Ordered (xs : List Item) : Prop := xs.Pairwise Before

/-- Items in document order are a part of all other such items among which they are. -/
theorem Ordered.sublist {xs ys : List Item} (hxs : Ordered xs) (hys : Ordered ys) (h : xs ⊆ ys) :
    xs.Sublist ys := by
  have hnodup : xs.Nodup := by
    refine hxs.imp ?_
    rintro x y hxy rfl
    exact Before.irrefl x hxy
  -- Without repetition, being among the items is being a part of them up to their order.
  have hsubperm : xs.Subperm ys := List.subperm_of_subset hnodup h
  have : Std.Antisymm Before := ⟨fun x y hxy hyx => absurd hyx hxy.asymm⟩
  exact List.sublist_of_subperm_of_pairwise hsubperm hxs hys

/-- Items in document order are known by which items are among them. -/
theorem Ordered.eq_of_mem_iff {xs ys : List Item} (hxs : Ordered xs) (hys : Ordered ys)
    (h : ∀ x, x ∈ xs ↔ x ∈ ys) : xs = ys :=
  (hxs.sublist hys fun x => (h x).mp).antisymm (hys.sublist hxs fun x => (h x).mpr)

/-! ### Joining and arranging -/

theorem ordered_mergeFrom {x : Item} {xs : List Item} {rest : List Item → List Item}
    (hmem : ∀ z ys, z ∈ rest ys ↔ z ∈ xs ∨ z ∈ ys) (hx : ∀ z ∈ xs, x.Before z)
    (hrest : ∀ ys, Ordered ys → Ordered (rest ys)) {ys : List Item} (hys : Ordered ys) :
    Ordered (x.mergeFrom rest ys) := by
  induction ys with
  | nil =>
    refine List.pairwise_cons.mpr ⟨?_, hrest [] .nil⟩
    intro z hz
    exact hx z (((hmem z []).mp hz).resolve_right List.not_mem_nil)
  | cons y ys ih =>
    obtain ⟨hy, hrun⟩ := List.pairwise_cons.mp hys
    unfold mergeFrom
    split
    · next hlt =>
      -- The item comes first, as all others are behind `y` or among those it comes before.
      have hxy : x.Before y := hlt
      refine List.pairwise_cons.mpr ⟨?_, hrest _ hys⟩
      intro z hz
      rcases (hmem z _).mp hz with hz | hz
      · exact hx z hz
      · rcases List.mem_cons.mp hz with rfl | hz
        · exact hxy
        · exact hxy.trans (hy z hz)
    · next heq =>
      -- The same item stands first in both, and one of the two is dropped.
      obtain rfl : x = y := eq_of_order_eq heq
      refine List.pairwise_cons.mpr ⟨?_, hrest ys hrun⟩
      intro z hz
      rcases (hmem z ys).mp hz with hz | hz
      · exact hx z hz
      · exact hy z hz
    · next hgt =>
      -- The first of the other list comes first, before the merge with what is behind it.
      have hyx : y.Before x := order_eq_gt_iff.mp hgt
      refine List.pairwise_cons.mpr ⟨?_, ih hrun⟩
      intro z hz
      rcases (mem_mergeFrom (fun ys => hmem z ys) ys).mp hz with hz | hz
      · rcases List.mem_cons.mp hz with rfl | hz
        · exact hyx
        · exact hyx.trans (hx z hz)
      · exact hy z hz

theorem ordered_merge {xs ys : List Item} (hxs : Ordered xs) (hys : Ordered ys) :
    Ordered (merge xs ys) := by
  induction xs generalizing ys with
  | nil => exact hys
  | cons x xs ih =>
    obtain ⟨hx, hxs⟩ := List.pairwise_cons.mp hxs
    exact ordered_mergeFrom (fun z ys => mem_merge xs ys) hx (fun ys hys => ih hxs hys) hys

theorem ordered_mergePairs {lists : List (List Item)} (h : ∀ xs ∈ lists, Ordered xs) :
    ∀ xs ∈ mergePairs lists, Ordered xs := by
  fun_induction mergePairs lists with
  | case1 xs ys rest ih =>
    intro zs hzs
    rcases List.mem_cons.mp hzs with rfl | hzs
    · exact ordered_merge (h xs (by simp)) (h ys (by simp))
    · exact ih (fun zs hzs => h zs (by simp [hzs])) zs hzs
  | case2 => exact h

/-- Lists in document order are joined to one in document order. -/
theorem ordered_union {lists : List (List Item)} (h : ∀ xs ∈ lists, Ordered xs) :
    Ordered (union lists) := by
  unfold union
  generalize lists.length = rounds
  fun_induction mergeRounds rounds lists with
  | case1 => exact .nil
  | case2 rounds xs => exact h xs (by simp)
  | case3 lists _ _ =>
    clear * - h
    induction lists with
    | nil => exact .nil
    | cons xs lists ih =>
      exact ordered_merge (h xs (by simp)) (ih fun ys hys => h ys (by simp [hys]))
  | case4 rounds lists _ _ ih => exact ih (ordered_mergePairs h)

theorem ordered_addToRuns {x : Item} {runs : List (List Item)} (h : ∀ xs ∈ runs, Ordered xs) :
    ∀ xs ∈ x.addToRuns runs, Ordered xs := by
  unfold addToRuns
  split
  · next y ys runs =>
    split
    · next hlt =>
      have hxy : x.Before y := hlt
      intro zs hzs
      rcases List.mem_cons.mp hzs with rfl | hzs
      · have hrun := h (y :: ys) (by simp)
        refine List.pairwise_cons.mpr ⟨?_, hrun⟩
        intro z hz
        rcases List.mem_cons.mp hz with rfl | hz
        · exact hxy
        · exact hxy.trans ((List.pairwise_cons.mp hrun).1 z hz)
      · exact h zs (by simp [hzs])
    · intro zs hzs
      rcases List.mem_cons.mp hzs with rfl | hzs
      · exact List.pairwise_singleton _ x
      · exact h zs hzs
  · intro zs hzs
    rcases List.mem_cons.mp hzs with rfl | hzs
    · exact List.pairwise_singleton _ x
    · exact h zs hzs

/-- Arranged items are in document order, whatever order they were in. -/
theorem ordered_arrange (xs : List Item) : Ordered (arrange xs) := by
  refine ordered_union ?_
  induction xs with
  | nil => exact fun ys hys => absurd hys List.not_mem_nil
  | cons x xs ih => exact ordered_addToRuns ih

end Item

/-! ### All items of a document -/

/-- A node with its number as an item, and its attributes. -/
def Node.itemsHere (k : Nat) (n : Node) : List Item :=
  .node k :: (List.range n.attributes.length).map fun i => ⟨k, some i⟩

mutual

/-- A node, its attributes, and all that is below it, given the number of the node. -/
def Node.items (k : Nat) : Node → List Item
  | .root ns => Node.itemsHere k (.root ns) ++ Node.itemsOf (k + 1) ns
  | .element name attributes ns =>
    Node.itemsHere k (.element name attributes ns) ++ Node.itemsOf (k + 1) ns
  | .text s => Node.itemsHere k (.text s)
  | .comment s => Node.itemsHere k (.comment s)
  | .instruction => Node.itemsHere k .instruction

/-- The same for nodes that follow each other. -/
def Node.itemsOf (k : Nat) : List Node → List Item
  | [] => []
  | n :: ns => n.items k ++ Node.itemsOf (k + n.count) ns

end

/-- All items of a document. -/
def Tree.items (t : Tree) : List Item := t.root.items 0

mutual

theorem Node.items_eq (above : List Nat) : ∀ (n : Node) (k : Nat),
    n.items k = ((n.entries k above).zipIdx k).flatMap fun e => e.1.node.itemsHere e.2
  | .root ns, k => by
    rw [Node.items, Node.itemsOf_eq (k :: above) ns (k + 1)]
    rfl
  | .element name attributes ns, k => by
    rw [Node.items, Node.itemsOf_eq (k :: above) ns (k + 1)]
    rfl
  | .text s, k => by simp [Node.items, Node.entries]
  | .comment s, k => by simp [Node.items, Node.entries]
  | .instruction, k => by simp [Node.items, Node.entries]

theorem Node.itemsOf_eq (above : List Nat) : ∀ (ns : List Node) (k : Nat),
    Node.itemsOf k ns =
      ((Node.entriesOf k above ns).zipIdx k).flatMap fun e => e.1.node.itemsHere e.2
  | [], k => rfl
  | n :: ns, k => by
    rw [Node.itemsOf, Node.entriesOf, List.zipIdx_append, List.flatMap_append, Node.length_entries,
      Node.items_eq above n k, Node.itemsOf_eq above ns (k + n.count)]

end

theorem Node.ordered_itemsHere (k : Nat) (n : Node) : Item.Ordered (n.itemsHere k) := by
  refine List.pairwise_cons.mpr ⟨?_, ?_⟩
  · intro x hx
    obtain ⟨i, -, rfl⟩ := List.mem_map.mp hx
    exact Item.before_iff.mpr (.inr ⟨rfl, Nat.succ_pos i⟩)
  · rw [List.pairwise_map]
    refine List.pairwise_lt_range.imp ?_
    intro i j hij
    exact Item.before_iff.mpr (.inr ⟨rfl, Nat.succ_lt_succ hij⟩)

theorem Node.number_of_mem_itemsHere {k : Nat} {n : Node} {x : Item} (h : x ∈ n.itemsHere k) :
    x.number = k := by
  rcases List.mem_cons.mp h with rfl | h
  · rfl
  · obtain ⟨i, -, rfl⟩ := List.mem_map.mp h
    rfl

namespace Tree

/-- The items of a document are those of its entries, one entry after the other. -/
theorem items_eq (t : Tree) :
    t.items = t.entries.toList.zipIdx.flatMap fun e => e.1.node.itemsHere e.2 := by
  rw [items, Node.items_eq [], t.entries_eq]

/-- The items of a document stand in document order. -/
theorem ordered_items (t : Tree) : Item.Ordered t.items := by
  have hnumbers : t.entries.toList.zipIdx.Pairwise fun e e' => e.2 < e'.2 := by
    have hsnd : (t.entries.toList.zipIdx.map Prod.snd).Pairwise (· < ·) := by
      rw [List.zipIdx_map_snd]
      exact List.pairwise_lt_range'
    exact List.pairwise_map.mp hsnd
  -- Within an entry the items are in order, and later entries have greater numbers.
  rw [items_eq, Item.Ordered, List.pairwise_flatMap]
  refine ⟨fun e _ => Node.ordered_itemsHere e.2 e.1.node, hnumbers.imp ?_⟩
  intro e e' hlt x hx y hy
  rw [Item.before_iff, Node.number_of_mem_itemsHere hx, Node.number_of_mem_itemsHere hy]
  exact .inl hlt

theorem mem_items_of_entry {t : Tree} {k : Nat} {e : Entry} {x : Item}
    (he : t.entries[k]? = some e) (hx : x ∈ e.node.itemsHere k) : x ∈ t.items := by
  rw [items_eq, List.mem_flatMap]
  refine ⟨(e, k), ?_, hx⟩
  rw [List.mem_zipIdx_iff_getElem?, Array.getElem?_toList, he]

/-- A node that is there is an item of the document. -/
theorem node_mem_items {t : Tree} {k : Nat} (h : (t.node? k).isSome = true) :
    Item.node k ∈ t.items := by
  rw [node?, Option.isSome_map] at h
  obtain ⟨e, he⟩ := Option.isSome_iff_exists.mp h
  exact mem_items_of_entry he List.mem_cons_self

/-- An attribute that is there is an item of the document. -/
theorem attribute_mem_items {t : Tree} {k i : Nat} (h : i < (t.attributes k).length) :
    ⟨k, some i⟩ ∈ t.items := by
  rw [attributes, node?] at h
  cases he : t.entries[k]? with
  | none =>
    rw [he] at h
    cases h
  | some e =>
    rw [he] at h
    refine mem_items_of_entry he (List.mem_cons_of_mem _ ?_)
    exact List.mem_map.mpr ⟨i, List.mem_range.mpr h, rfl⟩

/-- The root is an item of every document. -/
theorem root_mem_items (t : Tree) : Item.node rootNumber ∈ t.items := by
  cases hroot : t.root <;> simp [items, hroot, Node.items, Node.itemsHere, rootNumber]

end Tree

/-! ### Children -/

theorem Node.count_pos (n : Node) : 0 < n.count := by
  cases n <;> simp [Node.count]

theorem Node.le_of_mem_numbers {ns : List Node} {k i : Nat} (h : i ∈ Node.numbers k ns) :
    k ≤ i := by
  induction ns generalizing k with
  | nil => cases h
  | cons n ns ih =>
    rcases List.mem_cons.mp h with rfl | h
    · exact Nat.le_refl _
    · exact (Nat.le_add_right k n.count).trans (ih h)

/-- Nodes that follow each other have increasing numbers. -/
theorem Node.pairwise_numbers (k : Nat) (ns : List Node) :
    (Node.numbers k ns).Pairwise (· < ·) := by
  induction ns generalizing k with
  | nil => exact .nil
  | cons n ns ih =>
    refine List.pairwise_cons.mpr ⟨?_, ih _⟩
    intro i hi
    have hle := Node.le_of_mem_numbers hi
    have hpos := n.count_pos
    omega

mutual

theorem Node.pairwise_children (above : List Nat) : ∀ (n : Node) (k : Nat),
    ∀ e ∈ n.entries k above, e.children.Pairwise (· < ·)
  | .root ns, k, e, he => by
    rcases List.mem_cons.mp he with rfl | he
    · exact Node.pairwise_numbers _ ns
    · exact Node.pairwise_childrenOf _ ns _ e he
  | .element name attributes ns, k, e, he => by
    rcases List.mem_cons.mp he with rfl | he
    · exact Node.pairwise_numbers _ ns
    · exact Node.pairwise_childrenOf _ ns _ e he
  | .text s, k, e, he => by
    rw [List.mem_singleton.mp he]
    exact .nil
  | .comment s, k, e, he => by
    rw [List.mem_singleton.mp he]
    exact .nil
  | .instruction, k, e, he => by
    rw [List.mem_singleton.mp he]
    exact .nil

theorem Node.pairwise_childrenOf (above : List Nat) : ∀ (ns : List Node) (k : Nat),
    ∀ e ∈ Node.entriesOf k above ns, e.children.Pairwise (· < ·)
  | [], k, e, he => absurd he List.not_mem_nil
  | n :: ns, k, e, he => by
    rcases List.mem_append.mp he with he | he
    · exact Node.pairwise_children above n k e he
    · exact Node.pairwise_childrenOf above ns _ e he

end

/-- The children of a node stand in document order. -/
theorem Tree.pairwise_children (t : Tree) (k : Nat) : (t.children k).Pairwise (· < ·) := by
  unfold children
  cases he : t.entries[k]? with
  | none => exact .nil
  | some e =>
    have hmem : e ∈ t.root.entries 0 [] := by
      have hget := Array.mem_of_getElem? he
      rwa [t.entries_eq, List.mem_toArray] at hget
    exact Node.pairwise_children [] t.root 0 e hmem

end XmlHarvest.Xml

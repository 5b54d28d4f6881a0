/-
Subtrees.

A node with all that is below it stands in a document as it stands in the document that consists of
it alone.  Only the numbers differ: in the larger document they go on from the number of the node
(`Tree.exists_entries_add`).  So the nodes, their children and what is below them are the same but
for this shift, and so is the order of the items.
-/
import XmlHarvest.Proofs.Xml.Order

namespace XmlHarvest.Xml

/-! ### Entries further on -/

/-- The entry where all numbers are greater by `d` and there are nodes above the top. -/
def Entry.shift (d : Nat) (outer : List Nat) (e : Entry) : Entry :=
  ⟨e.node, e.above.map (d + ·) ++ outer, e.children.map (d + ·)⟩

theorem Node.numbers_add (d k : Nat) (ns : List Node) :
    Node.numbers (d + k) ns = (Node.numbers k ns).map (d + ·) := by
  induction ns generalizing k with
  | nil => rfl
  | cons n ns ih => rw [Node.numbers, Node.numbers, List.map_cons, Nat.add_assoc, ih]

theorem Node.lt_of_mem_numbers {ns : List Node} {k i : Nat} (h : i ∈ Node.numbers k ns) :
    i < k + Node.countAll ns := by
  induction ns generalizing k with
  | nil => cases h
  | cons n ns ih =>
    have hpos := n.count_pos
    rw [Node.countAll]
    rcases List.mem_cons.mp h with rfl | h
    · omega
    · have hlt := ih h
      omega

mutual

theorem Node.entries_add (d : Nat) (outer : List Nat) : ∀ (n : Node) (k : Nat) (above : List Nat),
    n.entries (d + k) (above.map (d + ·) ++ outer) =
      (n.entries k above).map (Entry.shift d outer)
  | .root ns, k, above => by
    have hbelow := Node.entriesOf_add d outer ns (k + 1) (k :: above)
    rw [Node.entries, Node.entries, List.map_cons, ← hbelow, Nat.add_assoc, Node.numbers_add]
    rfl
  | .element name attributes ns, k, above => by
    have hbelow := Node.entriesOf_add d outer ns (k + 1) (k :: above)
    rw [Node.entries, Node.entries, List.map_cons, ← hbelow, Nat.add_assoc, Node.numbers_add]
    rfl
  | .text s, k, above => rfl
  | .comment s, k, above => rfl
  | .instruction, k, above => rfl

theorem Node.entriesOf_add (d : Nat) (outer : List Nat) :
    ∀ (ns : List Node) (k : Nat) (above : List Nat),
      Node.entriesOf (d + k) (above.map (d + ·) ++ outer) ns =
        (Node.entriesOf k above ns).map (Entry.shift d outer)
  | [], k, above => rfl
  | n :: ns, k, above => by
    rw [Node.entriesOf, Node.entriesOf, List.map_append, Node.entries_add d outer n k above,
      Nat.add_assoc, Node.entriesOf_add d outer ns (k + n.count) above]

end

/-! ### Entries from a node on -/

/-- The entry of a node comes before those of all nodes below it. -/
theorem Node.entries_eq_cons (n : Node) (k : Nat) (above : List Nat) :
    n.entries k above =
      ⟨n, above, Node.numbers (k + 1) n.children⟩ ::
        Node.entriesOf (k + 1) (k :: above) n.children := by
  cases n <;> rfl

theorem Node.count_eq (n : Node) : n.count = Node.countAll n.children + 1 := by
  cases n <;> rfl

mutual

/-- From the entry of a node on come the entries at and below that node. -/
theorem Node.drop_entries : ∀ (n : Node) (k : Nat) (above : List Nat) (j : Nat) (e : Entry),
    (n.entries k above)[j]? = some e →
      ∃ later, (n.entries k above).drop j = e.node.entries (k + j) e.above ++ later
  | n, k, above, 0, e, h => by
    rw [Node.entries_eq_cons] at h
    cases h
    exact ⟨[], (List.append_nil _).symm⟩
  | .root ns, k, above, j + 1, e, h => by
    rw [← Nat.add_assoc, Nat.add_right_comm]
    exact Node.drop_entriesOf ns (k + 1) (k :: above) j e h
  | .element _ _ ns, k, above, j + 1, e, h => by
    rw [← Nat.add_assoc, Nat.add_right_comm]
    exact Node.drop_entriesOf ns (k + 1) (k :: above) j e h
  | .text _, _, _, _ + 1, _, h => nomatch h
  | .comment _, _, _, _ + 1, _, h => nomatch h
  | .instruction, _, _, _ + 1, _, h => nomatch h

theorem Node.drop_entriesOf :
    ∀ (ns : List Node) (k : Nat) (above : List Nat) (j : Nat) (e : Entry),
      (Node.entriesOf k above ns)[j]? = some e →
        ∃ later, (Node.entriesOf k above ns).drop j = e.node.entries (k + j) e.above ++ later
  | [], _, _, _, _, h => nomatch h
  | n :: ns, k, above, j, e, h => by
    have hlength := n.length_entries k above
    rw [Node.entriesOf] at h ⊢
    -- The entry is one of the first node or of those after it.
    by_cases hj : j < n.count
    · rw [List.getElem?_append_left (by omega)] at h
      obtain ⟨later, hdrop⟩ := Node.drop_entries n k above j e h
      refine ⟨later ++ Node.entriesOf (k + n.count) above ns, ?_⟩
      rw [List.drop_append_of_le_length (by omega), hdrop, List.append_assoc]
    · rw [List.getElem?_append_right (by omega), hlength] at h
      obtain ⟨later, hdrop⟩ := Node.drop_entriesOf ns (k + n.count) above (j - n.count) e h
      have hplace : k + n.count + (j - n.count) = k + j := by omega
      refine ⟨later, ?_⟩
      rw [List.drop_append, List.drop_of_length_le (by omega), List.nil_append, hlength, hdrop,
        hplace]

end

/-! ### A node in a document -/

namespace Tree

variable {t : Tree} {d : Nat} {n : Node}

/-- From a node on the entries of a document are those of the document of the node alone, with greater
numbers. -/
theorem exists_entries_add (h : t.node? d = some n) :
    ∃ outer, ∀ j < n.count,
      t.entries[d + j]? = (ofRoot n).entries[j]?.map (Entry.shift d outer) := by
  obtain ⟨e, he, rfl⟩ := Option.map_eq_some_iff.mp h
  rw [t.entries_eq, List.getElem?_toArray] at he
  obtain ⟨later, hdrop⟩ := Node.drop_entries _ _ _ _ _ he
  refine ⟨e.above, fun j hj => ?_⟩
  have hentries : e.node.entries (0 + d) e.above =
      (e.node.entries 0 []).map (Entry.shift d e.above) := by
    have hadd := Node.entries_add d e.above e.node 0 []
    rwa [Nat.add_comm d] at hadd
  have hlt : j < ((e.node.entries 0 []).map (Entry.shift d e.above)).length := by
    rwa [List.length_map, Node.length_entries]
  rw [t.entries_eq, (ofRoot e.node).entries_eq, List.getElem?_toArray, List.getElem?_toArray,
    ← List.getElem?_drop, hdrop, hentries, List.getElem?_append_left hlt, List.getElem?_map]
  rfl

theorem node?_add (h : t.node? d = some n) {j : Nat} (hj : j < n.count) :
    t.node? (d + j) = (ofRoot n).node? j := by
  obtain ⟨outer, hentries⟩ := exists_entries_add h
  rw [node?, node?, hentries j hj, Option.map_map]
  rfl

theorem children_add (h : t.node? d = some n) {j : Nat} (hj : j < n.count) :
    t.children (d + j) = ((ofRoot n).children j).map (d + ·) := by
  obtain ⟨outer, hentries⟩ := exists_entries_add h
  rw [children, children, hentries j hj]
  cases (ofRoot n).entries[j]? <;> rfl

theorem below_add (h : t.node? d = some n) {j : Nat} (hj : j < n.count) :
    t.below (d + j) = ((ofRoot n).below j).map (d + ·) := by
  rw [below, below, node?_add h hj]
  cases (ofRoot n).node? j with
  | none => rfl
  | some m => simp only [List.map_add_range', Nat.add_assoc]

/-- A node and those below it have the numbers from its own on. -/
theorem cons_below (h : t.node? d = some n) : d :: t.below d = List.range' d n.count := by
  simp only [below, h, n.count_eq, Nat.add_sub_cancel, List.range'_succ]

theorem attributes_add (h : t.node? d = some n) {j : Nat} (hj : j < n.count) :
    t.attributes (d + j) = (ofRoot n).attributes j := by
  rw [attributes, attributes, node?_add h hj]

theorem isElement_add (h : t.node? d = some n) {j : Nat} (hj : j < n.count) :
    t.isElement (d + j) = (ofRoot n).isElement j := by
  rw [isElement, isElement, node?_add h hj]

/-! ### Numbers in a document -/

/-- A node leaves room for all that is below it, its children first. -/
theorem children_of_node? (h : t.node? d = some n) :
    t.children d = Node.numbers (d + 1) n.children ∧ d + n.count ≤ t.root.count := by
  obtain ⟨e, he, rfl⟩ := Option.map_eq_some_iff.mp h
  have hget := he
  rw [t.entries_eq, List.getElem?_toArray] at hget
  obtain ⟨later, hdrop⟩ := Node.drop_entries _ _ _ _ _ hget
  constructor
  · rw [children, he]
    -- The entry is the first of those at and below its node.
    rw [← List.head?_drop, hdrop, Nat.zero_add, e.node.entries_eq_cons, List.cons_append,
      List.head?_cons] at hget
    exact congrArg Entry.children (Option.some.inj hget).symm
  · have hlength := congrArg List.length hdrop
    have hpos := e.node.count_pos
    rw [List.length_drop, List.length_append, Node.length_entries, Node.length_entries] at hlength
    omega

theorem lt_of_mem_children {k i : Nat} (h : i ∈ t.children k) : i < t.root.count := by
  cases hnode : t.node? k with
  | none =>
    rw [children, Option.map_eq_none_iff.mp hnode] at h
    cases h
  | some m =>
    obtain ⟨hchildren, hroom⟩ := children_of_node? hnode
    rw [hchildren] at h
    have hlt := Node.lt_of_mem_numbers h
    rw [m.count_eq] at hroom
    omega

theorem lt_of_mem_below {k i : Nat} (h : i ∈ t.below k) : i < t.root.count := by
  unfold below at h
  split at h
  · next m hnode =>
    have hroom := (children_of_node? hnode).2
    have hrange := List.mem_range'_1.mp h
    omega
  · cases h

/-- There is a node under every number below their count. -/
theorem isSome_node? {k : Nat} (h : k < t.root.count) : (t.node? k).isSome = true := by
  rw [← Node.length_entries 0 [], ← List.size_toArray, ← t.entries_eq] at h
  rw [node?, Option.isSome_map, Array.getElem?_eq_getElem h]
  rfl

theorem number_lt_of_mem_items {x : Item} (h : x ∈ t.items) : x.number < t.root.count := by
  rw [items_eq] at h
  obtain ⟨e, he, hx⟩ := List.mem_flatMap.mp h
  obtain ⟨-, hlt, -⟩ := List.mem_zipIdx he
  rwa [Node.number_of_mem_itemsHere hx, ← Node.length_entries 0 [], ← List.size_toArray,
    ← t.entries_eq, ← Array.length_toList, ← Nat.zero_add t.entries.toList.length]

end Tree

/-! ### Items further on -/

namespace Item

/-- The item of the node or of its attribute whose number is greater by `d`. -/
def shift (d : Nat) (x : Item) : Item := ⟨d + x.number, x.slot⟩

theorem shift_before {d : Nat} {x y : Item} : (x.shift d).Before (y.shift d) ↔ x.Before y := by
  rw [before_iff, before_iff]
  show d + x.number < d + y.number ∨ d + x.number = d + y.number ∧ x.place < y.place ↔ _
  rw [Nat.add_lt_add_iff_left, Nat.add_left_cancel_iff]

theorem ordered_shift {d : Nat} {xs : List Item} (h : Ordered xs) : Ordered (xs.map (shift d)) :=
  List.pairwise_map.mpr (h.imp shift_before.mpr)

/-- Items further on are arranged as the items are. -/
theorem arrange_shift (d : Nat) (xs : List Item) :
    arrange (xs.map (shift d)) = (arrange xs).map (shift d) := by
  refine Ordered.eq_of_mem_iff (ordered_arrange _) (ordered_shift (ordered_arrange xs)) fun z => ?_
  simp only [mem_arrange, List.mem_map]

/-- Lists of items further on are joined as the lists are. -/
theorem union_shift (d : Nat) {lists : List (List Item)} (h : ∀ xs ∈ lists, Ordered xs) :
    union (lists.map (List.map (shift d))) = (union lists).map (shift d) := by
  refine Ordered.eq_of_mem_iff (ordered_union ?_) (ordered_shift (ordered_union h)) fun z => ?_
  · intro ys hys
    obtain ⟨xs, hxs, rfl⟩ := List.mem_map.mp hys
    exact ordered_shift (h xs hxs)
  · rw [mem_union, ← List.map_flatten, List.mem_map, List.mem_map]
    simp only [mem_union]

variable {t : Tree} {d : Nat} {n : Node} {x : Item}

theorem attribute?_shift (h : t.node? d = some n) (hx : x.number < n.count) :
    (x.shift d).attribute? t = x.attribute? (Tree.ofRoot n) := by
  simp only [attribute?, shift, Tree.attributes_add h hx]

theorem label?_shift (h : t.node? d = some n) (hx : x.number < n.count) :
    (x.shift d).label? t = x.label? (Tree.ofRoot n) := by
  rw [label?, label?, attribute?_shift h hx]
  simp only [shift, Tree.node?_add h hx]

theorem text_shift (h : t.node? d = some n) (hx : x.number < n.count) :
    (x.shift d).text t = x.text (Tree.ofRoot n) := by
  rw [text, text, attribute?_shift h hx]
  simp only [shift, Tree.node?_add h hx]

end Item

end XmlHarvest.Xml

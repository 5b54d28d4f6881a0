/-
Parents, and what is above and below a node.

Every node of a document but the root is a child of a node.  So what is below a node are the children
of the node and the children of what is below it (`Tree.mem_below_iff`).  The nodes above a node have
smaller numbers, and of these the nearest is the greatest (`Tree.pairwise_above`).
-/
import XmlHarvest.Proofs.Xml.Subtree

namespace XmlHarvest.Xml

/-! ### Parents -/

mutual

/-- Every node below another is the child of that node or of one below it. -/
theorem Node.exists_parent : ∀ (n : Node) (k : Nat) (above : List Nat) {j : Nat}, 0 < j →
    j < n.count → ∃ e ∈ n.entries k above, k + j ∈ e.children
  | .root ns, k, above, j + 1, _, hj => by
    have hrest : j < Node.countAll ns := Nat.lt_of_succ_lt_succ hj
    rw [← Nat.add_assoc, Nat.add_right_comm]
    rcases Node.exists_parentOf ns (k + 1) (k :: above) hrest with h | ⟨e, he, h⟩
    · exact ⟨_, List.mem_cons_self, h⟩
    · exact ⟨e, List.mem_cons_of_mem _ he, h⟩
  | .element _ _ ns, k, above, j + 1, _, hj => by
    have hrest : j < Node.countAll ns := Nat.lt_of_succ_lt_succ hj
    rw [← Nat.add_assoc, Nat.add_right_comm]
    rcases Node.exists_parentOf ns (k + 1) (k :: above) hrest with h | ⟨e, he, h⟩
    · exact ⟨_, List.mem_cons_self, h⟩
    · exact ⟨e, List.mem_cons_of_mem _ he, h⟩
  | .text _, _, _, _ + 1, _, hj => absurd hj (by simp [Node.count])
  | .comment _, _, _, _ + 1, _, hj => absurd hj (by simp [Node.count])
  | .instruction, _, _, _ + 1, _, hj => absurd hj (by simp [Node.count])

/-- A node at or below nodes that follow each other is one of them, or the child of one at or below
them. -/
theorem Node.exists_parentOf : ∀ (ns : List Node) (k : Nat) (above : List Nat) {j : Nat},
    j < Node.countAll ns →
      k + j ∈ Node.numbers k ns ∨ ∃ e ∈ Node.entriesOf k above ns, k + j ∈ e.children
  | [], _, _, _, hj => absurd hj (Nat.not_lt_zero _)
  | n :: ns, k, above, j, hj => by
    rw [Node.countAll] at hj
    rw [Node.numbers, Node.entriesOf]
    rcases Nat.lt_or_ge j n.count with hfirst | hlater
    · rcases Nat.eq_zero_or_pos j with rfl | hpos
      · exact .inl List.mem_cons_self
      · obtain ⟨e, he, h⟩ := Node.exists_parent n k above hpos hfirst
        exact .inr ⟨e, List.mem_append_left _ he, h⟩
    · have hrest : j - n.count < Node.countAll ns := by omega
      have hplace : k + n.count + (j - n.count) = k + j := by omega
      have hparent := Node.exists_parentOf ns (k + n.count) above hrest
      rw [hplace] at hparent
      rcases hparent with h | ⟨e, he, h⟩
      · exact .inl (List.mem_cons_of_mem _ h)
      · exact .inr ⟨e, List.mem_append_right _ he, h⟩

end

namespace Tree

variable {t : Tree}

/-- A node that has children is there. -/
theorem exists_of_mem_children {k j : Nat} (h : j ∈ t.children k) : ∃ n, t.node? k = some n := by
  rw [← Option.isSome_iff_exists, node?, Option.isSome_map]
  unfold children at h
  cases he : t.entries[k]? with
  | none => simp [he] at h
  | some e => rfl

theorem mem_below_of_node? {k j : Nat} {n : Node} (h : t.node? k = some n) :
    j ∈ t.below k ↔ k < j ∧ j < k + n.count := by
  have hpos := n.count_pos
  simp only [below, h, List.mem_range'_1]
  omega

theorem exists_of_mem_below {k j : Nat} (h : j ∈ t.below k) : ∃ n, t.node? k = some n := by
  unfold below at h
  split at h
  · next n hn => exact ⟨n, hn⟩
  · cases h

/-- What is below a node has its parent at or below the node. -/
theorem exists_parent {k j : Nat} (h : j ∈ t.below k) :
    ∃ m, (m = k ∨ m ∈ t.below k) ∧ j ∈ t.children m := by
  obtain ⟨n, hn⟩ := exists_of_mem_below h
  obtain ⟨hlt, hroom⟩ := (mem_below_of_node? hn).mp h
  obtain ⟨i, rfl⟩ := Nat.exists_eq_add_of_lt hlt
  -- In the document of the node alone, the number of the parent is the place of its entry.
  obtain ⟨e, he, hchild⟩ := Node.exists_parent n 0 [] (j := i + 1) (Nat.succ_pos i) (by omega)
  obtain ⟨m, hm⟩ := List.mem_iff_getElem?.mp he
  have hplace : m < n.count := by
    rw [← Node.length_entries 0 []]
    exact (List.getElem?_eq_some_iff.mp hm).1
  have hchildren : (ofRoot n).children m = e.children := by
    rw [children, (ofRoot n).entries_eq, List.getElem?_toArray]
    exact congrArg (fun o => (o.map Entry.children).getD []) hm
  refine ⟨k + m, ?_, ?_⟩
  · rw [mem_below_of_node? hn]
    omega
  · rw [children_add hn hplace, hchildren, Nat.add_assoc]
    rw [Nat.zero_add] at hchild
    exact List.mem_map_of_mem hchild

/-- The children of a node at or below another are below that one. -/
theorem mem_below_of_mem_children {k m j : Nat} (hm : m = k ∨ m ∈ t.below k)
    (hj : j ∈ t.children m) : j ∈ t.below k := by
  obtain ⟨n', hn'⟩ := exists_of_mem_children hj
  obtain ⟨n, hn⟩ : ∃ n, t.node? k = some n := by
    rcases hm with rfl | hm
    · exact ⟨n', hn'⟩
    · exact exists_of_mem_below hm
  rw [mem_below_of_node? hn] at hm ⊢
  have hpos := n.count_pos
  obtain ⟨d, rfl⟩ : ∃ d, m = k + d := ⟨m - k, by omega⟩
  have hd : d < n.count := by omega
  -- All that is below the one finds room below the other.
  have hroom : d + n'.count ≤ n.count := (children_of_node? ((node?_add hn hd).symm.trans hn')).2
  rw [(children_of_node? hn').1] at hj
  have hle := Node.le_of_mem_numbers hj
  have hlt := Node.lt_of_mem_numbers hj
  have hcount := n'.count_eq
  omega

/-- What is below a node are its children and the children of what is below it. -/
theorem mem_below_iff {k j : Nat} :
    j ∈ t.below k ↔ ∃ m, (m = k ∨ m ∈ t.below k) ∧ j ∈ t.children m :=
  ⟨exists_parent, fun ⟨_, hm, hj⟩ => mem_below_of_mem_children hm hj⟩

/-- A node stands in the document before all that is below it. -/
theorem pairwise_below (t : Tree) (k : Nat) : (k :: t.below k).Pairwise (· < ·) := by
  cases hnode : t.node? k with
  | none =>
    rw [below, hnode]
    exact List.pairwise_singleton _ k
  | some n =>
    rw [cons_below hnode]
    exact List.pairwise_lt_range'

theorem pairwise_siblings (t : Tree) (k : Nat) : (t.siblings k).Pairwise (· < ·) := by
  unfold siblings
  split
  · exact .nil
  · exact t.pairwise_children _

end Tree

/-! ### Above a node -/

theorem pairwise_gt_of_le {k k' : Nat} {ks : List Nat} (h : (k :: ks).Pairwise (· > ·))
    (hle : k ≤ k') : (k' :: ks).Pairwise (· > ·) := by
  obtain ⟨hk, hks⟩ := List.pairwise_cons.mp h
  exact List.pairwise_cons.mpr ⟨fun i hi => Nat.lt_of_lt_of_le (hk i hi) hle, hks⟩

theorem pairwise_gt_succ {k : Nat} {ks : List Nat} (h : (k :: ks).Pairwise (· > ·)) :
    ((k + 1) :: k :: ks).Pairwise (· > ·) := by
  refine List.pairwise_cons.mpr ⟨fun i hi => ?_, h⟩
  rcases List.mem_cons.mp hi with rfl | hi
  · exact Nat.lt_succ_self i
  · exact Nat.lt_succ_of_lt ((List.pairwise_cons.mp h).1 i hi)

mutual

theorem Node.pairwise_above : ∀ (n : Node) (k : Nat) (above : List Nat),
    (k :: above).Pairwise (· > ·) → ∀ (j : Nat) (e : Entry), (n.entries k above)[j]? = some e →
      ((k + j) :: e.above).Pairwise (· > ·)
  | n, k, above, habove, 0, e, he => by
    rw [Node.entries_eq_cons] at he
    cases he
    exact habove
  | .root ns, k, above, habove, j + 1, e, he => by
    rw [← Nat.add_assoc, Nat.add_right_comm]
    exact Node.pairwise_aboveOf ns (k + 1) (k :: above) (pairwise_gt_succ habove) j e he
  | .element _ _ ns, k, above, habove, j + 1, e, he => by
    rw [← Nat.add_assoc, Nat.add_right_comm]
    exact Node.pairwise_aboveOf ns (k + 1) (k :: above) (pairwise_gt_succ habove) j e he
  | .text _, _, _, _, _ + 1, _, he => nomatch he
  | .comment _, _, _, _, _ + 1, _, he => nomatch he
  | .instruction, _, _, _, _ + 1, _, he => nomatch he

theorem Node.pairwise_aboveOf : ∀ (ns : List Node) (k : Nat) (above : List Nat),
    (k :: above).Pairwise (· > ·) →
      ∀ (j : Nat) (e : Entry), (Node.entriesOf k above ns)[j]? = some e →
        ((k + j) :: e.above).Pairwise (· > ·)
  | [], _, _, _, _, _, he => nomatch he
  | n :: ns, k, above, habove, j, e, he => by
    have hlength := n.length_entries k above
    rw [Node.entriesOf] at he
    by_cases hj : j < n.count
    · rw [List.getElem?_append_left (by omega)] at he
      exact Node.pairwise_above n k above habove j e he
    · rw [List.getElem?_append_right (by omega), hlength] at he
      have hlater := Node.pairwise_aboveOf ns (k + n.count) above
        (pairwise_gt_of_le habove (Nat.le_add_right k n.count)) (j - n.count) e he
      have hplace : k + n.count + (j - n.count) = k + j := by omega
      rwa [hplace] at hlater

end

/-- The nodes above a node stand in the document before it, the nearest last of them. -/
theorem Tree.pairwise_above (t : Tree) (k : Nat) : (k :: t.above k).Pairwise (· > ·) := by
  unfold above
  cases he : t.entries[k]? with
  | none => exact List.pairwise_singleton _ k
  | some e =>
    rw [t.entries_eq, List.getElem?_toArray] at he
    have habove := Node.pairwise_above t.root 0 [] (List.pairwise_singleton _ 0) k e he
    rwa [Nat.zero_add] at habove

end XmlHarvest.Xml

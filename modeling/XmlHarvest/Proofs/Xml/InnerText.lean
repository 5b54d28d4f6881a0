/-
The text of a node as the texts of the nodes at and below it.

The text is put together child by child, and the numbers of nodes go through a document in the same
order.  So it is also the characters of the text nodes under the numbers from that of the node on, one
after the other (`Tree.innerText_eq`).  Comments and processing instructions bring in nothing: a node
without them has the same text (`Node.innerText_bare`).
-/
import XmlHarvest.Proofs.Xml.Subtree

namespace XmlHarvest.Xml

/-! ### Nodes -/

/-- Elements and the root may have children. -/
def Node.isInner : Node → Bool
  | root _ | element .. => true
  | text _ | comment _ | instruction => false

/-- Comments and processing instructions say something about a document and are no part of its
text. -/
def Node.isRemark : Node → Bool
  | comment _ | instruction => true
  | root _ | element .. | text _ => false

/-- The characters that a node has itself; only text nodes have any. -/
def Node.characters : Node → String
  | text s => s
  | root _ | element .. | comment _ | instruction => ""

mutual

/-- The node without the comments and processing instructions below it. -/
def Node.bare : Node → Node
  | .root ns => .root (Node.bares ns)
  | .element name attributes ns => .element name attributes (Node.bares ns)
  | .text s => .text s
  | .comment s => .comment s
  | .instruction => .instruction

/-- Nodes that follow each other without the comments and processing instructions at and below
them. -/
def Node.bares : List Node → List Node
  | [] => []
  | n :: ns => if n.isRemark then Node.bares ns else n.bare :: Node.bares ns

end

theorem Node.characters_of_isInner {n : Node} (h : n.isInner = true) : n.characters = "" := by
  cases n with
  | root | element => rfl
  | text | comment | instruction => cases h

theorem Node.characters_of_not_isText {n : Node} (h : n.isText = false) : n.characters = "" := by
  cases n with
  | text s => cases h
  | root | element | comment | instruction => rfl

theorem Node.stringValue_of_isInner {n : Node} (h : n.isInner = true) :
    n.stringValue = n.innerText := by
  cases n with
  | root | element => rfl
  | text | comment | instruction => cases h

theorem Node.innerText_of_isRemark {n : Node} (h : n.isRemark = true) : n.innerText = "" := by
  cases n with
  | comment | instruction => rw [Node.innerText]
  | root | element | text => cases h

mutual

/-- The text of a node is what the nodes at and below it have themselves, in document order. -/
theorem Node.innerText_eq_join : ∀ (n : Node) (k : Nat) (above : List Nat),
    n.innerText = String.join ((n.entries k above).map fun e => e.node.characters)
  | .root ns, k, above => by
    rw [Node.innerText, Node.innerTexts_eq_join ns (k + 1) (k :: above), Node.entries,
      List.map_cons, String.join_cons, Node.characters, String.empty_append]
  | .element _ _ ns, k, above => by
    rw [Node.innerText, Node.innerTexts_eq_join ns (k + 1) (k :: above), Node.entries,
      List.map_cons, String.join_cons, Node.characters, String.empty_append]
  | .text s, _, _ => by simp [Node.innerText, Node.entries, Node.characters]
  | .comment _, _, _ => by simp [Node.innerText, Node.entries, Node.characters]
  | .instruction, _, _ => by simp [Node.innerText, Node.entries, Node.characters]

theorem Node.innerTexts_eq_join : ∀ (ns : List Node) (k : Nat) (above : List Nat),
    Node.innerTexts ns =
      String.join ((Node.entriesOf k above ns).map fun e => e.node.characters)
  | [], _, _ => by rw [Node.innerTexts, Node.entriesOf, List.map_nil, String.join_nil]
  | n :: ns, k, above => by
    rw [Node.innerTexts, Node.innerText_eq_join n k above,
      Node.innerTexts_eq_join ns (k + n.count) above, Node.entriesOf, List.map_append,
      String.join_append]

end

mutual

/-- Comments and processing instructions add nothing to the text of a node. -/
theorem Node.innerText_bare : ∀ n : Node, n.bare.innerText = n.innerText
  | .root ns => by rw [Node.bare, Node.innerText, Node.innerText, Node.innerTexts_bares ns]
  | .element _ _ ns => by rw [Node.bare, Node.innerText, Node.innerText, Node.innerTexts_bares ns]
  | .text _ => by rw [Node.bare]
  | .comment _ => by rw [Node.bare]
  | .instruction => by rw [Node.bare]

theorem Node.innerTexts_bares : ∀ ns : List Node,
    Node.innerTexts (Node.bares ns) = Node.innerTexts ns
  | [] => by rw [Node.bares]
  | n :: ns => by
    rw [Node.bares, Node.innerTexts]
    by_cases hremark : n.isRemark = true
    · rw [if_pos hremark, Node.innerTexts_bares ns, Node.innerText_of_isRemark hremark,
        String.empty_append]
    · rw [if_neg hremark, Node.innerTexts, Node.innerText_bare n, Node.innerTexts_bares ns]

end

theorem Node.isInner_bare (n : Node) : n.bare.isInner = n.isInner := by
  cases n <;> rw [Node.bare] <;> rfl

/-! ### Numbers -/

namespace Tree

/-- The characters that the node with a number has itself. -/
def characters (t : Tree) (k : Nat) : String := ((t.node? k).map Node.characters).getD ""

/-- Whether the node with a number is a text. -/
def isText (t : Tree) (k : Nat) : Bool := (t.node? k).any Node.isText

variable {t : Tree} {k : Nat} {n : Node}

/-- The text of a node is what the node and those below it have themselves, by their numbers. -/
theorem innerText_eq (h : t.node? k = some n) :
    n.innerText = String.join ((k :: t.below k).map t.characters) := by
  rw [n.innerText_eq_join 0 [], cons_below h]
  refine congrArg String.join (List.ext_getElem ?_ fun j hj hj' => ?_)
  · rw [List.length_map, List.length_map, List.length_range', Node.length_entries]
  · -- The entries of the node alone stand in the document under the numbers from `k` on.
    rw [List.length_map, List.length_range'] at hj'
    rw [List.getElem_map, List.getElem_map, List.getElem_range', Nat.one_mul, characters,
      node?_add h hj', node?, (ofRoot n).entries_eq, List.getElem?_toArray]
    rw [List.length_map] at hj
    show _ = (((n.entries 0 [])[j]?.map _).map _).getD _
    rw [List.getElem?_eq_getElem hj]
    rfl

/-- Only the texts among some nodes have characters. -/
theorem join_characters_filter (ks : List Nat) :
    String.join ((ks.filter t.isText).map t.characters) = String.join (ks.map t.characters) := by
  induction ks with
  | nil => rfl
  | cons k ks ih =>
    rw [List.map_cons, String.join_cons, ← ih]
    by_cases htext : t.isText k = true
    · rw [List.filter_cons_of_pos htext, List.map_cons, String.join_cons]
    · have hnone : t.characters k = "" := by
        rw [Bool.not_eq_true] at htext
        rw [characters]
        cases hnode : t.node? k with
        | none => rfl
        | some m =>
          rw [isText, hnode] at htext
          exact Node.characters_of_not_isText htext
      rw [List.filter_cons_of_neg htext, hnone, String.empty_append]

end Tree

end XmlHarvest.Xml

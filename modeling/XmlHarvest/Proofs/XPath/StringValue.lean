/-
The text of a node, selected by an expression.

The text that stands for an element or for the root is put together by a walk over what is below it.
The expression `.//text()` goes another way: it selects the text nodes below in document order.  Main
statement: the texts of what it selects are that text (`Expression.text_eq_join`).
-/
import XmlHarvest.Proofs.XPath.AnyDepth
import XmlHarvest.Proofs.Xml.InnerText

namespace XmlHarvest.XPath

open Xml (Item Node Tree)

variable {t : Tree} {k : Nat}

/-! ### The expression for texts -/

/-- What the expression `.//text()` is derived from. -/
def ExpressionTree.texts : ExpressionTree :=
  .one (.relative (.more .here .doubleSlash (.one (.along .omitted .text []))))

theorem Expression.compile_texts :
    compile ".//text()" = .ok ExpressionTree.texts.expression := by
  have htokens : tokens ".//text()" = .ok ExpressionTree.texts.word := by decide +kernel
  exact (compile_eq_ok_iff htokens _).mpr (ofTokens_word _)

/-- What the path of the expression leads to are the texts below. -/
theorem Expression.leads_texts {n : Node} (h : t.node? k = some n) {y : Item} :
    Step.Chain t [.here, .anyDepth, .mk .child .text []] (.node k) y ↔
      y ∈ ((t.below k).filter t.isText).map Item.node := by
  have haccepts : NodeTest.accepts t .node (.node k) = true := by
    show (t.node? k).any _ = true
    rw [h]
    rfl
  have hitems : Axis.descendant.items t (.node k) = (t.below k).map Item.node := rfl
  -- The point leads to the node itself, and the slashes with the test to the texts below it.
  rw [Step.Chain]
  simp only [Step.here_takes_iff, Step.chain_anyDepth_child (List.forall_mem_nil _),
    Step.chain_singleton, Step.takes_iff_of_nil]
  constructor
  · rintro ⟨z, ⟨rfl, -⟩, hbelow, htext⟩
    rw [hitems] at hbelow
    obtain ⟨j, hj, rfl⟩ := List.mem_map.mp hbelow
    exact List.mem_map_of_mem (List.mem_filter.mpr ⟨hj, htext⟩)
  · intro hy
    obtain ⟨j, hj, rfl⟩ := List.mem_map.mp hy
    obtain ⟨hbelow, htext⟩ := List.mem_filter.mp hj
    exact ⟨.node k, ⟨rfl, haccepts⟩, List.mem_map_of_mem hbelow, htext⟩

/-- From a node the expression selects the texts among the nodes below it. -/
theorem Expression.select_texts {n : Node} (h : t.node? k = some n) :
    ExpressionTree.texts.expression.select t k =
      ((t.below k).filter t.isText).map Item.node := by
  refine Item.Ordered.eq_of_mem_iff (ordered_select ..) ?_ fun y => ?_
  · refine List.pairwise_map.mpr ?_
    refine ((t.pairwise_below k).of_cons.filter t.isText).imp fun hlt => ?_
    exact Item.before_iff.mpr (.inl hlt)
  · rw [← leads_texts h]
    exact mem_select_one

/-! ### Texts put together -/

theorem Item.text_node_of_isText {j : Nat} (h : t.isText j = true) :
    (Item.node j).text t = t.characters j ∧ ∃ s, t.node? j = some (.text s) := by
  unfold Tree.isText at h
  show ((t.node? j).map Node.stringValue).getD "" = ((t.node? j).map Node.characters).getD "" ∧ _
  cases hnode : t.node? j with
  | none =>
    rw [hnode] at h
    cases h
  | some m =>
    rw [hnode] at h
    cases m with
    | text s => exact ⟨rfl, s, rfl⟩
    | root | element | comment | instruction => cases h

/-- The text that stands for an element or for the root is that of the text nodes which `.//text()`
selects from it, in document order.  Nothing else is among them, so that comments and processing
instructions add nothing: the text is that of the node without them. -/
theorem Expression.text_eq_join (t : Tree) {k : Nat} {n : Node} (hnode : t.node? k = some n)
    (hinner : n.isInner = true) :
    ∃ e, compile ".//text()" = .ok e ∧
      (Item.node k).text t = String.join ((e.select t k).map (Item.text t)) ∧
      (∀ x ∈ e.select t k, x.slot = none ∧ ∃ s, t.node? x.number = some (.text s)) ∧
      (Item.node k).text t = n.bare.stringValue := by
  have htext : (Item.node k).text t = n.innerText := by
    show ((t.node? k).map Node.stringValue).getD "" = _
    rw [hnode, ← Node.stringValue_of_isInner hinner]
    rfl
  have hselect := select_texts hnode
  refine ⟨ExpressionTree.texts.expression, compile_texts, ?_, ?_, ?_⟩
  · have hown : t.characters k = "" := by
      rw [Tree.characters, hnode]
      exact Node.characters_of_isInner hinner
    have htexts : ((t.below k).filter t.isText).map (fun j => (Item.node j).text t) =
        ((t.below k).filter t.isText).map t.characters :=
      List.map_congr_left fun j hj => (Item.text_node_of_isText (List.mem_filter.mp hj).2).1
    calc (Item.node k).text t
        = String.join ((k :: t.below k).map t.characters) := by rw [htext, Tree.innerText_eq hnode]
      _ = String.join ((t.below k).map t.characters) := by
        rw [List.map_cons, String.join_cons, hown, String.empty_append]
      _ = String.join (((t.below k).filter t.isText).map t.characters) :=
        (Tree.join_characters_filter _).symm
      _ = _ := by
        rw [hselect, List.map_map, ← htexts]
        rfl
  · rw [hselect]
    intro x hx
    obtain ⟨j, hj, rfl⟩ := List.mem_map.mp hx
    exact ⟨rfl, (Item.text_node_of_isText (List.mem_filter.mp hj).2).2⟩
  · rw [htext, Node.stringValue_of_isInner (n.isInner_bare.trans hinner), Node.innerText_bare]

/-- Texts at several depths, between and inside comments and processing instructions. -/
theorem Expression.text_eq_join_mixed :
    let n : Node := .element ⟨none, "p"⟩ [⟨⟨none, "n"⟩, "no"⟩]
      [.text "a", .comment "no", .element ⟨none, "i"⟩ [] [.text "b", .instruction, .text "c"],
        .instruction, .text "d", .element ⟨none, "i"⟩ [] []]
    let t := Tree.ofRoot (.root [.comment "no", n])
    t.node? 2 = some n ∧ n.isInner = true ∧ (Item.node 2).text t = "abcd" ∧
      ∃ e, compile ".//text()" = .ok e ∧
        (Item.node 2).text t = String.join ((e.select t 2).map (Item.text t)) ∧
        (∀ x ∈ e.select t 2, x.slot = none ∧ ∃ s, t.node? x.number = some (.text s)) ∧
        (Item.node 2).text t = n.bare.stringValue := by
  intro n t
  have hnode : t.node? 2 = some n := rfl
  exact ⟨hnode, rfl, by decide +kernel, text_eq_join t hnode rfl⟩

end XmlHarvest.XPath

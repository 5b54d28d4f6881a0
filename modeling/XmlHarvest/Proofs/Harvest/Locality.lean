/-
Extraction from a subtree.

A rule looks downward if all its expressions do, and those of the rules below it.  The units that
such a rule makes under a node are those that it makes at the top of the document that is the
subtree of the node (`unitsUnder_subtree`), so nothing around the node has a part in them.  Main
statement: the units under nodes with equal subtrees are equal, and so are the errors
(`unitsUnder_eq_of_subtree_eq`).
-/
import XmlHarvest.Harvest.Units
import XmlHarvest.Proofs.Results
import XmlHarvest.Proofs.XPath.Downward

namespace XmlHarvest

open Xml (Item Node Tree)

/-! ### Expressions of a grammar -/

/-- The expressions of a rule and of its metadata rules. -/
def RuleHead.expressions (head : RuleHead) : List String :=
  head.xpaths ++ head.metadata.flatMap (·.xpaths)

mutual

/-- All expressions of a rule and of the rules below it. -/
def Rule.expressions : Rule → List String
  | .terminal head => head.expressions
  | .nested head rules => head.expressions ++ Rule.allExpressions rules

def Rule.allExpressions : List Rule → List String
  | [] => []
  | r :: rs => r.expressions ++ Rule.allExpressions rs

end

/-- All expressions of the rule and of the rules below it look downward. -/
def Rule.isDownward (rule : Rule) : Bool := rule.expressions.all XPath.looksDownward

/-! ### Gathering -/

section Gathering

variable {m : Type → Type} [Monad m] {α β γ : Type}

theorem gather_congr {f g : α → m (List β)} {xs : List α} (h : ∀ x ∈ xs, f x = g x) :
    gather f xs = gather g xs := by
  induction xs with
  | nil => rfl
  | cons x xs ih =>
    obtain ⟨hx, hxs⟩ := List.forall_mem_cons.mp h
    rw [gather, gather, hx, ih hxs]

theorem gather_comp (f : γ → m (List β)) (g : α → γ) (xs : List α) :
    gather f (xs.map g) = gather (fun x => f (g x)) xs := by
  induction xs with
  | nil => rfl
  | cons x xs ih => rw [List.map_cons, gather, gather, ih]

end Gathering

/-! ### Selections -/

section Selections

variable {split : Option Tokenizer} {t : Tree} {d k : Nat} {n : Node} {e : String}

theorem mem_items_of_resolve {items : List Item} (hk : k < t.root.count)
    (h : XPath.resolve (Tools.direct split).compiled t e k = .ok items) :
    ∀ x ∈ items, x ∈ t.items := by
  have hnode := Tree.isSome_node? hk
  unfold XPath.resolve at h
  split at h
  · obtain rfl : [Item.node k] = items := Except.ok.inj h
    exact List.forall_mem_singleton.mpr (Tree.node_mem_items hnode)
  · obtain ⟨ex, -, rfl⟩ := map_eq_ok h
    exact fun x => XPath.Expression.mem_items_of_mem_select hnode

/-- An expression that looks downward is resolved in a subtree as in the document that is the
subtree. -/
theorem resolve_shift (h : t.node? d = some n) (hdown : XPath.looksDownward e = true)
    (hk : k < n.count) :
    XPath.resolve (Tools.direct split).compiled t e (d + k) =
      List.map (Item.shift d) <$>
        XPath.resolve (Tools.direct split).compiled (Tree.ofRoot n) e k := by
  unfold XPath.resolve
  split
  · rfl
  · next hblank =>
    rw [XPath.looksDownward, Bool.eq_false_iff.mpr hblank, Bool.false_or] at hdown
    simp only [Tools.direct]
    cases hcompile : XPath.compile e with
    | error fault => rfl
    | ok ex =>
      rw [hcompile] at hdown
      exact congrArg Except.ok (XPath.Expression.select_shift h hdown hk)

/-- What treats the items of a subtree as those of the document that is the subtree comes to the
same. -/
theorem resolve_bind_shift {α : Type} {f g : List Item → Except ExtractionError α}
    (h : t.node? d = some n) (hdown : XPath.looksDownward e = true) (hk : k < n.count)
    (hfg : ∀ items, (∀ x ∈ items, x ∈ (Tree.ofRoot n).items) →
      f (items.map (Item.shift d)) = g items) :
    XPath.resolve (Tools.direct split).compiled t e (d + k) >>= f =
      XPath.resolve (Tools.direct split).compiled (Tree.ofRoot n) e k >>= g := by
  rw [resolve_shift h hdown hk]
  cases hresolve : XPath.resolve (Tools.direct split).compiled (Tree.ofRoot n) e k with
  | error fault => rfl
  | ok items => exact hfg items (mem_items_of_resolve hk hresolve)

/-! ### Metadata and passages -/

theorem attributeValues_shift (h : t.node? d = some n) (name : String) {items : List Item}
    (hitems : ∀ x ∈ items, x ∈ (Tree.ofRoot n).items) :
    attributeValues t name (items.map (Item.shift d)) =
      attributeValues (Tree.ofRoot n) name items := by
  unfold attributeValues
  rw [List.flatMap_map]
  refine List.flatMap_congr fun x hx => ?_
  have hnumber := Tree.number_lt_of_mem_items (hitems x hx)
  obtain ⟨i, slot⟩ := x
  cases slot with
  | some slot => rfl
  | none => simp only [Item.shift, Item.nodeNumber?, Option.bind_some, Tree.node?_add h hnumber]

theorem textValues_shift (h : t.node? d = some n) {items : List Item}
    (hitems : ∀ x ∈ items, x ∈ (Tree.ofRoot n).items) :
    textValues t (items.map (Item.shift d)) = textValues (Tree.ofRoot n) items := by
  unfold textValues
  rw [List.map_map]
  refine congrArg (List.filter _) (List.map_congr_left fun x hx => ?_)
  rw [Function.comp_apply, Item.text_shift h (Tree.number_lt_of_mem_items (hitems x hx))]

theorem MetadataRule.values_shift (h : t.node? d = some n) (rule : MetadataRule)
    {items : List Item} (hitems : ∀ x ∈ items, x ∈ (Tree.ofRoot n).items) :
    rule.values t (items.map (Item.shift d)) = rule.values (Tree.ofRoot n) items := by
  unfold MetadataRule.values
  cases rule.attr with
  | some name => simp only [attributeValues_shift h name hitems]
  | none => simp only [textValues_shift h hitems]

theorem metadataAt_add (h : t.node? d = some n) {rules : List MetadataRule}
    (hdown : ∀ e ∈ rules.flatMap (·.xpaths), XPath.looksDownward e = true) (hk : k < n.count) :
    metadataAt (Tools.direct split) t rules (d + k) =
      metadataAt (Tools.direct split) (Tree.ofRoot n) rules k := by
  refine gather_congr fun rule hrule => gather_congr fun e he => ?_
  rw [map_eq_pure_bind, map_eq_pure_bind]
  refine resolve_bind_shift h (hdown e (List.mem_flatMap.mpr ⟨rule, hrule, he⟩)) hk ?_
  intro items hitems
  rw [rule.values_shift h hitems]

theorem matchOf_shift (h : t.node? d = some n) {rules : List MetadataRule}
    (hdown : ∀ e ∈ rules.flatMap (·.xpaths), XPath.looksDownward e = true) {x : Item}
    (hx : x ∈ (Tree.ofRoot n).items) :
    matchOf (Tools.direct split) t rules (x.shift d) =
      matchOf (Tools.direct split) (Tree.ofRoot n) rules x := by
  have hnumber := Tree.number_lt_of_mem_items hx
  unfold matchOf
  rw [Item.text_shift h hnumber]
  obtain ⟨i, slot⟩ := x
  cases slot with
  | some slot => rfl
  | none => exact congrArg (Functor.map (Match.mk _)) (metadataAt_add h hdown hnumber)

theorem passageAt_add (h : t.node? d = some n) {head : RuleHead}
    (hdown : ∀ e ∈ head.expressions, XPath.looksDownward e = true) (hk : k < n.count) :
    passageAt (Tools.direct split) t head (d + k) =
      passageAt (Tools.direct split) (Tree.ofRoot n) head k := by
  obtain ⟨hxpaths, hmetadata⟩ := List.forall_mem_append.mp hdown
  have hmatches : matchesAt (Tools.direct split) t head (d + k) =
      matchesAt (Tools.direct split) (Tree.ofRoot n) head k := by
    refine gather_congr fun e he => resolve_bind_shift h (hxpaths e he) hk ?_
    intro items hitems
    rw [gather_comp]
    exact gather_congr fun x hx => by rw [matchOf_shift h hmetadata (hitems x hx)]
  rw [passageAt, passageAt, hmatches]

/-! ### Units -/

theorem elementChildren_add (h : t.node? d = some n) (hk : k < n.count) :
    elementChildren t (d + k) = (elementChildren (Tree.ofRoot n) k).map (d + ·) := by
  unfold elementChildren
  rw [Tree.children_add h hk, List.filter_map]
  refine congrArg (List.map _) (List.filter_congr fun i hi => ?_)
  exact Tree.isElement_add h (Tree.lt_of_mem_children hi)

/-- What treats the elements of a subtree as those of the document that is the subtree comes to the
same. -/
theorem elementsUnder_bind_add {α : Type} {f g : List Nat → Except ExtractionError α}
    (h : t.node? d = some n) (hdown : XPath.looksDownward e = true) (hk : k < n.count)
    (hfg : ∀ elements, (∀ i ∈ elements, i < n.count) → f (elements.map (d + ·)) = g elements) :
    elementsUnder (Tools.direct split) t (d + k) e >>= f =
      elementsUnder (Tools.direct split) (Tree.ofRoot n) k e >>= g := by
  unfold elementsUnder
  split
  · rw [elementChildren_add h hk]
    refine hfg _ fun i hi => ?_
    exact Tree.lt_of_mem_children (List.mem_filter.mp hi).1
  · rw [bind_map_left, bind_map_left]
    refine resolve_bind_shift h hdown hk fun items hitems => ?_
    have hnumbers : ∀ i ∈ items.filterMap Item.nodeNumber?, i < n.count := by
      intro i hi
      obtain ⟨⟨_, slot⟩, hx, hi⟩ := List.mem_filterMap.mp hi
      cases slot with
      | some slot => cases hi
      | none =>
        obtain rfl := Option.some.inj hi
        exact Tree.number_lt_of_mem_items (hitems _ hx)
    have hshifted : (items.map (Item.shift d)).filterMap Item.nodeNumber? =
        (items.filterMap Item.nodeNumber?).map (d + ·) := by
      rw [List.filterMap_map, List.map_filterMap]
      refine List.filterMap_congr fun x _ => ?_
      obtain ⟨_, slot⟩ := x
      cases slot <;> rfl
    have helements : (items.filterMap Item.nodeNumber?).filter (t.isElement ∘ (d + ·)) =
        (items.filterMap Item.nodeNumber?).filter (Tree.ofRoot n).isElement :=
      List.filter_congr fun i hi => Tree.isElement_add h (hnumbers i hi)
    rw [hshifted, List.filter_map, helements]
    exact hfg _ fun i hi => hnumbers i (List.mem_filter.mp hi).1

theorem unitsOver_add (h : t.node? d = some n) {head : RuleHead}
    (hdown : ∀ e ∈ head.expressions, XPath.looksDownward e = true)
    {held held' : Nat → Except ExtractionError (List (TextUnit Passage) × List Passage)}
    (hheld : ∀ i < n.count, held (d + i) = held' i) (hk : k < n.count) :
    unitsOver (Tools.direct split) t head held (d + k) =
      unitsOver (Tools.direct split) (Tree.ofRoot n) head held' k := by
  obtain ⟨hxpaths, hmetadata⟩ := List.forall_mem_append.mp hdown
  refine gather_congr fun e he => elementsUnder_bind_add h (hxpaths e he) hk ?_
  intro elements helements
  rw [gather_comp]
  refine gather_congr fun i hi => ?_
  rw [metadataAt_add h hmetadata (helements i hi), hheld i (helements i hi)]

mutual

theorem unitsUnder_add (h : t.node? d = some n) : ∀ (rule : Rule),
    (∀ e ∈ rule.expressions, XPath.looksDownward e = true) → ∀ k < n.count,
      unitsUnder (Tools.direct split) t rule (d + k) =
        unitsUnder (Tools.direct split) (Tree.ofRoot n) rule k
  | .terminal head, hdown, k, hk => by
    rw [unitsUnder, unitsUnder]
    exact unitsOver_add h hdown (fun _ _ => rfl) hk
  | .nested head rules, hdown, k, hk => by
    obtain ⟨hhead, hrules⟩ := List.forall_mem_append.mp hdown
    rw [unitsUnder, unitsUnder]
    exact unitsOver_add h hhead (heldAt_add h rules hrules) hk

theorem heldAt_add (h : t.node? d = some n) : ∀ (rules : List Rule),
    (∀ e ∈ Rule.allExpressions rules, XPath.looksDownward e = true) → ∀ k < n.count,
      heldAt (Tools.direct split) t rules (d + k) =
        heldAt (Tools.direct split) (Tree.ofRoot n) rules k
  | [], _, _, _ => by rw [heldAt, heldAt]
  | .terminal head :: rules, hdown, k, hk => by
    obtain ⟨hhead, hrules⟩ := List.forall_mem_append.mp hdown
    rw [heldAt, heldAt, passageAt_add h hhead hk, heldAt_add h rules hrules k hk]
  | .nested head inner :: rules, hdown, k, hk => by
    obtain ⟨hrule, hrules⟩ := List.forall_mem_append.mp hdown
    rw [heldAt, heldAt, unitsUnder_add h (.nested head inner) hrule k hk,
      heldAt_add h rules hrules k hk]

end

/-- A rule that looks downward makes under a node what it makes at the top of the document that is
the subtree of the node. -/
theorem unitsUnder_subtree {rule : Rule} (h : t.node? d = some n)
    (hdown : rule.isDownward = true) :
    unitsUnder (Tools.direct split) t rule d =
      unitsUnder (Tools.direct split) (Tree.ofRoot n) rule Tree.rootNumber :=
  unitsUnder_add h rule (List.all_eq_true.mp hdown) Tree.rootNumber n.count_pos

end Selections

/-- Under nodes with the same subtree, in the same document or in two, a rule that looks downward
makes the same units or stops at the same error. -/
theorem unitsUnder_eq_of_subtree_eq (split : Option Tokenizer) {rule : Rule}
    (hdown : rule.isDownward = true) {t t' : Tree} {k k' : Nat} {n : Node}
    (hk : t.node? k = some n) (hk' : t'.node? k' = some n) :
    unitsUnder (Tools.direct split) t rule k = unitsUnder (Tools.direct split) t' rule k' := by
  rw [unitsUnder_subtree hk hdown, unitsUnder_subtree hk' hdown]

/-- A body makes the same two units where it is all of a document and where it stands between other
elements that the rule would select as well. -/
theorem unitsUnder_eq_in_two_documents :
    let rule : Rule := .nested ⟨"part", ["div[@n != '0']/descendant-or-self::div[head]"],
        [⟨["head/text()"], none, "title"⟩, ⟨[""], some "n", "number"⟩]⟩
      [.terminal ⟨"sentence", ["p[last()]//text()", "p/@n"], []⟩]
    let part (n : String) : Node := .element ⟨none, "div"⟩ [⟨⟨none, "n"⟩, n⟩]
      [.element ⟨none, "head"⟩ [] [.text n], .element ⟨none, "p"⟩ [⟨⟨none, "n"⟩, "x"⟩] [.text "y"]]
    let body : Node := .element ⟨none, "body"⟩ [] [part "0", part "1", .text "z", part "2"]
    let t := Tree.ofRoot (.root [body])
    let t' := Tree.ofRoot
      (.root [.comment "c", .element ⟨none, "text"⟩ [] [part "3", body, part "4"]])
    rule.isDownward = true ∧ t.node? 1 = some body ∧ t'.node? 8 = some body ∧
      (unitsUnder (Tools.direct none) t rule 1).toOption.map List.length = some 2 ∧
      unitsUnder (Tools.direct none) t rule 1 = unitsUnder (Tools.direct none) t' rule 8 := by
  intro rule part body t t'
  have hdown : rule.isDownward = true := by decide +kernel
  have hbody : t.node? 1 = some body := rfl
  have hbody' : t'.node? 8 = some body := rfl
  have hlength : (unitsUnder (Tools.direct none) t rule 1).toOption.map List.length = some 2 := by
    decide +kernel
  exact ⟨hdown, hbody, hbody', hlength, unitsUnder_eq_of_subtree_eq none hdown hbody hbody'⟩

end XmlHarvest

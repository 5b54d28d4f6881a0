/-
The two slashes.

Two slashes stand for a step to the item itself and to all that is below it.  A step to the children
behind them is one step to what is below, as long as no predicate counts: `Expression.anyDepth_child`.
The step `.` behind them is no step more, but attributes get lost, as the axis that the slashes insert
does not lead from an attribute to itself: `Expression.anyDepth_here`.
-/
import XmlHarvest.Proofs.XPath.Meaning
import XmlHarvest.Proofs.XPath.Reading
import XmlHarvest.Proofs.Xml.Ancestry

namespace XmlHarvest.XPath

open Xml (Item Tree)

/-! ### Predicates that do not count -/

/-- The predicate asks for a place among the items. -/
def Predicate.isPositional : Predicate → Bool
  | .position _ | .last => true
  | .nonempty _ | .compare .. => false

section

variable {t : Tree}

/-- A predicate that does not count holds of an item in any company. -/
theorem Predicate.holds_eq {p : Predicate} (h : p.isPositional = false) (x : Item)
    (position size : Nat) : p.holds t x position size = p.holds t x 0 0 := by
  cases p with
  | position _ | last => cases h
  | nonempty _ | compare _ _ _ => simp only [Predicate.holds]

theorem Predicate.filterAll_eq_filter {ps : List Predicate}
    (h : ∀ p ∈ ps, p.isPositional = false) (xs : List Item) :
    Predicate.filterAll t ps xs = xs.filter fun x => ps.all fun p => p.holds t x 0 0 := by
  induction ps generalizing xs with
  | nil => simp [Predicate.filterAll]
  | cons p ps ih =>
    obtain ⟨hp, hps⟩ := List.forall_mem_cons.mp h
    have hfirst : xs.filter (fun x => p.holds t x 0 0) =
        ((xs.zipIdx 1).filter fun e => p.holds t e.1 e.2 xs.length).map (·.1) := by
      simp only [Predicate.holds_eq hp]
      rw [← List.zipIdx_map_fst 1 xs, List.filter_map, List.zipIdx_map_fst]
      rfl
    rw [Predicate.filterAll]
    show Predicate.filterAll t ps
      (((xs.zipIdx 1).filter fun e => p.holds t e.1 e.2 xs.length).map (·.1)) = _
    rw [← hfirst, ih hps, List.filter_filter]
    simp only [List.all_cons, Bool.and_comm]

variable {axis : Axis} {test : NodeTest} {x y : Item}

/-- A step takes an item only by its axis and its test, if no predicate counts. -/
theorem Step.takes_iff {ps : List Predicate} (h : ∀ p ∈ ps, p.isPositional = false) :
    (Step.mk axis test ps).Takes t x y ↔
      y ∈ axis.items t x ∧ test.accepts t y = true ∧ ∀ p ∈ ps, p.holds t y 0 0 = true := by
  rw [← Step.mem_select, Step.select, Predicate.filterAll_eq_filter h, List.mem_filter,
    List.mem_filter, List.all_eq_true, and_assoc]

theorem Step.takes_iff_of_nil :
    (Step.mk axis test []).Takes t x y ↔ y ∈ axis.items t x ∧ test.accepts t y = true := by
  simp [Step.takes_iff]

/-! ### The axes -/

theorem NodeTest.accepts_node (h : test.accepts t x = true) :
    NodeTest.accepts t .node x = true := by
  obtain ⟨k, slot⟩ := x
  cases slot with
  | some i => rfl
  | none =>
    unfold NodeTest.accepts at h ⊢
    cases hn : t.node? k with
    | none => simp [hn] at h
    | some n => rfl

/-- What a step takes passes the test that all nodes pass. -/
theorem Step.accepts_of_takes {s : Step} (h : s.Takes t x y) :
    NodeTest.accepts t .node y = true := by
  obtain ⟨axis, test, ps⟩ := s
  rw [← Step.mem_select, Step.select] at h
  exact NodeTest.accepts_node (List.mem_filter.mp (Predicate.mem_of_mem_filterAll h)).2

theorem Step.accepts_of_chain {ss : List Step} (hne : ss ≠ []) (h : Step.Chain t ss x y) :
    NodeTest.accepts t .node y = true := by
  obtain ⟨front, s, rfl⟩ : ∃ front s, ss = front ++ [s] :=
    ⟨_, _, (List.dropLast_concat_getLast hne).symm⟩
  obtain ⟨z, -, htakes⟩ := (Step.chain_append _ _ _ _).mp h
  exact Step.accepts_of_takes (Step.chain_singleton.mp htakes)

/-- The step of the slashes takes a node to itself, and any item to what is below it. -/
theorem Step.anyDepth_takes_iff :
    Step.anyDepth.Takes t x y ↔
      (x = y ∧ y.slot = none ∧ NodeTest.accepts t .node y = true) ∨
        (Step.mk .descendant .node []).Takes t x y := by
  rw [Step.anyDepth, Step.takes_iff_of_nil, Step.takes_iff_of_nil]
  obtain ⟨k, slot⟩ := x
  cases slot with
  | some i =>
    -- No axis but that to the item itself and those upward lead away from an attribute.
    constructor
    · rintro ⟨hmem, -⟩
      exact absurd hmem List.not_mem_nil
    · rintro (⟨rfl, hslot, -⟩ | ⟨hmem, -⟩)
      · cases hslot
      · exact absurd hmem List.not_mem_nil
  | none =>
    show y ∈ Item.node k :: (t.below k).map .node ∧ _ ↔
      _ ∨ y ∈ (t.below k).map .node ∧ _
    rw [List.mem_cons]
    constructor
    · rintro ⟨rfl | hmem, haccepts⟩
      · exact .inl ⟨rfl, rfl, haccepts⟩
      · exact .inr ⟨hmem, haccepts⟩
    · rintro (⟨rfl, -, haccepts⟩ | ⟨hmem, haccepts⟩)
      · exact ⟨.inl rfl, haccepts⟩
      · exact ⟨.inr hmem, haccepts⟩

theorem Step.slot_of_takes_descendant (h : (Step.mk .descendant .node []).Takes t x y) :
    y.slot = none := by
  obtain ⟨hmem, -⟩ := Step.takes_iff_of_nil.mp h
  obtain ⟨k, slot⟩ := x
  cases slot with
  | some i => exact absurd hmem List.not_mem_nil
  | none =>
    obtain ⟨j, -, rfl⟩ := List.mem_map.mp hmem
    rfl

/-- What is below an item are the children of the item and of what is below it. -/
theorem Axis.mem_descendant_iff :
    y ∈ Axis.descendant.items t x ↔ ∃ z, Step.anyDepth.Takes t x z ∧ y ∈ Axis.child.items t z := by
  simp only [Step.anyDepth, Step.takes_iff_of_nil]
  obtain ⟨k, slot⟩ := x
  cases slot with
  | some i =>
    constructor
    · exact fun hmem => absurd hmem List.not_mem_nil
    · rintro ⟨z, ⟨hmem, -⟩, -⟩
      exact absurd hmem List.not_mem_nil
  | none =>
    constructor
    · intro hmem
      obtain ⟨j, hj, rfl⟩ := List.mem_map.mp hmem
      obtain ⟨m, hm, hchild⟩ := Tree.mem_below_iff.mp hj
      obtain ⟨n, hn⟩ := Tree.exists_of_mem_children hchild
      refine ⟨.node m, ⟨?_, ?_⟩, List.mem_map_of_mem hchild⟩
      · exact List.mem_map_of_mem (List.mem_cons.mpr hm)
      · simp [NodeTest.accepts, Item.node, hn, NodeTest.acceptsNode]
    · rintro ⟨z, ⟨hmem, -⟩, hchild⟩
      obtain ⟨m, hm, rfl⟩ := List.mem_map.mp hmem
      obtain ⟨j, hj, rfl⟩ := List.mem_map.mp hchild
      exact List.mem_map_of_mem (Tree.mem_below_iff.mpr ⟨m, List.mem_cons.mp hm, hj⟩)

/-! ### Steps behind the slashes -/

theorem Step.chain_anyDepth_child {ps : List Predicate} (h : ∀ p ∈ ps, p.isPositional = false) :
    Step.Chain t [.anyDepth, .mk .child test ps] x y ↔
      Step.Chain t [.mk .descendant test ps] x y := by
  rw [Step.chain_singleton, Step.takes_iff h, Axis.mem_descendant_iff, Step.Chain]
  simp only [Step.chain_singleton, Step.takes_iff h]
  constructor
  · rintro ⟨z, htakes, hchild, hrest⟩
    exact ⟨⟨z, htakes, hchild⟩, hrest⟩
  · rintro ⟨⟨z, htakes, hchild⟩, hrest⟩
    exact ⟨z, htakes, hchild, hrest⟩

/-- Behind the slashes a step to the children is one step to what is below. -/
theorem Path.select_anyDepth_child (p : Path) {ps : List Predicate}
    (h : ∀ q ∈ ps, q.isPositional = false) :
    (p.followedBy [.anyDepth, .mk .child test ps]).select t x =
      (p.followedBy [.mk .descendant test ps]).select t x := by
  refine Item.Ordered.eq_of_mem_iff (Path.ordered_select ..) (Path.ordered_select ..) fun y => ?_
  simp only [Path.mem_select, Path.leads_followedBy, Step.chain_anyDepth_child h]

theorem Axis.items_self (x : Item) : Axis.self.items t x = [x] := by
  obtain ⟨k, slot⟩ := x
  cases slot <;> rfl

/-- The step `.` takes what passes the test that all nodes pass to itself. -/
theorem Step.here_takes_iff :
    Step.here.Takes t x y ↔ x = y ∧ NodeTest.accepts t .node y = true := by
  rw [Step.here, Step.takes_iff_of_nil, Axis.items_self, List.mem_singleton, @eq_comm _ y]

theorem Step.chain_anyDepth_here :
    Step.Chain t [.anyDepth, .here] x y ↔ Step.anyDepth.Takes t x y := by
  rw [Step.Chain]
  simp only [Step.chain_singleton, Step.here_takes_iff]
  constructor
  · rintro ⟨z, htakes, rfl, -⟩
    exact htakes
  · intro htakes
    exact ⟨y, htakes, rfl, Step.accepts_of_takes htakes⟩

end

/-! ### Trees with one more step -/

/-- The steps with a further one behind them. -/
def StepsTree.followedBy (separator : Separator) (s : StepTree) : StepsTree → StepsTree
  | .one s' => .more s' separator (.one s)
  | .more s' separator' ss => .more s' separator' (ss.followedBy separator s)

/-- The path with a further step behind it. -/
def PathTree.followedBy (separator : Separator) (s : StepTree) : PathTree → PathTree
  | .root =>
    match separator with
    | .slash => .fromRoot (.one s)
    | .doubleSlash => .anyDepth (.one s)
  | .fromRoot ss => .fromRoot (ss.followedBy separator s)
  | .anyDepth ss => .anyDepth (ss.followedBy separator s)
  | .relative ss => .relative (ss.followedBy separator s)

section

variable {separator : Separator} {s : StepTree}

theorem StepsTree.word_followedBy : ∀ ss : StepsTree,
    (ss.followedBy separator s).word = ss.word ++ separator.token :: s.word
  | .one s' => rfl
  | .more s' separator' ss => by
    rw [followedBy, word, word_followedBy ss, word, List.append_assoc, List.cons_append]

theorem StepsTree.steps_followedBy : ∀ ss : StepsTree,
    (ss.followedBy separator s).steps = ss.steps ++ (separator.inserted ++ [s.step])
  | .one s' => rfl
  | .more s' separator' ss => by
    rw [followedBy, steps, steps_followedBy ss, steps, List.cons_append, List.append_assoc]

theorem PathTree.word_followedBy {p : PathTree} (hp : p ≠ .root) :
    (p.followedBy separator s).word = p.word ++ separator.token :: s.word := by
  cases p with
  | root => exact absurd rfl hp
  | fromRoot ss | anyDepth ss | relative ss =>
    simp only [followedBy, word, StepsTree.word_followedBy, List.cons_append]

/-- Behind the root the slashes are those that stand for it. -/
theorem PathTree.word_followedBy_root :
    (PathTree.root.followedBy separator s).word = separator.token :: s.word := by
  cases separator <;> rfl

theorem PathTree.path_followedBy (p : PathTree) :
    (p.followedBy separator s).path = p.path.followedBy (separator.inserted ++ [s.step]) := by
  cases p with
  | root => cases separator <;> rfl
  | fromRoot ss | anyDepth ss | relative ss =>
    simp only [followedBy, path, StepsTree.steps_followedBy, Path.followedBy, List.cons_append]

theorem StepsTree.steps_ne_nil (ss : StepsTree) : ss.steps ≠ [] := by
  cases ss <;> exact List.cons_ne_nil _ _

/-- What a path selects that has a step passes the test that all nodes pass. -/
theorem PathTree.accepts_of_leads {t : Tree} {p : PathTree} (hp : p ≠ .root) {x y : Item}
    (h : p.path.Leads t x y) : NodeTest.accepts t .node y = true := by
  cases p with
  | root => exact absurd rfl hp
  | fromRoot ss | relative ss => exact Step.accepts_of_chain ss.steps_ne_nil h
  | anyDepth ss => exact Step.accepts_of_chain (List.cons_ne_nil _ _) h

end

/-- Behind a path, two slashes and `.` lead to the nodes to which the path leads and to all that is
below, but to no attribute. -/
theorem PathTree.leads_anyDepth_here {t : Tree} {p : PathTree} (hp : p ≠ .root) {x y : Item} :
    (p.path.followedBy [.anyDepth, .here]).Leads t x y ↔
      y.slot = none ∧
        (p.path.Leads t x y ∨ (p.path.followedBy [.mk .descendant .node []]).Leads t x y) := by
  simp only [Path.leads_followedBy, Step.chain_anyDepth_here, Step.anyDepth_takes_iff,
    Step.chain_singleton]
  constructor
  · rintro ⟨z, hz, ⟨rfl, hslot, -⟩ | hbelow⟩
    · exact ⟨hslot, .inl hz⟩
    · exact ⟨Step.slot_of_takes_descendant hbelow, .inr ⟨z, hz, hbelow⟩⟩
  · rintro ⟨hslot, hy | ⟨z, hz, hbelow⟩⟩
    · exact ⟨y, hy, .inl ⟨rfl, hslot, PathTree.accepts_of_leads hp hy⟩⟩
    · exact ⟨z, hz, .inr hbelow⟩

/-! ### Expressions with slashes -/

namespace Expression

/-- Both lists of tokens are read, and from every node what they write selects the same items in the
same order. -/
def SelectAlike (ts ts' : List Token) : Prop :=
  ∃ e e', ofTokens ts = .ok e ∧ ofTokens ts' = .ok e' ∧ ∀ t k, e.select t k = e'.select t k

theorem forall_predicates {P : Predicate → Prop} {ps : List PredicateTree}
    (h : ∀ q ∈ ps, P q.predicate) : ∀ q ∈ PredicateTree.predicates ps, P q := by
  induction ps with
  | nil => exact fun q hq => absurd hq List.not_mem_nil
  | cons p ps ih =>
    obtain ⟨hp, hps⟩ := List.forall_mem_cons.mp h
    exact List.forall_mem_cons.mpr ⟨hp, ih hps⟩

theorem mem_select_one {p : Path} {t : Tree} {k : Nat} {y : Item} :
    y ∈ (Expression.mk [p]).select t k ↔ p.Leads t (.node k) y := by
  simp [mem_select]

theorem select_one (p : Path) (t : Tree) (k : Nat) :
    (Expression.mk [p]).select t k = p.select t (.node k) := by
  refine Item.Ordered.eq_of_mem_iff (ordered_select ..) (Path.ordered_select ..) fun y => ?_
  rw [mem_select_one, Path.mem_select]

theorem selectAlike_followedBy (test : TestTree) {predicates : List PredicateTree}
    (h : ∀ q ∈ predicates, q.predicate.isPositional = false) (p : PathTree) :
    SelectAlike (p.followedBy .doubleSlash (.along .omitted test predicates)).word
      (p.followedBy .slash (.along (.named .descendant) test predicates)).word := by
  refine ⟨_, _, ofTokens_word (.one _), ofTokens_word (.one _), fun t k => ?_⟩
  simp only [ExpressionTree.expression, ExpressionTree.paths, select_one, PathTree.path_followedBy]
  exact Path.select_anyDepth_child p.path (forall_predicates (P := (·.isPositional = false)) h)

/-- A step to the children behind two slashes selects what a step to all that is below selects
behind one, in the same order, if no predicate of the step counts.  This holds behind every path and
at the beginning of one. -/
theorem anyDepth_child (test : TestTree) (predicates : List PredicateTree)
    (h : ∀ q ∈ predicates, q.predicate.isPositional = false) :
    (∀ p : PathTree, p ≠ .root →
      SelectAlike (p.word ++ .doubleSlash :: (test.word ++ PredicateTree.words predicates))
        (p.word ++ .slash :: .axis "descendant" :: (test.word ++ PredicateTree.words predicates))) ∧
      SelectAlike (.doubleSlash :: (test.word ++ PredicateTree.words predicates))
        (.slash :: .axis "descendant" :: (test.word ++ PredicateTree.words predicates)) := by
  constructor
  · intro p hp
    have halike := selectAlike_followedBy test h p
    rwa [PathTree.word_followedBy hp, PathTree.word_followedBy hp] at halike
  · have halike := selectAlike_followedBy test h .root
    rwa [PathTree.word_followedBy_root, PathTree.word_followedBy_root] at halike

/-- Elements of one name inside each other, and a predicate with a path that counts: both ways lead
to the elements below the outer one that have a child, in document order. -/
theorem anyDepth_child_nested :
    let p : PathTree := .anyDepth (.one (.along .omitted (.plain "a" (by decide)) []))
    let predicates : List PredicateTree :=
      [.nonempty (.relative (.one (.along .omitted .any [.position 1 (by decide)])))]
    let ts := p.word ++ .doubleSlash :: (TestTree.any.word ++ PredicateTree.words predicates)
    let ts' := p.word ++ .slash :: .axis "descendant" ::
      (TestTree.any.word ++ PredicateTree.words predicates)
    let t := Tree.ofRoot (.root [.element ⟨none, "a"⟩ [] [.element ⟨none, "a"⟩ []
      [.element ⟨none, "b"⟩ [] [.element ⟨none, "c"⟩ [] []]], .element ⟨none, "a"⟩ [] []]])
    (∀ q ∈ predicates, q.predicate.isPositional = false) ∧ SelectAlike ts ts' ∧
      tokens "//a//*[*[1]]" = .ok ts ∧ tokens "//a/descendant::*[*[1]]" = .ok ts' ∧
      (ofTokens ts).toOption.map (·.select t 0) = some [.node 2, .node 3] := by
  intro p predicates ts ts' t
  have hcounts : ∀ q ∈ predicates, q.predicate.isPositional = false := by
    intro q hq
    rw [List.mem_singleton.mp hq]
    rfl
  refine ⟨hcounts, (anyDepth_child .any predicates hcounts).1 p nofun, ?_, ?_, ?_⟩ <;>
    decide +kernel

/-- A predicate that counts does so among the children of each item behind two slashes, but among all
that is below otherwise. -/
example :
    let t := Tree.ofRoot (.root [.element ⟨none, "a"⟩ []
      [.element ⟨none, "b"⟩ [] [.element ⟨none, "b"⟩ [] []]]])
    (compile "//b[1]").toOption.map (·.select t 0) = some [.node 2, .node 3] ∧
      (compile "/descendant::b[1]").toOption.map (·.select t 0) = some [.node 2] := by
  decide +kernel

section

variable {p : PathTree} {t : Tree} {k : Nat}

theorem ofTokens_anyDepth_here (hp : p ≠ .root) :
    ofTokens (p.word ++ [.doubleSlash, .dot]) = .ok ⟨[p.path.followedBy [.anyDepth, .here]]⟩ := by
  have hread := ofTokens_word (.one (p.followedBy .doubleSlash .here))
  rw [ExpressionTree.expression, ExpressionTree.paths, PathTree.path_followedBy,
    ExpressionTree.word, PathTree.word_followedBy hp] at hread
  exact hread

theorem ofTokens_below (hp : p ≠ .root) :
    ofTokens (p.word ++ .pipe :: (p.word ++
        [.slash, .axis "descendant", .name "node", .leftParen, .rightParen])) =
      .ok ⟨[p.path, p.path.followedBy [.mk .descendant .node []]]⟩ := by
  have hread :=
    ofTokens_word (.more p (.one (p.followedBy .slash (.along (.named .descendant) .node []))))
  rw [ExpressionTree.expression, ExpressionTree.paths, ExpressionTree.paths,
    PathTree.path_followedBy, ExpressionTree.word, ExpressionTree.word,
    PathTree.word_followedBy hp] at hread
  exact hread

theorem mem_select_below {p : Path} {y : Item} :
    y ∈ (Expression.mk [p, p.followedBy [.mk .descendant .node []]]).select t k ↔
      p.Leads t (.node k) y ∨ (p.followedBy [.mk .descendant .node []]).Leads t (.node k) y := by
  simp [mem_select]

theorem select_anyDepth_here (hp : p ≠ .root) :
    (Expression.mk [p.path.followedBy [.anyDepth, .here]]).select t k =
      ((Expression.mk [p.path, p.path.followedBy [.mk .descendant .node []]]).select t k).filter
        fun y => y.slot.isNone := by
  refine Item.Ordered.eq_of_mem_iff (ordered_select ..) ((ordered_select ..).filter _) fun y => ?_
  rw [mem_select_one, PathTree.leads_anyDepth_here hp, List.mem_filter, mem_select_below,
    Option.isNone_iff_eq_none, and_comm]

/-- All attributes among what a path selects and what is below were selected by the path. -/
theorem forall_select_below {p : Path} :
    (∀ y ∈ (Expression.mk [p, p.followedBy [.mk .descendant .node []]]).select t k,
      y.slot = none) ↔ ∀ y ∈ (Expression.mk [p]).select t k, y.slot = none := by
  constructor
  · intro h y hy
    exact h y (mem_select_below.mpr (.inl (mem_select_one.mp hy)))
  · intro h y hy
    rcases mem_select_below.mp hy with hy | hy
    · exact h y (mem_select_one.mpr hy)
    · obtain ⟨z, -, hchain⟩ := (Path.leads_followedBy ..).mp hy
      exact Step.slot_of_takes_descendant (Step.chain_singleton.mp hchain)

end

/-- Two slashes and `.` behind a path select what the path selects together with all that is below,
less the attributes among it.  So they select all of this exactly if the path selects no
attribute, and otherwise they lose what the path itself selects. -/
theorem anyDepth_here (p : PathTree) (hp : p ≠ .root) :
    ∃ e e' e'', ofTokens p.word = .ok e ∧ ofTokens (p.word ++ [.doubleSlash, .dot]) = .ok e' ∧
      ofTokens (p.word ++ .pipe :: (p.word ++
        [.slash, .axis "descendant", .name "node", .leftParen, .rightParen])) = .ok e'' ∧
      ∀ t k,
        e'.select t k = (e''.select t k).filter (fun y => y.slot.isNone) ∧
        (e'.select t k = e''.select t k ↔ ∀ y ∈ e.select t k, y.slot = none) ∧
        (e.select t k ⊆ e'.select t k ↔ ∀ y ∈ e.select t k, y.slot = none) := by
  refine ⟨⟨[p.path]⟩, _, _, ofTokens_word (.one p), ofTokens_anyDepth_here hp, ofTokens_below hp,
    fun t k => ?_⟩
  have hselect := select_anyDepth_here (t := t) (k := k) hp
  refine ⟨hselect, ?_, ?_⟩
  · rw [hselect, List.filter_eq_self]
    simp only [Option.isNone_iff_eq_none]
    exact forall_select_below
  · rw [hselect]
    constructor
    · intro hsubset y hy
      exact Option.isNone_iff_eq_none.mp (List.mem_filter.mp (hsubset hy)).2
    · intro hnone y hy
      refine List.mem_filter.mpr ⟨?_, Option.isNone_iff_eq_none.mpr (hnone y hy)⟩
      exact mem_select_below.mpr (.inl (mem_select_one.mp hy))

/-- The attributes of a document have nothing below, and they are lost behind two slashes. -/
theorem anyDepth_here_attribute :
    let p : PathTree := .anyDepth (.one (.along .atSign (.plain "n" (by decide)) []))
    let t := Tree.ofRoot (.root [.element ⟨none, "a"⟩ [⟨⟨none, "n"⟩, "1"⟩] []])
    p ≠ .root ∧
      (∃ e e' e'', ofTokens p.word = .ok e ∧ ofTokens (p.word ++ [.doubleSlash, .dot]) = .ok e' ∧
        ofTokens (p.word ++ .pipe :: (p.word ++
          [.slash, .axis "descendant", .name "node", .leftParen, .rightParen])) = .ok e'' ∧
        ∀ t k,
          e'.select t k = (e''.select t k).filter (fun y => y.slot.isNone) ∧
          (e'.select t k = e''.select t k ↔ ∀ y ∈ e.select t k, y.slot = none) ∧
          (e.select t k ⊆ e'.select t k ↔ ∀ y ∈ e.select t k, y.slot = none)) ∧
      (compile "//@n").toOption.map (·.select t 0) = some [⟨1, some 0⟩] ∧
      (compile "//@n//.").toOption.map (·.select t 0) = some [] ∧
      (compile "//@n|//@n/descendant::node()").toOption.map (·.select t 0) =
        some [⟨1, some 0⟩] := by
  intro p t
  have hp : p ≠ .root := nofun
  refine ⟨hp, anyDepth_here p hp, ?_, ?_, ?_⟩ <;> decide +kernel

end Expression

end XmlHarvest.XPath

/-
The units that a grammar stands for.

`Rule.Yields` says without loops what a rule makes of a document: for each expression of the rule
and each element that this selects there is one unit (`Rule.Builds`), with the units of the rules
below that are not terminal and the sentences of those that are.  What an expression selects is said
by its paths and by document order alone (`Picks`, `Selects`).  A rule yields one list of units at
most (`Rule.Yields.unique`), and every unit in them is like its rule (`Rule.Shapes`).
-/
import XmlHarvest.Grammar.Reader
import XmlHarvest.Harvest.Passage
import XmlHarvest.Proofs.Harvest.Nesting
import XmlHarvest.Proofs.Text.Words
import XmlHarvest.Proofs.XPath.Meaning
import Mathlib.Logic.Relation

namespace XmlHarvest

open Relation
open Xml (Item Tree)

/-! ### What expressions select -/

/-- The items that an expression picks at a node: the node itself if the expression is blank, or
those to which one of its paths leads, in document order and each once. -/
inductive Picks (t : Tree) (k : Nat) (e : String) (items : List Item) : Prop
  | blank (isBlank : XPath.isSelf e = true) (self : items = [.node k])
  | paths {ex : XPath.Expression} (notBlank : XPath.isSelf e = false)
      (compiled : XPath.compile e = .ok ex) (ordered : Item.Ordered items)
      (mem : ∀ y, y ∈ items ↔ ∃ p ∈ ex.paths, p.Leads t (.node k) y)

/-- The elements that an expression selects under a node: the element children of the node if the
expression is blank, or the elements to which one of its paths leads, in document order and each
once. -/
inductive Selects (t : Tree) (k : Nat) (e : String) (elements : List Nat) : Prop
  | blank (isBlank : XPath.isSelf e = true) (ordered : elements.Pairwise (· < ·))
      (mem : ∀ i, i ∈ elements ↔ i ∈ t.children k ∧ t.isElement i = true)
  | paths {ex : XPath.Expression} (notBlank : XPath.isSelf e = false)
      (compiled : XPath.compile e = .ok ex) (ordered : elements.Pairwise (· < ·))
      (mem : ∀ i, i ∈ elements ↔
        (∃ p ∈ ex.paths, p.Leads t (.node k) (.node i)) ∧ t.isElement i = true)

/-! ### Metadata -/

/-- The entry has a value and belongs to one of the rules. -/
structure Metadata.From (rules : List MetadataRule) (m : Metadata) : Prop where
  value : m.value ≠ ""
  specification : m.specification ∈ rules
  propertyName : m.propertyName = m.specification.propertyName

/-- The metadata that some rules make at a node: rule by rule, within a rule expression by
expression, and within an expression in the document order of the items that it picks. -/
def Describes (t : Tree) (rules : List MetadataRule) (k : Nat) (ms : List Metadata) : Prop :=
  ∃ picked : String → List Item, (∀ r ∈ rules, ∀ e ∈ r.xpaths, Picks t k e (picked e)) ∧
    ms = rules.flatMap fun r => r.xpaths.flatMap fun e => (picked e).flatMap fun x => r.values t [x]

/-! ### Sentences -/

/-- The block that a terminal rule makes at an element: the matches of its expressions one after the
other, and the metadata of those that are nodes. -/
structure Block (t : Tree) (head : RuleHead) (k : Nat) (matched : List Item)
    (metadata : List Metadata) : Prop where
  picked : ∃ picked : String → List Item, (∀ e ∈ head.xpaths, Picks t k e (picked e)) ∧
    matched = head.xpaths.flatMap picked
  described : ∃ described : Item → List Metadata,
    (∀ x ∈ matched, ∀ i, x.nodeNumber? = some i → Describes t head.metadata i (described x)) ∧
    (∀ x ∈ matched, x.nodeNumber? = none → described x = []) ∧
    metadata = matched.flatMap described

/-- The text of a block: those of its matches without the blanks around them, a line feed after
each. -/
def blockText (t : Tree) (matched : List Item) : String :=
  String.join (matched.map fun x => Text.trim (x.text t) ++ "\n")

/-- The texts of the sentences of a block. -/
inductive Cuts (t : Tree) : Option Tokenizer → List Item → List String → Prop
  | whole {matched : List Item} : Cuts t none matched [blockText t matched]
  | nothing {cut : Tokenizer} : Cuts t (some cut) [] []
  | cut {cut : Tokenizer} {matched : List Item} {texts : List String} (nonempty : matched ≠ [])
      (cuts : cut (blockText t matched) = .ok texts) : Cuts t (some cut) matched texts

/-- The sentences that a terminal rule makes at an element. -/
inductive Segments (t : Tree) (split : Option Tokenizer) (head : RuleHead) (k : Nat) :
    List Sentence → Prop
  | mk {matched : List Item} {metadata : List Metadata} {texts : List String}
      (block : Block t head k matched metadata) (cuts : Cuts t split matched texts) :
      Segments t split head k (texts.map fun text => ⟨text, metadata⟩)

/-! ### Units -/

mutual

/-- The units that a rule yields under a node: one for each expression of the rule in their order
and each element that the expression selects, in document order. -/
inductive Rule.Yields (t : Tree) (split : Option Tokenizer) :
    Rule → Nat → List (TextUnit Sentence) → Prop
  | mk {rule : Rule} {k : Nat} (selected : String → List Nat) (built : Nat → TextUnit Sentence)
      (selects : ∀ e ∈ rule.head.xpaths, Selects t k e (selected e))
      (builds : ∀ e ∈ rule.head.xpaths, ∀ i ∈ selected e, Rule.Builds t split rule i (built i)) :
      Rule.Yields t split rule k (rule.head.xpaths.flatMap fun e => (selected e).map built)

/-- The unit that a rule builds for an element: it has the units of the rules below that are not
terminal and the sentences of those that are, rule by rule. -/
inductive Rule.Builds (t : Tree) (split : Option Tokenizer) :
    Rule → Nat → TextUnit Sentence → Prop
  | mk {rule : Rule} {i : Nat} {metadata : List Metadata}
      (yielded : Rule → List (TextUnit Sentence)) (made : Rule → List Sentence)
      (describes : Describes t rule.head.metadata i metadata)
      (yields : ∀ r ∈ rule.units, r.isTerminal = false → Rule.Yields t split r i (yielded r))
      (segments : ∀ r ∈ rule.units, r.isTerminal = true → Segments t split r.head i (made r)) :
      Rule.Builds t split rule i
        ⟨rule.head.name, metadata, (rule.units.filter (!·.isTerminal)).flatMap yielded,
          (rule.units.filter (·.isTerminal)).flatMap made⟩

end

/-! ### Values -/

theorem MetadataRule.from_of_mem_values {t : Tree} {rules : List MetadataRule} {r : MetadataRule}
    (hr : r ∈ rules) {items : List Item} {m : Metadata} (hm : m ∈ r.values t items) :
    m.From rules := by
  unfold MetadataRule.values at hm
  obtain ⟨value, hvalue, rfl⟩ := List.mem_map.mp hm
  refine ⟨?_, hr, rfl⟩
  split at hvalue
  · obtain ⟨x, -, hvalue⟩ := List.mem_flatMap.mp hvalue
    split at hvalue
    · obtain ⟨w, hw, rfl⟩ := List.mem_map.mp hvalue
      rw [Text.runsBetween_eq_runs] at hw
      simpa [← String.toList_eq_nil_iff] using (Text.of_mem_runs hw).1
    · cases hvalue
  · exact bne_iff_ne.mp (List.mem_filter.mp hvalue).2

/-! ### Induction on a grammar -/

section Induction

variable {P : Rule → Prop}

mutual

/-- What holds of a rule if it holds of the rules below it, holds of every rule. -/
theorem Rule.induct (h : ∀ rule : Rule, (∀ r ∈ rule.units, P r) → P rule) : ∀ rule, P rule
  | .terminal _ => h _ (List.forall_mem_nil _)
  | .nested _ rules => h _ (Rule.inductAll h rules)

theorem Rule.inductAll (h : ∀ rule : Rule, (∀ r ∈ rule.units, P r) → P rule) :
    ∀ rules : List Rule, ∀ r ∈ rules, P r
  | [] => List.forall_mem_nil _
  | r :: rules => List.forall_mem_cons.mpr ⟨Rule.induct h r, Rule.inductAll h rules⟩

end

end Induction

/-! ### One tree for each document -/

section Unique

variable {t : Tree} {split : Option Tokenizer} {k : Nat} {e : String}

theorem Picks.unique {xs ys : List Item} (hxs : Picks t k e xs) (hys : Picks t k e ys) :
    xs = ys := by
  rcases hxs with ⟨hblank, hself⟩ | ⟨hnot, hcompiled, hordered, hmem⟩
  · rcases hys with ⟨-, hself'⟩ | ⟨hnot', -, -, -⟩
    · rw [hself, hself']
    · exact absurd hblank (Bool.eq_false_iff.mp hnot')
  · rcases hys with ⟨hblank', -⟩ | ⟨-, hcompiled', hordered', hmem'⟩
    · exact absurd hblank' (Bool.eq_false_iff.mp hnot)
    · cases hcompiled.symm.trans hcompiled'
      exact hordered.eq_of_mem_iff hordered' fun y => (hmem y).trans (hmem' y).symm

theorem Selects.unique {xs ys : List Nat} (hxs : Selects t k e xs) (hys : Selects t k e ys) :
    xs = ys := by
  rcases hxs with ⟨hblank, hordered, hmem⟩ | ⟨hnot, hcompiled, hordered, hmem⟩
  · rcases hys with ⟨-, hordered', hmem'⟩ | ⟨hnot', -, -, -⟩
    · exact hordered.eq_of_mem_iff hordered' fun i => (hmem i).trans (hmem' i).symm
    · exact absurd hblank (Bool.eq_false_iff.mp hnot')
  · rcases hys with ⟨hblank', -, -⟩ | ⟨-, hcompiled', hordered', hmem'⟩
    · exact absurd hblank' (Bool.eq_false_iff.mp hnot)
    · cases hcompiled.symm.trans hcompiled'
      exact hordered.eq_of_mem_iff hordered' fun i => (hmem i).trans (hmem' i).symm

theorem Describes.unique {rules : List MetadataRule} {ms ms' : List Metadata}
    (h : Describes t rules k ms) (h' : Describes t rules k ms') : ms = ms' := by
  obtain ⟨picked, hpicked, rfl⟩ := h
  obtain ⟨picked', hpicked', rfl⟩ := h'
  refine List.flatMap_congr fun r hr => List.flatMap_congr fun e he => ?_
  rw [(hpicked r hr e he).unique (hpicked' r hr e he)]

theorem Block.unique {head : RuleHead} {matched matched' : List Item}
    {metadata metadata' : List Metadata} (h : Block t head k matched metadata)
    (h' : Block t head k matched' metadata') : matched = matched' ∧ metadata = metadata' := by
  obtain ⟨⟨picked, hpicked, hmatched⟩, described, hnodes, hattributes, rfl⟩ := h
  obtain ⟨⟨picked', hpicked', hmatched'⟩, described', hnodes', hattributes', rfl⟩ := h'
  obtain rfl : matched = matched' := by
    rw [hmatched, hmatched']
    exact List.flatMap_congr fun e he => (hpicked e he).unique (hpicked' e he)
  refine ⟨rfl, List.flatMap_congr fun x hx => ?_⟩
  cases hnumber : x.nodeNumber? with
  | none => rw [hattributes x hx hnumber, hattributes' x hx hnumber]
  | some i => exact (hnodes x hx i hnumber).unique (hnodes' x hx i hnumber)

theorem Cuts.unique {matched : List Item} {texts texts' : List String}
    (h : Cuts t split matched texts) (h' : Cuts t split matched texts') : texts = texts' := by
  cases h with
  | whole =>
    cases h'
    rfl
  | nothing =>
    cases h' with
    | nothing => rfl
    | cut hne => exact absurd rfl hne
  | cut hne hcuts =>
    cases h' with
    | nothing => exact absurd rfl hne
    | cut _ hcuts' => exact Except.ok.inj (hcuts.symm.trans hcuts')

theorem Segments.unique {head : RuleHead} {ss ss' : List Sentence}
    (h : Segments t split head k ss) (h' : Segments t split head k ss') : ss = ss' := by
  obtain ⟨hblock, hcuts⟩ := h
  obtain ⟨hblock', hcuts'⟩ := h'
  obtain ⟨rfl, rfl⟩ := hblock.unique hblock'
  rw [hcuts.unique hcuts']

theorem Rule.Builds.unique {rule : Rule} {i : Nat} {u v : TextUnit Sentence}
    (hyields : ∀ r ∈ rule.units, ∀ us vs, Rule.Yields t split r i us → Rule.Yields t split r i vs →
      us = vs)
    (hu : Rule.Builds t split rule i u) (hv : Rule.Builds t split rule i v) : u = v := by
  obtain ⟨yielded, made, hdescribes, hbelow, hsegments⟩ := hu
  obtain ⟨yielded', made', hdescribes', hbelow', hsegments'⟩ := hv
  have hunits : (rule.units.filter (!·.isTerminal)).flatMap yielded =
      (rule.units.filter (!·.isTerminal)).flatMap yielded' := by
    refine List.flatMap_congr fun r hr => ?_
    obtain ⟨hr, hnot⟩ := List.mem_filter.mp hr
    have hnested : r.isTerminal = false := by simpa using hnot
    exact hyields r hr _ _ (hbelow r hr hnested) (hbelow' r hr hnested)
  have hsentences : (rule.units.filter (·.isTerminal)).flatMap made =
      (rule.units.filter (·.isTerminal)).flatMap made' := by
    refine List.flatMap_congr fun r hr => ?_
    obtain ⟨hr, hterminal⟩ := List.mem_filter.mp hr
    exact (hsegments r hr hterminal).unique (hsegments' r hr hterminal)
  rw [hdescribes.unique hdescribes', hunits, hsentences]

/-- A rule yields one list of units at most. -/
theorem Rule.Yields.unique (rule : Rule) : ∀ {k : Nat} {us vs : List (TextUnit Sentence)},
    Rule.Yields t split rule k us → Rule.Yields t split rule k vs → us = vs := by
  induction rule using Rule.induct with
  | h rule ih =>
    intro k us vs hus hvs
    obtain ⟨selected, built, hselects, hbuilds⟩ := hus
    obtain ⟨selected', built', hselects', hbuilds'⟩ := hvs
    refine List.flatMap_congr fun e he => ?_
    have hselected : selected e = selected' e := (hselects e he).unique (hselects' e he)
    rw [← hselected]
    refine List.map_congr_left fun i hi => ?_
    refine Rule.Builds.unique ?_ (hbuilds e he i hi) (hbuilds' e he i (hselected ▸ hi))
    exact fun r hr us vs => ih r hr

end Unique

/-! ### What holds of every unit -/

/-- The other rule stands below the rule, at whatever depth. -/
def Rule.Above (rule r : Rule) : Prop := TransGen (fun r s => s ∈ r.units) rule r

/-- The other unit stands in the unit, at whatever depth. -/
def TextUnit.Above (u v : TextUnit Sentence) : Prop := TransGen (fun u v => v ∈ u.units) u v

/-- What the units of a rule have in common, whatever the document. -/
structure Rule.Shapes (rule : Rule) (u : TextUnit Sentence) : Prop where
  name : u.name = rule.head.name
  sentences : u.sentences ≠ [] → ∃ r ∈ rule.units, r.isTerminal = true
  metadata : ∀ m ∈ u.metadata, m.From rule.head.metadata
  shared : ∀ s ∈ u.sentences, ∃ r ∈ rule.units, r.isTerminal = true ∧
    ∀ m ∈ s.metadata, m.From r.head.metadata

theorem Describes.from_of_mem {t : Tree} {rules : List MetadataRule} {k : Nat} {ms : List Metadata}
    (h : Describes t rules k ms) {m : Metadata} (hm : m ∈ ms) : m.From rules := by
  obtain ⟨picked, -, rfl⟩ := h
  obtain ⟨r, hr, hm⟩ := List.mem_flatMap.mp hm
  obtain ⟨e, -, hm⟩ := List.mem_flatMap.mp hm
  obtain ⟨x, -, hm⟩ := List.mem_flatMap.mp hm
  exact r.from_of_mem_values hr hm

/-- The entries come rule by rule, in the order of the rules. -/
def InRuleOrder : List MetadataRule → List Metadata → Prop
  | [], ms => ms = []
  | r :: rules, ms => ∃ first others, ms = first ++ others ∧
      (∀ m ∈ first, m.specification = r) ∧ InRuleOrder rules others

theorem inRuleOrder_flatMap {f : MetadataRule → List Metadata} {rules : List MetadataRule}
    (h : ∀ r ∈ rules, ∀ m ∈ f r, m.specification = r) : InRuleOrder rules (rules.flatMap f) := by
  induction rules with
  | nil => rfl
  | cons r rules ih =>
    obtain ⟨hfirst, hothers⟩ := List.forall_mem_cons.mp h
    exact ⟨f r, rules.flatMap f, List.flatMap_cons, hfirst, ih hothers⟩

theorem Describes.inRuleOrder {t : Tree} {rules : List MetadataRule} {k : Nat} {ms : List Metadata}
    (h : Describes t rules k ms) : InRuleOrder rules ms := by
  obtain ⟨picked, -, rfl⟩ := h
  refine inRuleOrder_flatMap ?_
  intro r _ m hm
  obtain ⟨e, -, hm⟩ := List.mem_flatMap.mp hm
  obtain ⟨x, -, hm⟩ := List.mem_flatMap.mp hm
  obtain ⟨value, -, rfl⟩ := List.mem_map.mp hm
  rfl

section Shapes

variable {t : Tree} {split : Option Tokenizer} {rule : Rule} {i : Nat} {u v : TextUnit Sentence}

/-- Metadata of a block are those of a match that is a node. -/
theorem Segments.from_of_mem {head : RuleHead} {ss : List Sentence}
    (h : Segments t split head i ss) {s : Sentence} (hs : s ∈ ss) {m : Metadata}
    (hm : m ∈ s.metadata) : m.From head.metadata := by
  obtain ⟨⟨-, described, hnodes, hattributes, rfl⟩, -⟩ := h
  obtain ⟨text, -, rfl⟩ := List.mem_map.mp hs
  obtain ⟨x, hx, hm⟩ := List.mem_flatMap.mp hm
  cases hnumber : x.nodeNumber? with
  | none =>
    rw [hattributes x hx hnumber] at hm
    cases hm
  | some j => exact (hnodes x hx j hnumber).from_of_mem hm

theorem Rule.Builds.shapes (h : Rule.Builds t split rule i u) : rule.Shapes u := by
  obtain ⟨yielded, made, hdescribes, -, hsegments⟩ := h
  have hmade : ∀ s ∈ (rule.units.filter (·.isTerminal)).flatMap made,
      ∃ r ∈ rule.units, r.isTerminal = true ∧ s ∈ made r := by
    intro s hs
    obtain ⟨r, hr, hs⟩ := List.mem_flatMap.mp hs
    obtain ⟨hr, hterminal⟩ := List.mem_filter.mp hr
    exact ⟨r, hr, hterminal, hs⟩
  refine ⟨rfl, ?_, fun m hm => hdescribes.from_of_mem hm, ?_⟩
  · intro hne
    obtain ⟨s, hs⟩ := List.exists_mem_of_ne_nil _ hne
    obtain ⟨r, hr, hterminal, -⟩ := hmade s hs
    exact ⟨r, hr, hterminal⟩
  · intro s hs
    obtain ⟨r, hr, hterminal, hs⟩ := hmade s hs
    exact ⟨r, hr, hterminal, fun m hm => (hsegments r hr hterminal).from_of_mem hs hm⟩

/-- Every unit that a rule yields was built by it. -/
theorem Rule.Yields.built {us : List (TextUnit Sentence)} (h : Rule.Yields t split rule i us)
    (hu : u ∈ us) : ∃ j, Rule.Builds t split rule j u := by
  obtain ⟨selected, built, -, hbuilds⟩ := h
  obtain ⟨e, he, hu⟩ := List.mem_flatMap.mp hu
  obtain ⟨j, hj, rfl⟩ := List.mem_map.mp hu
  exact ⟨j, hbuilds e he j hj⟩

/-- A unit in a unit was built by a rule below the other's, which is not terminal. -/
theorem Rule.Builds.inner (h : Rule.Builds t split rule i u) (hv : v ∈ u.units) :
    ∃ r ∈ rule.units, r.isTerminal = false ∧ ∃ j, Rule.Builds t split r j v := by
  obtain ⟨yielded, made, -, hyields, -⟩ := h
  obtain ⟨r, hr, hv⟩ := List.mem_flatMap.mp hv
  obtain ⟨hr, hnot⟩ := List.mem_filter.mp hr
  have hnested : r.isTerminal = false := by simpa using hnot
  exact ⟨r, hr, hnested, (hyields r hr hnested).built hv⟩

theorem Rule.Builds.inner_above (h : Rule.Builds t split rule i u) (huv : u.Above v) :
    ∃ r, rule.Above r ∧ r.isTerminal = false ∧ ∃ j, Rule.Builds t split r j v := by
  induction huv with
  | single hv =>
    obtain ⟨r, hr, hnested, hbuilt⟩ := h.inner hv
    exact ⟨r, .single hr, hnested, hbuilt⟩
  | tail _ hv ih =>
    obtain ⟨r, hr, -, j, hbuilt⟩ := ih
    obtain ⟨s, hs, hnested, hbuilt⟩ := hbuilt.inner hv
    exact ⟨s, hr.tail hs, hnested, hbuilt⟩

end Shapes

/-! ### Names -/

theorem RuleDraft.isTerminal_rule (d : RuleDraft) :
    d.rule.isTerminal = marksTerminal d.rule.head.name := by
  rw [d.head_rule]
  obtain ⟨name, xpaths, metadata, units⟩ := d
  simp only [RuleDraft.rule]
  split
  · next hmarked => rw [hmarked]; rfl
  · next hunmarked => rw [Bool.eq_false_iff.mpr hunmarked]; rfl

/-- The rules below one that a draft stands for are such rules too. -/
theorem RuleDraft.rule_above {d : RuleDraft} {r : Rule} (h : d.rule.Above r) :
    ∃ d' : RuleDraft, d'.rule = r := by
  induction h with
  | single hr =>
    obtain ⟨d', -, hd'⟩ := RuleDraft.mem_units_rule hr
    exact ⟨d', hd'⟩
  | tail _ hs ih =>
    obtain ⟨d', rfl⟩ := ih
    obtain ⟨d'', -, hd''⟩ := RuleDraft.mem_units_rule hs
    exact ⟨d'', hd''⟩

/-- Below the root of a grammar that was read, exactly the terminal rules are marked by their
names. -/
theorem Rule.isTerminal_of_read {text : String} {rule r : Rule} (hread : Rule.read text = .ok rule)
    (h : rule.Above r) : r.isTerminal = true ↔ "sentence".toList <:+: r.head.name.toList := by
  obtain ⟨-, d, -, rfl⟩ := Rule.draft_of_read hread
  obtain ⟨d', rfl⟩ := RuleDraft.rule_above h
  rw [d'.isTerminal_rule, marksTerminal, Text.contains]
  exact Text.occursIn_iff

end XmlHarvest

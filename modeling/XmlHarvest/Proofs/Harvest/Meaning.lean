/-
What extraction makes of a document.

Extraction is written as loops that may fail.  Where it ends, every loop gives what its expressions
pick, rule by rule, and so the units of the document are those that its grammar yields.  Main
statement: the documents are the one list that the grammar stands for
(`Extractor.meaning_of_extract`).
-/
import XmlHarvest.Harvest.Extractor
import XmlHarvest.Proofs.Harvest.Yield

namespace XmlHarvest

open Xml (Item Tree)

/-! ### Extraction that ends, once more -/

section Extraction

variable {ε α β : Type}

/-- What is gathered is what each of the items gives, and none of them fails. -/
theorem gather_eq_ok {f : α → Except ε (List β)} {xs : List α} {ys : List β}
    (h : gather f xs = .ok ys) :
    (∀ x ∈ xs, ∃ zs, f x = .ok zs) ∧ ys = xs.flatMap fun x => (f x).toOption.getD [] := by
  induction xs generalizing ys with
  | nil =>
    obtain rfl : [] = ys := Except.ok.inj h
    exact ⟨List.forall_mem_nil _, rfl⟩
  | cons x xs ih =>
    obtain ⟨first, hfirst, h⟩ := bind_eq_ok h
    obtain ⟨others, hothers, h⟩ := bind_eq_ok h
    obtain rfl : first ++ others = ys := Except.ok.inj h
    obtain ⟨hall, rfl⟩ := ih hothers
    refine ⟨List.forall_mem_cons.mpr ⟨⟨first, hfirst⟩, hall⟩, ?_⟩
    rw [List.flatMap_cons, hfirst]
    rfl

theorem mapError_eq_ok {ε' : Type} {x : Except ε α} {f : ε → ε'} {a : α}
    (h : x.mapError f = .ok a) : x = .ok a := by
  cases x with
  | error fault => cases h
  | ok b => exact congrArg Except.ok (Except.ok.inj h)

variable {split : Option Tokenizer} {t : Tree} {k : Nat} {e : String}

theorem picks_of_resolve {items : List Item}
    (h : XPath.resolve (Tools.direct split).compiled t e k = .ok items) : Picks t k e items := by
  unfold XPath.resolve at h
  split at h
  · next hblank => exact .blank hblank (Except.ok.inj h).symm
  · next hblank =>
    obtain ⟨ex, hex, rfl⟩ := map_eq_ok h
    exact .paths (Bool.eq_false_iff.mpr hblank) (mapError_eq_ok hex) (ex.ordered_select t k)
      (ex.mem_select t k)

/-- What an expression picks at a node, if it compiles. -/
def pickedAt (split : Option Tokenizer) (t : Tree) (k : Nat) (e : String) : List Item :=
  (XPath.resolve (Tools.direct split).compiled t e k).toOption.getD []

theorem pickedAt_of_resolve {items : List Item}
    (h : XPath.resolve (Tools.direct split).compiled t e k = .ok items) :
    pickedAt split t k e = items := by
  rw [pickedAt, h]
  rfl

theorem picks_pickedAt {items : List Item}
    (h : XPath.resolve (Tools.direct split).compiled t e k = .ok items) :
    Picks t k e (pickedAt split t k e) := by
  rw [pickedAt_of_resolve h]
  exact picks_of_resolve h

theorem nodeNumber?_eq_some {x : Item} {i : Nat} : x.nodeNumber? = some i ↔ x = .node i := by
  obtain ⟨number, slot⟩ := x
  cases slot <;> simp [Item.nodeNumber?, Item.node]

/-- The numbers of the nodes among items in document order increase. -/
theorem pairwise_nodeNumbers {items : List Item} (h : Item.Ordered items) :
    (items.filterMap Item.nodeNumber?).Pairwise (· < ·) := by
  rw [List.pairwise_filterMap]
  refine h.imp ?_
  intro x y hxy i hi j hj
  rw [nodeNumber?_eq_some] at hi hj
  subst hi hj
  rw [Item.before_iff] at hxy
  rcases hxy with hlt | ⟨-, hplace⟩
  · exact hlt
  · exact absurd hplace (Nat.lt_irrefl 0)

theorem selects_of_elementsUnder {elements : List Nat}
    (h : elementsUnder (Tools.direct split) t k e = .ok elements) : Selects t k e elements := by
  unfold elementsUnder at h
  split at h
  · next hblank =>
    obtain rfl : elementChildren t k = elements := Except.ok.inj h
    exact .blank hblank ((t.pairwise_children k).filter _) fun i => List.mem_filter
  · next hblank =>
    obtain ⟨items, hitems, rfl⟩ := map_eq_ok h
    rcases picks_of_resolve hitems with ⟨hself, -⟩ | ⟨hnot, hcompiled, hordered, hmem⟩
    · exact absurd hself hblank
    · refine .paths hnot hcompiled ((pairwise_nodeNumbers hordered).filter _) fun i => ?_
      rw [List.mem_filter, List.mem_filterMap, ← hmem]
      refine and_congr_left fun _ => ?_
      constructor
      · rintro ⟨x, hx, hi⟩
        rwa [← nodeNumber?_eq_some.mp hi]
      · intro hi
        exact ⟨.node i, hi, rfl⟩

/-! ### Metadata -/

/-- The values that a rule finds in some items are those that it finds in one after the other. -/
theorem MetadataRule.values_eq_flatMap (t : Tree) (r : MetadataRule) (items : List Item) :
    r.values t items = items.flatMap fun x => r.values t [x] := by
  unfold MetadataRule.values
  cases r.attr with
  | some name =>
    simp only [attributeValues, List.map_flatMap, List.flatMap_cons, List.flatMap_nil,
      List.append_nil]
  | none =>
    simp only [textValues]
    induction items with
    | nil => rfl
    | cons x items ih =>
      rw [List.flatMap_cons, ← ih, ← List.map_append, ← List.filter_append]
      rfl

theorem describes_of_metadataAt {rules : List MetadataRule} {ms : List Metadata}
    (h : metadataAt (Tools.direct split) t rules k = .ok ms) : Describes t rules k ms := by
  obtain ⟨hall, rfl⟩ := gather_eq_ok h
  have hresolves : ∀ r ∈ rules, ∀ e ∈ r.xpaths,
      ∃ items, XPath.resolve (Tools.direct split).compiled t e k = .ok items := by
    intro r hr e he
    obtain ⟨values, hvalues⟩ := hall r hr
    obtain ⟨_, hitems⟩ := (gather_eq_ok hvalues).1 e he
    obtain ⟨items, hitems, -⟩ := map_eq_ok hitems
    exact ⟨items, hitems⟩
  have hgrouped : ∀ r ∈ rules,
      (gather (fun e => r.values t <$> XPath.resolve (Tools.direct split).compiled t e k)
          r.xpaths).toOption.getD [] =
        r.xpaths.flatMap fun e => (pickedAt split t k e).flatMap fun x => r.values t [x] := by
    intro r hr
    obtain ⟨values, hvalues⟩ := hall r hr
    rw [hvalues, (gather_eq_ok hvalues).2]
    refine List.flatMap_congr fun e he => ?_
    obtain ⟨items, hitems⟩ := hresolves r hr e he
    rw [pickedAt_of_resolve hitems, hitems]
    exact r.values_eq_flatMap t items
  refine ⟨pickedAt split t k, ?_, List.flatMap_congr hgrouped⟩
  intro r hr e he
  obtain ⟨items, hitems⟩ := hresolves r hr e he
  exact picks_pickedAt hitems

/-! ### Blocks -/

/-- What a match adds to its block, if nothing fails. -/
def describedAt (split : Option Tokenizer) (t : Tree) (rules : List MetadataRule) (x : Item) :
    List Metadata :=
  match x.nodeNumber? with
  | some i => (metadataAt (Tools.direct split) t rules i).toOption.getD []
  | none => []

/-- The match that an item is, if nothing fails. -/
def matchAt (split : Option Tokenizer) (t : Tree) (rules : List MetadataRule) (x : Item) : Match :=
  ⟨Text.trim (x.text t) ++ "\n", describedAt split t rules x⟩

theorem match_of_matchOf {rules : List MetadataRule} {x : Item} {b : Match}
    (h : matchOf (Tools.direct split) t rules x = .ok b) :
    b = matchAt split t rules x ∧
      ∀ i, x.nodeNumber? = some i → Describes t rules i (describedAt split t rules x) := by
  unfold matchOf at h
  unfold matchAt describedAt
  split at h
  · next i hi =>
    obtain ⟨ms, hms, rfl⟩ := map_eq_ok h
    rw [hi]
    simp only [hms]
    refine ⟨rfl, ?_⟩
    rintro j ⟨⟩
    exact describes_of_metadataAt hms
  · next hnone =>
    rw [hnone]
    refine ⟨(Except.ok.inj h).symm, ?_⟩
    rintro j ⟨⟩

/-- The matches of one expression are the items that it picks. -/
theorem matches_of_items {rules : List MetadataRule} {items : List Item} {bs : List Match}
    (h : gather (fun x => (fun b => [b]) <$> matchOf (Tools.direct split) t rules x) items =
      .ok bs) :
    bs = items.map (matchAt split t rules) ∧
      ∀ x ∈ items, ∀ i, x.nodeNumber? = some i →
        Describes t rules i (describedAt split t rules x) := by
  obtain ⟨hall, rfl⟩ := gather_eq_ok h
  have hmatch : ∀ x ∈ items, ∃ b, matchOf (Tools.direct split) t rules x = .ok b := by
    intro x hx
    obtain ⟨_, hb⟩ := hall x hx
    obtain ⟨b, hb, -⟩ := map_eq_ok hb
    exact ⟨b, hb⟩
  constructor
  · rw [List.map_eq_flatMap]
    refine List.flatMap_congr fun x hx => ?_
    obtain ⟨b, hb⟩ := hmatch x hx
    rw [hb, ← (match_of_matchOf hb).1]
    rfl
  · intro x hx
    obtain ⟨b, hb⟩ := hmatch x hx
    exact (match_of_matchOf hb).2

/-- The matches at an element are the items that the expressions pick there, one after the other. -/
theorem matches_of_matchesAt {head : RuleHead} {ms : List Match}
    (h : matchesAt (Tools.direct split) t head k = .ok ms) :
    Block t head k (head.xpaths.flatMap (pickedAt split t k)) (ms.flatMap Match.metadata) ∧
      ms = (head.xpaths.flatMap (pickedAt split t k)).map (matchAt split t head.metadata) := by
  obtain ⟨hall, hms⟩ := gather_eq_ok h
  have hexpression : ∀ e ∈ head.xpaths, Picks t k e (pickedAt split t k e) ∧
      (do
        let items ← XPath.resolve (Tools.direct split).compiled t e k
        gather (fun x => (fun b => [b]) <$> matchOf (Tools.direct split) t head.metadata x)
          items).toOption.getD [] =
        (pickedAt split t k e).map (matchAt split t head.metadata) ∧
      ∀ x ∈ pickedAt split t k e, ∀ i, x.nodeNumber? = some i →
        Describes t head.metadata i (describedAt split t head.metadata x) := by
    intro e he
    obtain ⟨bs, hbs⟩ := hall e he
    obtain ⟨items, hitems, hbs'⟩ := bind_eq_ok hbs
    obtain ⟨hmatches, hdescribes⟩ := matches_of_items hbs'
    rw [hbs, pickedAt_of_resolve hitems]
    exact ⟨picks_of_resolve hitems, hmatches, hdescribes⟩
  have hmatches : ms =
      (head.xpaths.flatMap (pickedAt split t k)).map (matchAt split t head.metadata) := by
    rw [hms, List.map_flatMap]
    exact List.flatMap_congr fun e he => (hexpression e he).2.1
  rw [hmatches]
  refine ⟨⟨⟨pickedAt split t k, fun e he => (hexpression e he).1, rfl⟩,
    describedAt split t head.metadata, ?_, ?_, ?_⟩, rfl⟩
  · intro x hx
    obtain ⟨e, he, hx⟩ := List.mem_flatMap.mp hx
    exact (hexpression e he).2.2 x hx
  · intro x hx hnone
    rw [describedAt, hnone]
  · rw [List.flatMap_map]
    rfl

/-- The text of a block is that of its matches. -/
theorem blockText_eq {rules : List MetadataRule} {items : List Item} {ms : List Match}
    (h : ms = items.map (matchAt split t rules)) :
    blockText t items = String.join (ms.map Match.text) := by
  rw [h, List.map_map]
  rfl

theorem segments_of_passageAt {head : RuleHead} {b : Passage}
    (h : passageAt (Tools.direct split) t head k = .ok b) :
    Segments t split head k b.sentences := by
  obtain ⟨ms, hms, h⟩ := bind_eq_ok h
  obtain ⟨hblock, hmatches⟩ := matches_of_matchesAt hms
  have htext := blockText_eq hmatches
  unfold passageOf at h
  cases split with
  | none =>
    obtain rfl : _ = b := Except.ok.inj h
    rw [← htext]
    exact .mk hblock .whole
  | some cut =>
    simp only [Tools.direct, Option.map_some] at h
    split at h
    · next hempty =>
      -- Nothing matched, so nothing is cut.
      obtain rfl : ms = [] := List.isEmpty_iff.mp hempty
      obtain rfl : _ = b := Except.ok.inj h
      have hnone := List.map_eq_nil_iff.mp hmatches.symm
      rw [hnone] at hblock
      exact .mk hblock .nothing
    · next hsome =>
      obtain ⟨texts, htexts, rfl⟩ := map_eq_ok h
      refine .mk hblock (.cut ?_ ?_)
      · intro hnone
        rw [hnone] at hmatches
        exact hsome (List.isEmpty_iff.mpr hmatches)
      · rw [htext]
        exact mapError_eq_ok htexts

/-! ### Units that are built -/

/-- The unit that an element becomes, if nothing fails, given what each element holds. -/
def builtAt (split : Option Tokenizer) (t : Tree) (head : RuleHead)
    (held : Nat → Except ExtractionError (List (TextUnit Passage) × List Passage)) (i : Nat) :
    TextUnit Passage :=
  let metadata := (metadataAt (Tools.direct split) t head.metadata i).toOption.getD []
  let (units, passages) := (held i).toOption.getD ([], [])
  ⟨head.name, metadata, units, passages⟩

/-- The units that some elements become, given what each of them holds. -/
theorem built_of_elements {head : RuleHead}
    {held : Nat → Except ExtractionError (List (TextUnit Passage) × List Passage)}
    {elements : List Nat} {us : List (TextUnit Passage)}
    (h : gather (fun i => do
      let metadata ← metadataAt (Tools.direct split) t head.metadata i
      let (units, passages) ← held i
      return [(⟨head.name, metadata, units, passages⟩ : TextUnit Passage)]) elements = .ok us) :
    us = elements.map (builtAt split t head held) ∧
      ∀ i ∈ elements, Describes t head.metadata i (builtAt split t head held i).metadata ∧
        held i = .ok ((builtAt split t head held i).units,
          (builtAt split t head held i).sentences) := by
  obtain ⟨hall, rfl⟩ := gather_eq_ok h
  have hbuilt : ∀ i ∈ elements, ∃ metadata units passages,
      metadataAt (Tools.direct split) t head.metadata i = .ok metadata ∧
      held i = .ok (units, passages) ∧
      builtAt split t head held i = ⟨head.name, metadata, units, passages⟩ := by
    intro i hi
    obtain ⟨_, hunit⟩ := hall i hi
    obtain ⟨metadata, hmetadata, hunit⟩ := bind_eq_ok hunit
    obtain ⟨⟨units, passages⟩, hheld, -⟩ := bind_eq_ok hunit
    refine ⟨metadata, units, passages, hmetadata, hheld, ?_⟩
    rw [builtAt, hmetadata, hheld]
    rfl
  constructor
  · rw [List.map_eq_flatMap]
    refine List.flatMap_congr fun i hi => ?_
    obtain ⟨metadata, units, passages, hmetadata, hheld, hunit⟩ := hbuilt i hi
    rw [hmetadata, hheld, hunit]
    rfl
  · intro i hi
    obtain ⟨metadata, units, passages, hmetadata, hheld, hunit⟩ := hbuilt i hi
    rw [hunit]
    exact ⟨describes_of_metadataAt hmetadata, hheld⟩

/-- The elements that an expression selects under a node, if it compiles. -/
def selectedAt (split : Option Tokenizer) (t : Tree) (k : Nat) (e : String) : List Nat :=
  (elementsUnder (Tools.direct split) t k e).toOption.getD []

theorem selectedAt_of_elementsUnder {elements : List Nat}
    (h : elementsUnder (Tools.direct split) t k e = .ok elements) :
    selectedAt split t k e = elements := by
  rw [selectedAt, h]
  rfl

/-- The units of a rule, one for each expression and each element that this selects. -/
theorem built_of_unitsOver {head : RuleHead}
    {held : Nat → Except ExtractionError (List (TextUnit Passage) × List Passage)}
    {us : List (TextUnit Passage)} (h : unitsOver (Tools.direct split) t head held k = .ok us) :
    us = head.xpaths.flatMap
        (fun e => (selectedAt split t k e).map (builtAt split t head held)) ∧
      ∀ e ∈ head.xpaths, Selects t k e (selectedAt split t k e) ∧
        ∀ i ∈ selectedAt split t k e,
          Describes t head.metadata i (builtAt split t head held i).metadata ∧
          held i = .ok ((builtAt split t head held i).units,
            (builtAt split t head held i).sentences) := by
  obtain ⟨hall, hus⟩ := gather_eq_ok h
  constructor
  · rw [hus]
    refine List.flatMap_congr fun e he => ?_
    obtain ⟨us, hus⟩ := hall e he
    obtain ⟨elements, helements, hus'⟩ := bind_eq_ok hus
    rw [hus, selectedAt_of_elementsUnder helements, ← (built_of_elements hus').1]
    rfl
  · intro e he
    obtain ⟨us, hus⟩ := hall e he
    obtain ⟨elements, helements, hus'⟩ := bind_eq_ok hus
    rw [selectedAt_of_elementsUnder helements]
    exact ⟨selects_of_elementsUnder helements, (built_of_elements hus').2⟩

/-- The units that a rule yields under a node, if nothing fails. -/
def yieldedAt (split : Option Tokenizer) (t : Tree) (k : Nat) (rule : Rule) :
    List (TextUnit Passage) :=
  (unitsUnder (Tools.direct split) t rule k).toOption.getD []

/-- The sentences that a terminal rule makes at an element, if nothing fails. -/
def madeAt (split : Option Tokenizer) (t : Tree) (k : Nat) (rule : Rule) : List Sentence :=
  ((passageAt (Tools.direct split) t rule.head k).toOption.map Passage.sentences).getD []

/-- What the rules below a rule make at an element, rule by rule. -/
theorem made_of_heldAt {rules : List Rule} {units : List (TextUnit Passage)}
    {passages : List Passage} (h : heldAt (Tools.direct split) t rules k = .ok (units, passages)) :
    units = (rules.filter (!·.isTerminal)).flatMap (yieldedAt split t k) ∧
      passages.flatMap Passage.sentences =
        (rules.filter (·.isTerminal)).flatMap (madeAt split t k) ∧
      (∀ r ∈ rules, r.isTerminal = false →
        unitsUnder (Tools.direct split) t r k = .ok (yieldedAt split t k r)) ∧
      ∀ r ∈ rules, r.isTerminal = true → Segments t split r.head k (madeAt split t k r) := by
  induction rules generalizing units passages with
  | nil =>
    rw [heldAt] at h
    cases h
    exact ⟨rfl, rfl, List.forall_mem_nil _, List.forall_mem_nil _⟩
  | cons r rules ih =>
    cases r with
    | terminal head =>
      rw [heldAt] at h
      obtain ⟨passage, hpassage, h⟩ := bind_eq_ok h
      obtain ⟨⟨units, passages⟩, hheld, h⟩ := bind_eq_ok h
      cases h
      obtain ⟨hunits, hpassages, hyields, hsegments⟩ := ih hheld
      have hmade : madeAt split t k (.terminal head) = passage.sentences := by
        rw [madeAt, Rule.head, hpassage]
        rfl
      refine ⟨hunits, ?_, ?_, ?_⟩
      · rw [List.flatMap_cons, hpassages, ← hmade]
        rfl
      · refine List.forall_mem_cons.mpr ⟨fun hnested => ?_, hyields⟩
        cases hnested
      · refine List.forall_mem_cons.mpr ⟨fun _ => ?_, hsegments⟩
        rw [hmade]
        exact segments_of_passageAt hpassage
    | nested head inner =>
      rw [heldAt] at h
      obtain ⟨first, hfirst, h⟩ := bind_eq_ok h
      obtain ⟨⟨units, passages⟩, hheld, h⟩ := bind_eq_ok h
      cases h
      obtain ⟨hunits, hpassages, hyields, hsegments⟩ := ih hheld
      have hyielded : yieldedAt split t k (.nested head inner) = first := by
        rw [yieldedAt, hfirst]
        rfl
      refine ⟨?_, hpassages, ?_, ?_⟩
      · rw [hunits, ← hyielded]
        rfl
      · refine List.forall_mem_cons.mpr ⟨fun _ => ?_, hyields⟩
        rw [hyielded, hfirst]
      · refine List.forall_mem_cons.mpr ⟨fun hterminal => ?_, hsegments⟩
        cases hterminal

/-- A terminal rule has no rules below it. -/
theorem unitsUnder_eq (tools : Tools (Except ExtractionError)) (rule : Rule) :
    unitsUnder tools t rule k =
      unitsOver tools t rule.head (fun i => heldAt tools t rule.units i) k := by
  cases rule with
  | terminal head =>
    rw [unitsUnder]
    rfl
  | nested head rules => rw [unitsUnder, Rule.head, Rule.units]

end Extraction

/-! ### The units of a grammar -/

theorem TextUnit.spread_eq (u : TextUnit Passage) :
    u.spread =
      ⟨u.name, u.metadata, u.units.map spread, u.sentences.flatMap Passage.sentences⟩ := by
  obtain ⟨name, metadata, units, passages⟩ := u
  rw [spread, mapOwn, mapOwns_eq_map]
  rfl

section Units

variable {split : Option Tokenizer} {t : Tree}

/-- Where extraction ends, the units are those that the rule yields. -/
theorem yields_of_unitsUnder (rule : Rule) : ∀ {k : Nat} {us : List (TextUnit Passage)},
    unitsUnder (Tools.direct split) t rule k = .ok us →
    Rule.Yields t split rule k (us.map TextUnit.spread) := by
  induction rule using Rule.induct with
  | h rule ih =>
    intro k us hrun
    rw [unitsUnder_eq] at hrun
    obtain ⟨rfl, hselected⟩ := built_of_unitsOver hrun
    simp only [List.map_flatMap, List.map_map]
    refine .mk (selectedAt split t k) _ (fun e he => (hselected e he).1) ?_
    intro e he i hi
    obtain ⟨hdescribes, hheld⟩ := (hselected e he).2 i hi
    obtain ⟨hunits, hmade, hyields, hsegments⟩ := made_of_heldAt hheld
    rw [Function.comp_apply, TextUnit.spread_eq, hunits, hmade, List.map_flatMap]
    exact .mk _ _ hdescribes (fun r hr hnested => ih r hr (hyields r hr hnested)) hsegments

end Units

/-! ### Documents -/

/-- The documents are those that the grammar stands for. -/
structure Extractor.Meaning (x : Extractor) (t : Tree) (ds : List Document) : Prop where
  /-- The units of the root rule are the documents, and the grammar yields no others. -/
  documents : ∃ us, ds = us.map Document.ofUnit ∧
    ∀ vs, Rule.Yields t x.split x.grammar Tree.rootNumber vs ↔ vs = us
  /-- The root rule makes the documents themselves. -/
  tops : ∀ d ∈ ds, x.grammar.Shapes d.body
  /-- A rule that is not terminal makes each unit below a document. -/
  inner : ∀ d ∈ ds, ∀ v, d.body.Above v →
    ∃ r, x.grammar.Above r ∧ r.isTerminal = false ∧ r.Shapes v
  /-- Terminal rules are told by their names, so no unit below a document has such a name. -/
  names : ∀ text, Rule.read text = .ok x.grammar → ∀ d ∈ ds, ∀ v, d.body.Above v →
    ¬ "sentence".toList <:+: v.name.toList

namespace Extractor

variable {x : Extractor} {xml : String} {ds : List Document}

/-- Where extraction ends, its documents are those that the grammar stands for. -/
theorem meaning_of_extract (hrun : x.extract xml = .ok ds) :
    ∃ t, Xml.read? xml = some t ∧ x.Meaning t ds := by
  unfold extract at hrun
  split at hrun
  · cases hrun
  · next t hread =>
    obtain ⟨us, hus, rfl⟩ := map_eq_ok (show _ <$> x.unitsOf t = _ from hrun)
    have hyields := yields_of_unitsUnder x.grammar hus
    have hbuilt : ∀ d ∈ us.map fun u => Document.ofUnit u.spread,
        ∃ i, Rule.Builds t x.split x.grammar i d.body := by
      intro d hd
      obtain ⟨u, hu, rfl⟩ := List.mem_map.mp hd
      exact hyields.built (List.mem_map_of_mem hu)
    have hinner : ∀ d ∈ us.map fun u => Document.ofUnit u.spread, ∀ v, d.body.Above v →
        ∃ r, x.grammar.Above r ∧ r.isTerminal = false ∧ r.Shapes v := by
      intro d hd v hv
      obtain ⟨i, hbody⟩ := hbuilt d hd
      obtain ⟨r, hr, hnested, j, hbuilt⟩ := hbody.inner_above hv
      exact ⟨r, hr, hnested, hbuilt.shapes⟩
    refine ⟨t, hread, ⟨us.map TextUnit.spread, ?_, ?_⟩, ?_, hinner, ?_⟩
    · rw [List.map_map]
      rfl
    · intro vs
      refine ⟨fun h => h.unique _ hyields, ?_⟩
      rintro rfl
      exact hyields
    · intro d hd
      obtain ⟨i, hbody⟩ := hbuilt d hd
      exact hbody.shapes
    · intro text hgrammar d hd v hv hname
      obtain ⟨r, hr, hnested, hshapes⟩ := hinner d hd v hv
      rw [hshapes.name, ← Rule.isTerminal_of_read hgrammar hr, hnested] at hname
      cases hname

/-! A block with two matches has the metadata of the one before those of the other, each by the
rules in their order. -/

/-- A rule for the attribute `a` of a node. -/
def ruleA : MetadataRule := ⟨[""], some "a", "A"⟩

/-- A rule for the attribute `b` of a node. -/
def ruleB : MetadataRule := ⟨[""], some "b", "B"⟩

/-- An extractor that leaves texts whole and describes the elements `s` by both attributes. -/
def marked : Extractor :=
  ⟨.nested ⟨"doc", ["//doc"], []⟩ [.terminal ⟨"sentence", ["s"], [ruleA, ruleB]⟩],
    Tokenizer.punctuation, false⟩

/-- A text with two such elements. -/
def twoMarks : String := "<doc><s a=\"1\" b=\"2\">x</s><s a=\"3\" b=\"4\">y</s></doc>"

/-- The sentence that the two elements make. -/
def twoMarksSentence : Sentence :=
  ⟨"x\ny\n", [⟨"1", "A", ruleA⟩, ⟨"2", "B", ruleB⟩, ⟨"3", "A", ruleA⟩, ⟨"4", "B", ruleB⟩]⟩

theorem extract_twoMarks :
    ∃ d, marked.extract twoMarks = .ok [d] ∧ d.body.sentences = [twoMarksSentence] := by
  have hsentences : ((marked.extract twoMarks).toOption.map fun ds =>
      ds.map fun d => d.body.sentences) = some [[twoMarksSentence]] := by
    decide +kernel
  cases hrun : marked.extract twoMarks with
  | error fault =>
    rw [hrun] at hsentences
    cases hsentences
  | ok ds =>
    rw [hrun] at hsentences
    obtain ⟨d, rfl, hd⟩ := List.map_eq_singleton_iff.mp (Option.some.inj hsentences)
    exact ⟨d, rfl, hd⟩

/-- The document of the two elements is the one that the grammar stands for. -/
theorem meaning_twoMarks : ∃ d, marked.extract twoMarks = .ok [d] ∧
    ∃ t, Xml.read? twoMarks = some t ∧ marked.Meaning t [d] := by
  obtain ⟨d, hrun, -⟩ := extract_twoMarks
  exact ⟨d, hrun, meaning_of_extract hrun⟩

/-- The metadata of a sentence need not stand in the order of the rules: what the second match adds
comes after all that the first adds. -/
theorem not_inRuleOrder_twoMarks : ∃ ds, marked.extract twoMarks = .ok ds ∧
    ∃ d ∈ ds, ∃ s ∈ d.body.sentences,
      ∀ r ∈ marked.grammar.units, ¬ InRuleOrder r.head.metadata s.metadata := by
  obtain ⟨d, hrun, hsentences⟩ := extract_twoMarks
  have hmem : twoMarksSentence ∈ d.body.sentences := by
    rw [hsentences]
    exact List.mem_singleton_self _
  refine ⟨[d], hrun, d, List.mem_singleton_self d, twoMarksSentence, hmem, ?_⟩
  intro r hr
  obtain rfl : r = .terminal _ := List.mem_singleton.mp hr
  rintro ⟨first, _, heq, hfirst, second, _, rfl, hsecond, rfl⟩
  have hne : ruleA ≠ ruleB := by decide
  -- The second entry is not of the first rule, so the third, which is, would be of the second.
  rcases first with - | ⟨m, - | ⟨m', first⟩⟩
  · obtain rfl : twoMarksSentence.metadata = second := by simpa using heq
    exact hne (hsecond ⟨"3", "A", ruleA⟩ (by decide))
  · obtain ⟨-, rfl⟩ : _ = m ∧ _ = second := by simpa [twoMarksSentence] using heq
    exact hne (hsecond ⟨"3", "A", ruleA⟩ (by decide))
  · obtain ⟨-, rfl, -⟩ : _ = m ∧ _ = m' ∧ _ = first ++ second := by
      simpa [twoMarksSentence] using heq
    exact hne (hfirst ⟨"2", "B", ruleB⟩ (by simp)).symm

end Extractor

end XmlHarvest

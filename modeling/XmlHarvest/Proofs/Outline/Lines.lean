/-
How many lines a drawing has.

Every document, every unit in it and every sentence is drawn by one entry of `documentLines`.  What
a grammar calls its units stands in one line if it does in the grammar, and a sentence is shown in
one line whatever it says.  The values of metadata are shown as they are, though, and a line feed in
one of them goes on in a new line.  Main statement: the lines of a drawing are as many as its nodes
and the line feeds in those values together (`lines_of_extract`).
-/
import XmlHarvest.Proofs.Harvest.Meaning
import XmlHarvest.Proofs.Outline.Shape

namespace XmlHarvest

open Relation

/-! ### What is drawn -/

mutual

/-- The units in a unit, at whatever depth, each followed by those in it. -/
def TextUnit.inner : TextUnit Sentence → List (TextUnit Sentence)
  | ⟨_, _, units, _⟩ => TextUnit.innerOf units

def TextUnit.innerOf : List (TextUnit Sentence) → List (TextUnit Sentence)
  | [] => []
  | u :: us => u :: (u.inner ++ TextUnit.innerOf us)

end

mutual

theorem TextUnit.above_of_mem_inner : ∀ {u v : TextUnit Sentence}, v ∈ u.inner → u.Above v
  | ⟨_, _, units, _⟩, v, h => by
    have hmem : v ∈ TextUnit.innerOf units := h
    obtain ⟨w, hw, rfl | hwv⟩ := TextUnit.above_of_mem_innerOf hmem
    · exact .single hw
    · exact .head hw hwv

theorem TextUnit.above_of_mem_innerOf : ∀ {us : List (TextUnit Sentence)} {v : TextUnit Sentence},
    v ∈ TextUnit.innerOf us → ∃ w ∈ us, v = w ∨ w.Above v
  | [], _, h => nomatch h
  | u :: us, v, h => by
    rw [TextUnit.innerOf, List.mem_cons, List.mem_append] at h
    obtain rfl | h | h := h
    · exact ⟨v, List.mem_cons_self, .inl rfl⟩
    · exact ⟨u, List.mem_cons_self, .inr (TextUnit.above_of_mem_inner h)⟩
    · obtain ⟨w, hw, hwv⟩ := TextUnit.above_of_mem_innerOf h
      exact ⟨w, List.mem_cons_of_mem u hw, hwv⟩

end

namespace Outline

/-- The values of the metadata of some units. -/
def valuesOf (us : List (TextUnit Sentence)) : List String :=
  us.flatMap fun u => u.metadata.map Metadata.value

/-- The units of some documents: the one that is the document, and those in it. -/
def unitsIn (ds : List Document) : List (TextUnit Sentence) :=
  ds.flatMap fun d => d.body :: d.body.inner

/-- The sentences of some documents. -/
def sentencesIn (ds : List Document) : List Sentence := ds.flatMap fun d => d.body.leaves

/-! ### Line feeds -/

/-- The number of line feeds in a text. -/
def feeds (s : String) : Nat := s.toList.count '\n'

@[simp] theorem feeds_empty : feeds "" = 0 := rfl

@[simp] theorem feeds_append (s t : String) : feeds (s ++ t) = feeds s + feeds t := by
  simp [feeds]

theorem feeds_eq_zero_iff {s : String} : feeds s = 0 ↔ '\n' ∉ s.toList := List.count_eq_zero

theorem feeds_join_eq_zero_iff {ss : List String} :
    feeds (String.join ss) = 0 ↔ ∀ s ∈ ss, '\n' ∉ s.toList := by
  induction ss with
  | nil => simp
  | cons s ss ih =>
    rw [String.join_cons, feeds_append, Nat.add_eq_zero_iff, ih, feeds_eq_zero_iff,
      List.forall_mem_cons]

/-- Texts that are joined by a separator without line feeds have their own and no more. -/
theorem feeds_intercalate {sep : String} (hsep : feeds sep = 0) (ss : List String) :
    feeds (sep.intercalate ss) = feeds (String.join ss) := by
  induction ss with
  | nil => simp
  | cons s ss ih =>
    by_cases hnil : ss = []
    · simp [hnil]
    · rw [String.intercalate_cons_of_ne_nil hnil, feeds_append, feeds_append, hsep, ih,
        String.join_cons, feeds_append, Nat.add_zero]

/-- With a line feed behind each of some texts there is one more for each. -/
theorem feeds_join_lines (ls : List String) :
    feeds (String.join (ls.map (· ++ "\n"))) = ls.length + feeds (String.join ls) := by
  have hfeed : feeds "\n" = 1 := rfl
  induction ls with
  | nil => simp
  | cons l ls ih =>
    rw [List.map_cons, String.join_cons, feeds_append, feeds_append, hfeed, ih, String.join_cons,
      feeds_append, List.length_cons]
    omega

/-! ### Lines of units -/

/-- Neither the name of the unit nor the names of its metadata go on in another line. -/
structure NamedInLine (u : TextUnit Sentence) : Prop where
  name : '\n' ∉ u.name.toList
  properties : ∀ m ∈ u.metadata, '\n' ∉ m.propertyName.toList

/-- In brackets the line feeds are those of the values. -/
theorem feeds_labels {ms : List Metadata} (h : ∀ m ∈ ms, '\n' ∉ m.propertyName.toList) :
    feeds (labels ms) = feeds (String.join (ms.map Metadata.value)) := by
  have hpairs : feeds (String.join (ms.map fun m => m.propertyName ++ "=" ++ m.value)) =
      feeds (String.join (ms.map Metadata.value)) := by
    have hequals : feeds "=" = 0 := rfl
    induction ms with
    | nil => rfl
    | cons m ms ih =>
      obtain ⟨hm, hms⟩ := List.forall_mem_cons.mp h
      simp only [List.map_cons, String.join_cons, feeds_append, hequals, feeds_eq_zero_iff.mpr hm,
        ih hms, Nat.zero_add]
  have hcomma : feeds ", " = 0 := rfl
  have hopen : feeds " [" = 0 := rfl
  have hclose : feeds "]" = 0 := rfl
  unfold labels
  split
  · next hempty => simp [List.isEmpty_iff.mp hempty]
  · rw [feeds_append, feeds_append, feeds_intercalate hcomma, hpairs, hopen, hclose, Nat.zero_add,
      Nat.add_zero]

theorem feeds_heading {u : TextUnit Sentence} (h : NamedInLine u) :
    feeds u.name + feeds (labels u.metadata) = feeds (String.join (valuesOf [u])) := by
  rw [feeds_eq_zero_iff.mpr h.name, feeds_labels h.properties, Nat.zero_add]
  simp [valuesOf]

theorem feeds_branch (last : Bool) : feeds (branch last) = 0 :=
  feeds_eq_zero_iff.mpr (feed_not_mem_branch last)

theorem feeds_continuation (last : Bool) : feeds (continuation last) = 0 :=
  feeds_eq_zero_iff.mpr (feed_not_mem_continuation last)

theorem length_sentenceLines (indent : String) (last : Bool) (ss : List Sentence) :
    (sentenceLines indent last ss).length = ss.length := by
  induction ss with
  | nil => rfl
  | cons s ss ih =>
    cases ss with
    | nil => rfl
    | cons s' ss => rw [sentenceLines, List.length_cons, ih, List.length_cons (a := s)]

/-- Sentences have one line each, whatever they say. -/
theorem feeds_sentenceLines {indent : String} (hindent : feeds indent = 0) (last : Bool)
    (ss : List Sentence) : feeds (String.join (sentenceLines indent last ss)) = 0 := by
  have hline (last : Bool) (s : Sentence) :
      feeds (indent ++ branch last ++ "¶ " ++ shorten s.text) = 0 := by
    have hmark : feeds "¶ " = 0 := rfl
    simp only [feeds_append, hindent, feeds_branch, hmark,
      feeds_eq_zero_iff.mpr (feed_not_mem_shorten s.text)]
  induction ss with
  | nil => rfl
  | cons s ss ih =>
    cases ss with
    | nil => rw [sentenceLines, String.join_cons, feeds_append, hline]; rfl
    | cons s' ss => rw [sentenceLines, String.join_cons, feeds_append, hline, ih]

mutual

/-- Below the line of a unit there is one entry for each unit in it and each sentence. -/
theorem length_below (indent : String) : ∀ u : TextUnit Sentence,
    (below indent u).length = u.inner.length + u.leaves.length
  | ⟨_, _, units, sentences⟩ => by
    rw [below, List.length_append, length_sentenceLines, length_unitLines, TextUnit.inner,
      TextUnit.leaves, List.length_append]
    omega

theorem length_unitLines (indent : String) : ∀ us : List (TextUnit Sentence),
    (unitLines indent us).length =
      (TextUnit.innerOf us).length + (TextUnit.leavesOf us).length
  | [] => rfl
  | u :: us => by
    rw [unitLines, List.length_cons, List.length_append, length_below, length_unitLines indent us,
      TextUnit.innerOf, TextUnit.leavesOf, List.length_cons, List.length_append,
      List.length_append]
    omega

end

mutual

/-- In the lines below that of a unit the line feeds are those of the values in it. -/
theorem feeds_below : ∀ (u : TextUnit Sentence) {indent : String}, feeds indent = 0 →
    (∀ v ∈ u.inner, NamedInLine v) →
      feeds (String.join (below indent u)) = feeds (String.join (valuesOf u.inner))
  | ⟨_, _, units, sentences⟩, indent, hindent, h => by
    rw [below, String.join_append, feeds_append, feeds_sentenceLines hindent,
      feeds_unitLines units hindent h, Nat.zero_add, TextUnit.inner]

theorem feeds_unitLines : ∀ (us : List (TextUnit Sentence)) {indent : String}, feeds indent = 0 →
    (∀ v ∈ TextUnit.innerOf us, NamedInLine v) →
      feeds (String.join (unitLines indent us)) =
        feeds (String.join (valuesOf (TextUnit.innerOf us)))
  | [], _, _, _ => rfl
  | u :: us, indent, hindent, h => by
    rw [TextUnit.innerOf] at h
    obtain ⟨hu, hinner⟩ := List.forall_mem_cons.mp h
    obtain ⟨hbelow, hus⟩ := List.forall_mem_append.mp hinner
    have hdeeper : feeds (indent ++ continuation us.isEmpty) = 0 := by
      rw [feeds_append, hindent, feeds_continuation]
    have hvalues : valuesOf (TextUnit.innerOf (u :: us)) =
        valuesOf [u] ++ (valuesOf u.inner ++ valuesOf (TextUnit.innerOf us)) := by
      simp [TextUnit.innerOf, valuesOf]
    have hbranch : feeds (branch us.isEmpty) = 0 := feeds_branch _
    have hheading := feeds_heading hu
    have hlater := feeds_below u hdeeper hbelow
    have hothers := feeds_unitLines us hindent hus
    simp only [unitLines, hvalues, String.join_cons, String.join_append, feeds_append]
    omega

end

/-! ### Lines of documents -/

/-- There is one entry for each document, each unit in it and each sentence. -/
theorem length_flatMap_documentLines (ds : List Document) :
    (ds.flatMap documentLines).length = (unitsIn ds).length + (sentencesIn ds).length := by
  induction ds with
  | nil => rfl
  | cons d ds ih =>
    simp only [unitsIn, sentencesIn] at ih
    simp only [unitsIn, sentencesIn, List.flatMap_cons, List.length_append, List.length_cons, ih,
      documentLines, length_below]
    omega

/-- Neither the title of the document nor what its units are called goes on in another line. -/
structure TitledInLine (d : Document) : Prop where
  title : d.title = d.body.name
  body : NamedInLine d.body
  inner : ∀ v ∈ d.body.inner, NamedInLine v

/-- The line feeds in the entries of documents are those of the values. -/
theorem feeds_flatMap_documentLines {ds : List Document} (h : ∀ d ∈ ds, TitledInLine d) :
    feeds (String.join (ds.flatMap documentLines)) =
      feeds (String.join (valuesOf (unitsIn ds))) := by
  induction ds with
  | nil => rfl
  | cons d ds ih =>
    obtain ⟨hd, hds⟩ := List.forall_mem_cons.mp h
    have hvalues : valuesOf (unitsIn (d :: ds)) =
        valuesOf [d.body] ++ (valuesOf d.body.inner ++ valuesOf (unitsIn ds)) := by
      simp [unitsIn, valuesOf]
    have hheading := feeds_heading hd.body
    have hlater := feeds_below d.body feeds_empty hd.inner
    have hothers := ih hds
    simp only [List.flatMap_cons, documentLines, hd.title, hvalues, List.cons_append,
      String.join_cons, String.join_append, feeds_append]
    omega

theorem feeds_render {ds : List Document} (h : ∀ d ∈ ds, TitledInLine d) :
    feeds (render ds) = (unitsIn ds).length + (sentencesIn ds).length +
      feeds (String.join (valuesOf (unitsIn ds))) := by
  rw [render, feeds_join_lines, length_flatMap_documentLines, feeds_flatMap_documentLines h]

/-- A list is cut at a separator as often as it stands there. -/
theorem length_splitOn (c : Char) (cs : List Char) :
    (cs.splitOn c).length = cs.count c + 1 := by
  induction cs with
  | nil => rfl
  | cons d cs ih =>
    unfold List.splitOn at ih ⊢
    rw [List.splitOnP_cons_eq_if_modifyHead, List.count_cons]
    split
    · rw [List.length_cons, ih]
    · rw [List.length_modifyHead, ih, Nat.add_zero]

/-- The lines of the text are the entries, one for each node, exactly if no value has a line
feed. -/
theorem splitOn_render_iff {ds : List Document} (h : ∀ d ∈ ds, TitledInLine d) :
    (render ds).toList.splitOn '\n' = (ds.flatMap documentLines).map String.toList ++ [[]] ↔
      ∀ v ∈ valuesOf (unitsIn ds), '\n' ∉ v.toList := by
  have hfeeds := feeds_flatMap_documentLines h
  constructor
  · intro hsplit
    have hlength := congrArg List.length hsplit
    rw [length_splitOn, List.length_append, List.length_map] at hlength
    have hnone : feeds (String.join (ds.flatMap documentLines)) = 0 := by
      have hrender : feeds (render ds) = _ := feeds_join_lines (ds.flatMap documentLines)
      have hcount : feeds (render ds) + 1 = (ds.flatMap documentLines).length + 1 := hlength
      omega
    rw [hfeeds] at hnone
    exact feeds_join_eq_zero_iff.mp hnone
  · intro hvalues
    rw [← feeds_join_eq_zero_iff, ← hfeeds, feeds_join_eq_zero_iff] at hvalues
    exact splitOn_join hvalues

end Outline

/-! ### Documents that were extracted -/

/-- Neither the name of the rule nor the names of its metadata go on in another line. -/
structure RuleHead.InLine (head : RuleHead) : Prop where
  name : '\n' ∉ head.name.toList
  properties : ∀ r ∈ head.metadata, '\n' ∉ r.propertyName.toList

/-- So it is for the rule and for all rules below it. -/
def Rule.InLine (rule : Rule) : Prop :=
  ∀ r, ReflTransGen (fun r s => s ∈ r.units) rule r → r.head.InLine

theorem Rule.inLine_iff {rule : Rule} :
    rule.InLine ↔ rule.head.InLine ∧ ∀ r ∈ rule.units, r.InLine := by
  constructor
  · exact fun h => ⟨h rule .refl, fun r hr s hs => h s (.head hr hs)⟩
  · rintro ⟨hhead, hunits⟩ s hs
    obtain rfl | ⟨r, hr, hs⟩ := hs.cases_head
    · exact hhead
    · exact hunits r hr s hs

namespace Outline

theorem namedInLine_of_shapes {rule : Rule} {u : TextUnit Sentence} (h : rule.Shapes u)
    (hhead : rule.head.InLine) : NamedInLine u where
  name := h.name ▸ hhead.name
  properties m hm := by
    have hfrom := h.metadata m hm
    rw [hfrom.propertyName]
    exact hhead.properties _ hfrom.specification

/-- What a grammar calls the units of its documents stands in one line if it does in the grammar. -/
theorem titledInLine_of_extract {x : Extractor} {text : String} {ds : List Document}
    (hnames : x.grammar.InLine) (hrun : x.extract text = .ok ds) : ∀ d ∈ ds, TitledInLine d := by
  unfold Extractor.extract at hrun
  split at hrun
  · cases hrun
  · next t hread =>
    obtain ⟨us, hus, rfl⟩ := map_eq_ok (show _ <$> x.unitsOf t = _ from hrun)
    intro d hd
    obtain ⟨u, hu, rfl⟩ := List.mem_map.mp hd
    obtain ⟨i, hbuilt⟩ := (yields_of_unitsUnder x.grammar hus).built (List.mem_map_of_mem hu)
    refine ⟨rfl, namedInLine_of_shapes hbuilt.shapes (hnames _ .refl), fun v hv => ?_⟩
    obtain ⟨r, hr, -, j, hinner⟩ := hbuilt.inner_above (TextUnit.above_of_mem_inner hv)
    exact namedInLine_of_shapes hinner.shapes (hnames r hr.to_reflTransGen)

/-- In a drawing of extracted documents there is one entry for each document, each unit in it and
each sentence.  The line feeds of the text are one for each of them and those in the values of the
metadata of documents and units, so exactly if there are none of these the lines of the text are the
entries.  What the sentences say and their metadata play no part. -/
theorem lines_of_extract {x : Extractor} {text : String} {ds : List Document}
    (hnames : x.grammar.InLine) (hrun : x.extract text = .ok ds) :
    (ds.flatMap documentLines).length = (unitsIn ds).length + (sentencesIn ds).length ∧
      feeds (render ds) = (unitsIn ds).length + (sentencesIn ds).length +
        feeds (String.join (valuesOf (unitsIn ds))) ∧
      ((render ds).toList.splitOn '\n' = (ds.flatMap documentLines).map String.toList ++ [[]] ↔
        ∀ v ∈ valuesOf (unitsIn ds), '\n' ∉ v.toList) := by
  have htitled := titledInLine_of_extract hnames hrun
  exact ⟨length_flatMap_documentLines ds, feeds_render htitled, splitOn_render_iff htitled⟩

/-- A title and a number that go on in another line: three nodes take five lines, though the
sentence takes one. -/
theorem lines_of_extract_broken :
    let titles : MetadataRule := ⟨["title"], none, "title"⟩
    let numbers : MetadataRule := ⟨[""], some "n", "n"⟩
    let x : Extractor := ⟨.nested ⟨"story", ["//story"], [titles]⟩
      [.nested ⟨"part", ["p"], [numbers]⟩ [.terminal ⟨"sentence", ["s"], []⟩]], .punctuation, true⟩
    let text := "<story><title>The\nRaven</title><p n='1&#10;2'><s>Once\nupon</s></p></story>"
    x.grammar.InLine ∧ ∃ ds, x.extract text = .ok ds ∧
      render ds = "story [title=The\nRaven]\n└── part [n=1\n2]\n    └── ¶ Once upon\n" ∧
      (unitsIn ds).length + (sentencesIn ds).length = 3 ∧ feeds (render ds) = 5 ∧
      ¬ (render ds).toList.splitOn '\n' =
        (ds.flatMap documentLines).map String.toList ++ [[]] := by
  intro titles numbers x text
  have hstory : RuleHead.InLine ⟨"story", ["//story"], [titles]⟩ :=
    ⟨by decide +kernel, by decide +kernel⟩
  have hpart : RuleHead.InLine ⟨"part", ["p"], [numbers]⟩ := ⟨by decide +kernel, by decide +kernel⟩
  have hsentence : RuleHead.InLine ⟨"sentence", ["s"], []⟩ :=
    ⟨by decide +kernel, List.forall_mem_nil _⟩
  have hnames : x.grammar.InLine :=
    Rule.inLine_iff.mpr ⟨hstory, List.forall_mem_singleton.mpr <|
      Rule.inLine_iff.mpr ⟨hpart, List.forall_mem_singleton.mpr <|
        Rule.inLine_iff.mpr ⟨hsentence, List.forall_mem_nil _⟩⟩⟩
  have hshown : (fun ds =>
      (render ds, (unitsIn ds).length + (sentencesIn ds).length, valuesOf (unitsIn ds))) <$>
        x.extract text =
      .ok ("story [title=The\nRaven]\n└── part [n=1\n2]\n    └── ¶ Once upon\n", 3,
        ["The\nRaven", "1\n2"]) := by
    decide +kernel
  obtain ⟨ds, hrun, hds⟩ := map_eq_ok hshown
  obtain ⟨hrender, hcounts⟩ := Prod.mk.inj hds
  obtain ⟨hnodes, hvalues⟩ := Prod.mk.inj hcounts
  obtain ⟨-, hfeeds, hlines⟩ := lines_of_extract hnames hrun
  refine ⟨hnames, ds, hrun, hrender, hnodes, ?_, fun hsplit => ?_⟩
  · rw [hfeeds, hnodes, hvalues]
    rfl
  · have hclear := hlines.mp hsplit "1\n2"
    rw [hvalues] at hclear
    exact hclear (by decide) (by decide)

end Outline

end XmlHarvest

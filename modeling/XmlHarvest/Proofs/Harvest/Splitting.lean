/-
Cutting texts into sentences keeps the words.

An extractor that cuts by punctuation and one that leaves each block whole make the same tree of
units or stop at the same error: the one extraction is the other with every passage cut
(`unitsUnder_cutting`), however expressions are compiled.  Rule by rule and unit by unit the words of
the sentences are in both the words of what the rule matched (`Rule.YieldsPair`).  Main statement:
`Extractor.splitting_keepsWords`.
-/
import XmlHarvest.Proofs.Document.Sharing
import XmlHarvest.Proofs.Harvest.Meaning
import XmlHarvest.Proofs.Text.Sentences

namespace XmlHarvest

open Xml (Item Tree)

/-! ### Passages that are cut -/

/-- The passage with its texts cut by punctuation. -/
def Passage.cut (b : Passage) : Passage := ⟨b.metadata, b.texts.flatMap Text.sentences⟩

/-- The unit with all passages in it cut by punctuation. -/
def TextUnit.cut (u : TextUnit Passage) : TextUnit Passage := u.mapOwn (·.map Passage.cut)

theorem TextUnit.cut_mk (name : String) (metadata : List Metadata) (units : List (TextUnit Passage))
    (passages : List Passage) :
    (⟨name, metadata, units, passages⟩ : TextUnit Passage).cut =
      ⟨name, metadata, units.map cut, passages.map Passage.cut⟩ := by
  rw [cut, mapOwn, mapOwns_eq_map]
  rfl

section Cutting

variable {m : Type → Type} [Monad m] {compiled : String → m XPath.Expression} {t : Tree} {k : Nat}

/-- Tools that cut by punctuation. -/
def Tools.cutting (compiled : String → m XPath.Expression) : Tools m :=
  ⟨compiled, some fun text => pure (Text.sentences text)⟩

/-- Tools that leave each block whole. -/
def Tools.keeping (compiled : String → m XPath.Expression) : Tools m := ⟨compiled, none⟩

variable [LawfulMonad m]

/-- What is done to each item of the gathered lists can be done to all that is gathered. -/
theorem gather_map {α β γ : Type} {f : α → m (List β)} {f' : α → m (List γ)} {g : β → γ}
    (h : ∀ x, f' x = List.map g <$> f x) (xs : List α) :
    gather f' xs = List.map g <$> gather f xs := by
  induction xs with
  | nil => simp [gather]
  | cons x xs ih => simp [gather, h, ih]

/-- Where nothing matched there is nothing to be cut, so the block is cut in any case. -/
theorem passageOf_cutting (ms : List Match) :
    passageOf (Tools.cutting compiled) ms =
      Passage.cut <$> passageOf (Tools.keeping compiled) ms := by
  have hnone : Text.sentences "" = [] := by decide
  cases ms <;> simp [passageOf, Tools.cutting, Tools.keeping, Passage.cut, hnone]

theorem passageAt_cutting (head : RuleHead) :
    passageAt (Tools.cutting compiled) t head k =
      Passage.cut <$> passageAt (Tools.keeping compiled) t head k := by
  rw [passageAt, passageAt, map_bind]
  exact congrArg _ (funext passageOf_cutting)

/-- What a unit holds, with all passages cut. -/
def cutHeld (held : List (TextUnit Passage) × List Passage) :
    List (TextUnit Passage) × List Passage :=
  (held.1.map TextUnit.cut, held.2.map Passage.cut)

theorem unitsOver_cutting {head : RuleHead}
    {held held' : Nat → m (List (TextUnit Passage) × List Passage)}
    (h : ∀ i, held' i = cutHeld <$> held i) :
    unitsOver (Tools.cutting compiled) t head held' k =
      List.map TextUnit.cut <$> unitsOver (Tools.keeping compiled) t head held k := by
  refine gather_map (fun e => ?_) head.xpaths
  rw [map_bind]
  refine congrArg _ (funext fun elements => gather_map (fun i => ?_) elements)
  rw [map_bind]
  refine congrArg _ (funext fun metadata => ?_)
  simp [h, cutHeld, TextUnit.cut_mk]

mutual

/-- Extraction that cuts by punctuation makes the units of extraction that leaves blocks whole, with
their passages cut. -/
theorem unitsUnder_cutting : ∀ (rule : Rule) (k : Nat),
    unitsUnder (Tools.cutting compiled) t rule k =
      List.map TextUnit.cut <$> unitsUnder (Tools.keeping compiled) t rule k
  | .terminal head, k => by
    rw [unitsUnder, unitsUnder]
    exact unitsOver_cutting fun i => by simp [cutHeld]
  | .nested head rules, k => by
    rw [unitsUnder, unitsUnder]
    exact unitsOver_cutting fun i => heldAt_cutting rules i

theorem heldAt_cutting : ∀ (rules : List Rule) (k : Nat),
    heldAt (Tools.cutting compiled) t rules k =
      cutHeld <$> heldAt (Tools.keeping compiled) t rules k
  | [], k => by simp [heldAt, cutHeld]
  | .terminal head :: rules, k => by
    simp [heldAt, passageAt_cutting, heldAt_cutting rules k, cutHeld]
  | .nested head inner :: rules, k => by
    simp [heldAt, unitsUnder_cutting (.nested head inner) k, heldAt_cutting rules k, cutHeld]

end

end Cutting

/-! ### Sentences of the two extractions -/

/-- The words of a sentence. -/
def Sentence.words (s : Sentence) : List (List Char) := Text.words s.text.toList

/-- The words of an item. -/
def itemWords (t : Tree) (x : Item) : List (List Char) := Text.words (x.text t).toList

/-- What a terminal rule makes at an element when it is cut and when it is left whole: sentences of
the same words, which are those of the matches in their order, and with the same metadata. -/
inductive SegmentsPair (t : Tree) (head : RuleHead) (k : Nat) :
    List Sentence → List Sentence → Prop
  | mk {matched : List Item} {metadata : List Metadata} {cut : List Sentence} {whole : Sentence}
      (block : Block t head k matched metadata)
      (cutWords : cut.flatMap Sentence.words = matched.flatMap (itemWords t))
      (wholeWords : whole.words = matched.flatMap (itemWords t))
      (wholeMetadata : whole.metadata = metadata)
      (shared : ∀ s ∈ cut, s.metadata = whole.metadata) : SegmentsPair t head k cut [whole]

/-- The words of a block are those of its matches. -/
theorem words_blockText (t : Tree) (matched : List Item) :
    Text.words (blockText t matched).toList = matched.flatMap (itemWords t) := by
  induction matched with
  | nil => rfl
  | cons x matched ih =>
    have htext : (blockText t (x :: matched)).toList =
        Text.trimChars (x.text t).toList ++ '\n' :: (blockText t matched).toList := by
      simp [blockText, String.join_cons, Text.trim]
    rw [htext, Text.words_append_cons (by decide), Text.words_trimChars, ih, List.flatMap_cons]
    rfl

theorem Segments.pair {t : Tree} {head : RuleHead} {k : Nat} {cut whole : List Sentence}
    (hcut : Segments t (some .punctuation) head k cut) (hwhole : Segments t none head k whole) :
    SegmentsPair t head k cut whole := by
  obtain ⟨hblock, hcuts⟩ := hcut
  obtain ⟨hblock', hcuts'⟩ := hwhole
  obtain ⟨rfl, rfl⟩ := hblock.unique hblock'
  cases hcuts'
  refine .mk hblock ?_ (words_blockText t _) rfl ?_
  · cases hcuts with
    | nothing => rfl
    | cut hne hcuts =>
      obtain rfl : Text.sentences _ = _ := Except.ok.inj hcuts
      rw [List.flatMap_map, ← words_blockText]
      exact Text.flatMap_words_sentences _
  · intro s hs
    obtain ⟨text, -, rfl⟩ := List.mem_map.mp hs
    rfl

/-! ### Units of the two extractions -/

mutual

/-- The units that a rule yields under a node when texts are cut and when they are left whole. -/
inductive Rule.YieldsPair (t : Tree) :
    Rule → Nat → List (TextUnit Sentence) → List (TextUnit Sentence) → Prop
  | mk {rule : Rule} {k : Nat} (selected : String → List Nat)
      (built built' : Nat → TextUnit Sentence)
      (selects : ∀ e ∈ rule.head.xpaths, Selects t k e (selected e))
      (builds : ∀ e ∈ rule.head.xpaths, ∀ i ∈ selected e,
        Rule.BuildsPair t rule i (built i) (built' i)) :
      Rule.YieldsPair t rule k (rule.head.xpaths.flatMap fun e => (selected e).map built)
        (rule.head.xpaths.flatMap fun e => (selected e).map built')

/-- The units that a rule builds for an element when texts are cut and when they are left whole: name
and metadata are the same, and what is in them corresponds rule by rule. -/
inductive Rule.BuildsPair (t : Tree) :
    Rule → Nat → TextUnit Sentence → TextUnit Sentence → Prop
  | mk {rule : Rule} {i : Nat} {metadata : List Metadata}
      (yielded yielded' : Rule → List (TextUnit Sentence)) (made made' : Rule → List Sentence)
      (describes : Describes t rule.head.metadata i metadata)
      (yields : ∀ r ∈ rule.units, r.isTerminal = false →
        Rule.YieldsPair t r i (yielded r) (yielded' r))
      (segments : ∀ r ∈ rule.units, r.isTerminal = true →
        SegmentsPair t r.head i (made r) (made' r)) :
      Rule.BuildsPair t rule i
        ⟨rule.head.name, metadata, (rule.units.filter (!·.isTerminal)).flatMap yielded,
          (rule.units.filter (·.isTerminal)).flatMap made⟩
        ⟨rule.head.name, metadata, (rule.units.filter (!·.isTerminal)).flatMap yielded',
          (rule.units.filter (·.isTerminal)).flatMap made'⟩

end

section Pairs

variable {t : Tree}

theorem Rule.Builds.pair {rule : Rule} {i : Nat} {u v : TextUnit Sentence}
    (hyields : ∀ r ∈ rule.units, ∀ us vs, Rule.Yields t (some .punctuation) r i us →
      Rule.Yields t none r i vs → Rule.YieldsPair t r i us vs)
    (hu : Rule.Builds t (some .punctuation) rule i u) (hv : Rule.Builds t none rule i v) :
    Rule.BuildsPair t rule i u v := by
  obtain ⟨yielded, made, hdescribes, hbelow, hsegments⟩ := hu
  obtain ⟨yielded', made', hdescribes', hbelow', hsegments'⟩ := hv
  obtain rfl := hdescribes.unique hdescribes'
  refine .mk yielded yielded' made made' hdescribes ?_ ?_
  · intro r hr hnested
    exact hyields r hr _ _ (hbelow r hr hnested) (hbelow' r hr hnested)
  · intro r hr hterminal
    exact (hsegments r hr hterminal).pair (hsegments' r hr hterminal)

/-- What a rule yields with cuts and what it yields without them correspond. -/
theorem Rule.Yields.pair (rule : Rule) : ∀ {k : Nat} {us vs : List (TextUnit Sentence)},
    Rule.Yields t (some .punctuation) rule k us → Rule.Yields t none rule k vs →
    Rule.YieldsPair t rule k us vs := by
  induction rule using Rule.induct with
  | h rule ih =>
    intro k us vs hus hvs
    obtain ⟨selected, built, hselects, hbuilds⟩ := hus
    obtain ⟨selected', built', hselects', hbuilds'⟩ := hvs
    have hselected : ∀ e ∈ rule.head.xpaths, selected' e = selected e :=
      fun e he => (hselects' e he).unique (hselects e he)
    rw [List.flatMap_congr fun e he => congrArg (List.map built') (hselected e he)]
    refine .mk selected built built' hselects fun e he i hi => ?_
    refine Rule.Builds.pair ?_ (hbuilds e he i hi) (hbuilds' e he i (hselected e he ▸ hi))
    exact fun r hr us vs => ih r hr

end Pairs

/-! ### Documents -/

/-- The tree of a unit without what its units hold. -/
def TextUnit.outline {α : Type} (u : TextUnit α) : TextUnit Unit := u.mapOwn fun _ => []

/-- Cutting leaves the tree of units as it is. -/
theorem TextUnit.outline_spread_cut (u : TextUnit Passage) :
    u.cut.spread.outline = u.spread.outline := by
  simp only [outline, spread, cut, mapOwn_mapOwn]

/-- An extractor that cuts by punctuation and one of the same grammar that cuts nothing stop at the
same error, or they make the same tree of units, with the same words for every terminal rule at every
unit. -/
theorem Extractor.splitting_keepsWords (grammar : Rule) (tokenizer : Tokenizer) (xml : String) :
    match (⟨grammar, .punctuation, true⟩ : Extractor).extract xml,
      (⟨grammar, tokenizer, false⟩ : Extractor).extract xml with
    | .ok ds, .ok ds' => ∃ t us vs, Xml.read? xml = some t ∧
        ds = us.map Document.ofUnit ∧ ds' = vs.map Document.ofUnit ∧
        us.map TextUnit.outline = vs.map TextUnit.outline ∧
        Rule.YieldsPair t grammar Tree.rootNumber us vs
    | .error e, .error e' => e = e'
    | _, _ => False := by
  cases hread : Xml.read? xml with
  | none => simp only [extract, hread]
  | some t =>
    have hcut : (⟨grammar, .punctuation, true⟩ : Extractor).unitsOf t =
        List.map TextUnit.cut <$> (⟨grammar, tokenizer, false⟩ : Extractor).unitsOf t :=
      unitsUnder_cutting grammar Tree.rootNumber
    simp only [extract, hread, documentsOf, hcut]
    cases hwhole : (⟨grammar, tokenizer, false⟩ : Extractor).unitsOf t with
    | error e => rfl
    | ok us =>
      rw [hwhole] at hcut
      have hyields := yields_of_unitsUnder grammar hcut
      have hyields' := yields_of_unitsUnder grammar hwhole
      refine ⟨t, (us.map TextUnit.cut).map TextUnit.spread, us.map TextUnit.spread, rfl, ?_, ?_, ?_,
        Rule.Yields.pair grammar hyields hyields'⟩
      · simp
      · simp
      · simp [TextUnit.outline_spread_cut]

end XmlHarvest

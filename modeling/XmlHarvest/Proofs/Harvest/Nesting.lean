/-
How deep the documents of a grammar nest.

A grammar is read from JSON, in which arrays and objects open at most 127 deep, so a rule that
stands `h` levels above the deepest one has `2 * h + 1` levels of room.  What such a rule can make
is bounded by this (`Rule.Fits`, `TextUnit.Graded`), and the documents of a grammar fit into the
depth that reading them back allows, unless a unit that is nested 62 deep has sentences.  There only
terminal rules without expressions have room, which match nothing: they make sentences only where
texts are not cut.
-/
import XmlHarvest.Grammar.Reader
import XmlHarvest.Harvest.Extractor
import XmlHarvest.Proofs.Document.Reading
import XmlHarvest.Proofs.Document.Sharing
import XmlHarvest.Proofs.Results

namespace XmlHarvest

open Json (Value)

/-! ### Grammars -/

/-- What a rule has where `h` levels of rules have room below it: only the deepest has none for
expressions, and the deepest two have none for expressions of metadata. -/
structure RuleHead.Fits (h : Nat) (head : RuleHead) : Prop where
  xpaths : head.xpaths ≠ [] → 1 ≤ h
  metadata : ∀ r ∈ head.metadata, r.xpaths ≠ [] → 2 ≤ h

/-- The rule and those below it stand at most `h` levels above the deepest. -/
def Rule.Fits : Nat → Rule → Prop
  | 0, rule => rule.head.Fits 0 ∧ rule.units = []
  | h + 1, rule => rule.head.Fits (h + 1) ∧ ∀ r ∈ rule.units, Rule.Fits h r

theorem Rule.Fits.head {h : Nat} {rule : Rule} (hrule : rule.Fits h) : rule.head.Fits h := by
  cases h with
  | zero => exact hrule.1
  | succ h => exact hrule.1

/-- A metadata rule that was read has expressions only where there is room for their list. -/
theorem MetadataRule.room_of_ofJson? {room : Nat} {v : Value} {r : MetadataRule}
    (h : MetadataRule.ofJson? room v = some r) (hr : r.xpaths ≠ []) : 2 ≤ room := by
  cases room with
  | zero => cases h
  | succ room =>
    unfold MetadataRule.ofJson? at h
    obtain ⟨fields, -, h⟩ := Option.bind_eq_some_iff.mp h
    split at h
    · obtain ⟨xpaths, hxpaths, h⟩ := Option.bind_eq_some_iff.mp h
      obtain ⟨attr, -, h⟩ := Option.bind_eq_some_iff.mp h
      obtain ⟨name, -, h⟩ := Option.bind_eq_some_iff.mp h
      obtain rfl : (⟨xpaths, attr, name⟩ : MetadataRule) = r := Option.some.inj h
      rcases Json.eq_default_of_fieldOr hxpaths with rfl | ⟨w, hw⟩
      · exact absurd rfl hr
      · have := (Json.Value.list?_eq_some hw).1
        omega
    · cases h

/-- What a draft that was read says about the room. -/
theorem RuleDraft.room_of_ofJson? {room : Nat} {v : Value} {d : RuleDraft}
    (h : RuleDraft.ofJson? (room + 1) v = some d) :
    (d.xpaths.getD [] ≠ [] → 0 < room) ∧ (∀ r ∈ d.metadata, r.xpaths ≠ [] → 3 ≤ room) ∧
      ∀ u ∈ d.units, ∃ inner w, room = inner + 1 ∧ RuleDraft.ofJson? inner w = some u := by
  unfold RuleDraft.ofJson? at h
  obtain ⟨fields, -, h⟩ := Option.bind_eq_some_iff.mp h
  split at h
  · obtain ⟨name, -, h⟩ := Option.bind_eq_some_iff.mp h
    obtain ⟨xpaths, hxpaths, h⟩ := Option.bind_eq_some_iff.mp h
    obtain ⟨metadata, hmetadata, h⟩ := Option.bind_eq_some_iff.mp h
    obtain ⟨units, hunits, h⟩ := Option.bind_eq_some_iff.mp h
    obtain rfl : (⟨name, xpaths, metadata, units⟩ : RuleDraft) = d := Option.some.inj h
    refine ⟨?_, ?_, ?_⟩
    · intro hne
      rcases Json.eq_default_of_fieldOr hxpaths with rfl | ⟨w, hw⟩
      · exact absurd rfl hne
      · cases xpaths with
        | none => exact absurd rfl hne
        | some xpaths =>
          obtain ⟨w', hw'⟩ := Json.Value.nullable?_eq_some hw
          exact (Json.Value.list?_eq_some hw').1
    · intro r hr hne
      rcases Json.eq_default_of_fieldOr hmetadata with rfl | ⟨w, hw⟩
      · cases hr
      · obtain ⟨-, hitems⟩ := Json.Value.list?_eq_some hw
        obtain ⟨w', hw'⟩ := hitems r hr
        have := MetadataRule.room_of_ofJson? hw' hne
        omega
    · intro u hu
      rcases Json.eq_default_of_fieldOr hunits with rfl | ⟨w, hw⟩
      · cases hu
      · obtain ⟨hroom, hitems⟩ := Json.Value.list?_eq_some hw
        obtain ⟨w', hw'⟩ := hitems u hu
        cases room with
        | zero => cases hw'
        | succ inner => exact ⟨inner, w', rfl, hw'⟩
  · cases h

theorem RuleDraft.rules_eq_map (ds : List RuleDraft) :
    RuleDraft.rules ds = ds.map RuleDraft.rule := by
  induction ds with
  | nil => rfl
  | cons d ds ih => rw [RuleDraft.rules, ih]; rfl

theorem RuleDraft.head_rule (d : RuleDraft) :
    d.rule.head = ⟨d.name.getD "", d.xpaths.getD [], d.metadata⟩ := by
  obtain ⟨name, xpaths, metadata, units⟩ := d
  simp only [RuleDraft.rule]
  split <;> rfl

theorem RuleDraft.mem_units_rule {d : RuleDraft} {r : Rule} (h : r ∈ d.rule.units) :
    ∃ u ∈ d.units, u.rule = r := by
  obtain ⟨name, xpaths, metadata, units⟩ := d
  simp only [RuleDraft.rule] at h
  split at h
  · cases h
  · rw [Rule.units, RuleDraft.rules_eq_map] at h
    exact List.mem_map.mp h

/-- The induction is on the levels that have room; each takes up two of the JSON text. -/
theorem RuleDraft.fits_rule {h : Nat} {v : Value} {d : RuleDraft}
    (hread : RuleDraft.ofJson? (2 * h + 1) v = some d) : d.rule.Fits h := by
  induction h generalizing v d with
  | zero =>
    obtain ⟨hxpaths, hmetadata, hunits⟩ := RuleDraft.room_of_ofJson? hread
    refine ⟨⟨?_, ?_⟩, ?_⟩
    · rw [d.head_rule]
      exact hxpaths
    · rw [d.head_rule]
      intro r hr hne
      have := hmetadata r hr hne
      omega
    · refine List.eq_nil_iff_forall_not_mem.mpr fun r hr => ?_
      obtain ⟨u, hu, -⟩ := RuleDraft.mem_units_rule hr
      obtain ⟨inner, w, hroom, -⟩ := hunits u hu
      cases hroom
  | succ h ih =>
    obtain ⟨hxpaths, hmetadata, hunits⟩ := RuleDraft.room_of_ofJson? hread
    refine ⟨⟨fun _ => Nat.succ_pos h, ?_⟩, ?_⟩
    · rw [d.head_rule]
      intro r hr hne
      have := hmetadata r hr hne
      omega
    · intro r hr
      obtain ⟨u, hu, rfl⟩ := RuleDraft.mem_units_rule hr
      obtain ⟨inner, w, hroom, hw⟩ := hunits u hu
      obtain rfl : inner = 2 * h + 1 := by omega
      exact ih hw

/-- A grammar that was read is the rule of a draft that was. -/
theorem Rule.draft_of_read {text : String} {rule : Rule} (h : Rule.read text = .ok rule) :
    ∃ v draft, RuleDraft.ofJson? Json.maxDepth v = some draft ∧ draft.rule = rule := by
  unfold Rule.read at h
  split at h
  · cases h
  · next draft hdraft =>
    obtain ⟨v, -, hread⟩ := Option.bind_eq_some_iff.mp hdraft
    split at h
    · cases h
    · split at h
      · cases h
      · exact ⟨v, draft, hread, Except.ok.inj h⟩

/-- A grammar that was read has room for 63 levels below its root. -/
theorem Rule.fits_of_read {text : String} {rule : Rule} (h : Rule.read text = .ok rule) :
    rule.Fits 63 := by
  obtain ⟨v, draft, hread, rfl⟩ := Rule.draft_of_read h
  exact RuleDraft.fits_rule hread

/-! ### Extraction that ends -/

section Extraction

variable {ε α β : Type}

/-- What is gathered comes from one of the items. -/
theorem mem_of_gather {f : α → Except ε (List β)} {xs : List α} {ys : List β}
    (h : gather f xs = .ok ys) {y : β} (hy : y ∈ ys) : ∃ x ∈ xs, ∃ zs, f x = .ok zs ∧ y ∈ zs := by
  induction xs generalizing ys with
  | nil =>
    obtain rfl : [] = ys := Except.ok.inj h
    cases hy
  | cons x xs ih =>
    obtain ⟨first, hfirst, h⟩ := bind_eq_ok h
    obtain ⟨others, hothers, h⟩ := bind_eq_ok h
    obtain rfl : first ++ others = ys := Except.ok.inj h
    rcases List.mem_append.mp hy with hy | hy
    · exact ⟨x, by simp, first, hfirst, hy⟩
    · obtain ⟨x', hx', zs, hzs, hmem⟩ := ih hothers hy
      exact ⟨x', by simp [hx'], zs, hzs, hmem⟩

variable {split : Option Tokenizer} {t : Xml.Tree}

/-- Metadata come from expressions. -/
theorem xpaths_of_metadataAt {rules : List MetadataRule} {k : Nat} {ms : List Metadata}
    (h : metadataAt (Tools.direct split) t rules k = .ok ms) (hms : ms ≠ []) :
    ∃ r ∈ rules, r.xpaths ≠ [] := by
  obtain ⟨m, hm⟩ := List.exists_mem_of_ne_nil ms hms
  obtain ⟨r, hr, values, hvalues, hm⟩ := mem_of_gather h hm
  obtain ⟨e, he, -⟩ := mem_of_gather hvalues hm
  exact ⟨r, hr, List.ne_nil_of_mem he⟩

theorem xpaths_of_matchesAt {head : RuleHead} {k : Nat} {ms : List Match}
    (h : matchesAt (Tools.direct split) t head k = .ok ms) {b : Match} (hb : b ∈ ms) :
    head.xpaths ≠ [] ∧ (b.metadata ≠ [] → ∃ r ∈ head.metadata, r.xpaths ≠ []) := by
  obtain ⟨e, he, bs, hbs, hb⟩ := mem_of_gather h hb
  refine ⟨List.ne_nil_of_mem he, ?_⟩
  obtain ⟨items, -, hbs⟩ := bind_eq_ok hbs
  obtain ⟨x, -, bs, hbs, hb⟩ := mem_of_gather hbs hb
  obtain ⟨b', hb', rfl⟩ := map_eq_ok hbs
  obtain rfl : b = b' := List.mem_singleton.mp hb
  intro hne
  unfold matchOf at hb'
  split at hb'
  · obtain ⟨metadata, hmetadata, rfl⟩ := map_eq_ok hb'
    exact xpaths_of_metadataAt hmetadata hne
  · obtain rfl : _ = b := Except.ok.inj hb'
    exact absurd rfl hne

/-- A passage has metadata only where a rule for them has expressions, and a text that was cut has
sentences only where something matched. -/
theorem xpaths_of_passageAt {head : RuleHead} {k : Nat} {b : Passage}
    (h : passageAt (Tools.direct split) t head k = .ok b) :
    (b.metadata ≠ [] → ∃ r ∈ head.metadata, r.xpaths ≠ []) ∧
      (split.isSome = true → b.texts ≠ [] → head.xpaths ≠ []) := by
  obtain ⟨ms, hms, h⟩ := bind_eq_ok h
  -- Only where texts are cut does it matter whether anything matched.
  have hmetadata : b.metadata = ms.flatMap Match.metadata ∧
      (split.isSome = true → b.texts ≠ [] → ms ≠ []) := by
    unfold passageOf at h
    cases split with
    | none =>
      obtain rfl : _ = b := Except.ok.inj h
      exact ⟨rfl, fun h => nomatch h⟩
    | some cut =>
      simp only [Tools.direct, Option.map_some] at h
      split at h
      · obtain rfl : _ = b := Except.ok.inj h
        exact ⟨rfl, fun _ hne => absurd rfl hne⟩
      · next hsome =>
        obtain ⟨texts, -, rfl⟩ := map_eq_ok h
        refine ⟨rfl, fun _ _ => ?_⟩
        simpa using hsome
  constructor
  · -- Metadata of a passage are those of a match.
    intro hne
    rw [hmetadata.1] at hne
    obtain ⟨m, hm⟩ := List.exists_mem_of_ne_nil _ hne
    obtain ⟨a, ha, hm⟩ := List.mem_flatMap.mp hm
    exact (xpaths_of_matchesAt hms ha).2 (List.ne_nil_of_mem hm)
  · intro hsplit hne
    obtain ⟨a, ha⟩ := List.exists_mem_of_ne_nil _ (hmetadata.2 hsplit hne)
    exact (xpaths_of_matchesAt hms ha).1

end Extraction

/-! ### Units at their heights -/

namespace TextUnit

variable {α β : Type}

/-- The unit stands at the height, each unit in it one lower, and `P` holds of the height, the
metadata and what the unit holds.  At height zero there is no unit. -/
def Graded (P : Nat → List Metadata → List α → Prop) : Nat → TextUnit α → Prop
  | 0, _ => False
  | h + 1, u => P (h + 1) u.metadata u.sentences ∧ ∀ v ∈ u.units, Graded P h v

/-- What the units that are nested so deep hold themselves. -/
def heldAtDepth : Nat → TextUnit α → List α
  | 0, u => u.sentences
  | n + 1, u => u.units.flatMap (heldAtDepth n)

theorem Graded.mapOwn {P : Nat → List Metadata → List β → Prop} {f : List α → List β} {h : Nat}
    {u : TextUnit α} (hu : u.Graded (fun h ms own => P h ms (f own)) h) :
    (u.mapOwn f).Graded P h := by
  induction h generalizing u with
  | zero => exact hu
  | succ h ih =>
    obtain ⟨name, metadata, units, own⟩ := u
    refine ⟨hu.1, ?_⟩
    intro v hv
    rw [TextUnit.mapOwn, mapOwns_eq_map] at hv
    obtain ⟨u, hu', rfl⟩ := List.mem_map.mp hv
    exact ih (hu.2 u hu')

theorem Graded.mono {P Q : Nat → List Metadata → List α → Prop} (hPQ : ∀ h ms own, P h ms own →
    Q h ms own) {h : Nat} {u : TextUnit α} (hu : u.Graded P h) : u.Graded Q h := by
  induction h generalizing u with
  | zero => exact hu
  | succ h ih => exact ⟨hPQ _ _ _ hu.1, fun v hv => ih (hu.2 v hv)⟩

end TextUnit

/-- What a unit at a height has: the lowest has no metadata, the lowest two no sentences with
metadata, and where texts are cut the lowest has no sentences. -/
structure Bounded (cut : Bool) (h : Nat) (metadata : List Metadata) (sentences : List Sentence) :
    Prop where
  metadata : metadata ≠ [] → 2 ≤ h
  shared : ∀ s ∈ sentences, s.metadata ≠ [] → 3 ≤ h
  sentences : cut = true → sentences ≠ [] → 2 ≤ h

/-- What the passages of a rule at a height have. -/
structure Passage.Bounded (cut : Bool) (h : Nat) (b : Passage) : Prop where
  metadata : b.metadata ≠ [] → 3 ≤ h
  texts : cut = true → b.texts ≠ [] → 2 ≤ h

theorem bounded_of_passages {cut : Bool} {h : Nat} {ms : List Metadata} {bs : List Passage}
    (hms : ms ≠ [] → 2 ≤ h) (hbs : ∀ b ∈ bs, b.Bounded cut h) :
    Bounded cut h ms (bs.flatMap Passage.sentences) := by
  refine ⟨hms, ?_, ?_⟩
  · intro s hs hne
    obtain ⟨b, hb, hs⟩ := List.mem_flatMap.mp hs
    obtain ⟨text, -, rfl⟩ := List.mem_map.mp hs
    exact (hbs b hb).metadata hne
  · intro hcut hne
    obtain ⟨s, hs⟩ := List.exists_mem_of_ne_nil _ hne
    obtain ⟨b, hb, hs⟩ := List.mem_flatMap.mp hs
    obtain ⟨text, htext, -⟩ := List.mem_map.mp hs
    exact (hbs b hb).texts hcut (List.ne_nil_of_mem htext)

/-- A unit of passages that are bounded at every height. -/
abbrev TextUnit.Within (cut : Bool) (h : Nat) (u : TextUnit Passage) : Prop :=
  u.Graded (fun h ms bs => (ms ≠ [] → 2 ≤ h) ∧ ∀ b ∈ bs, b.Bounded cut h) h

section Units

variable {split : Option Tokenizer} {t : Xml.Tree}

/-- The units of a rule, given what each of them holds. -/
theorem within_of_unitsOver {head : RuleHead} {h k : Nat}
    {held : Nat → Except ExtractionError (List (TextUnit Passage) × List Passage)}
    {us : List (TextUnit Passage)} (hhead : head.Fits h)
    (hheld : ∀ i units passages, held i = .ok (units, passages) →
      (∀ v ∈ units, v.Within split.isSome (h - 1)) ∧ ∀ b ∈ passages, b.Bounded split.isSome h)
    (hrun : unitsOver (Tools.direct split) t head held k = .ok us) :
    ∀ u ∈ us, u.Within split.isSome h := by
  intro u hu
  obtain ⟨e, he, us, hus, hu⟩ := mem_of_gather hrun hu
  obtain ⟨elements, -, hus⟩ := bind_eq_ok hus
  obtain ⟨i, -, us, hus, hu⟩ := mem_of_gather hus hu
  obtain ⟨metadata, hmetadata, hus⟩ := bind_eq_ok hus
  obtain ⟨⟨units, passages⟩, hunits, hus⟩ := bind_eq_ok hus
  obtain rfl : [_] = us := Except.ok.inj hus
  obtain rfl : u = _ := List.mem_singleton.mp hu
  -- An expression of the rule found the element, so the rule is not the lowest.
  obtain ⟨h, rfl⟩ : ∃ n, h = n + 1 := by
    have := hhead.xpaths (List.ne_nil_of_mem he)
    exact ⟨h - 1, by omega⟩
  obtain ⟨hunits, hpassages⟩ := hheld i units passages hunits
  refine ⟨⟨?_, hpassages⟩, hunits⟩
  intro hne
  obtain ⟨r, hr, hxpaths⟩ := xpaths_of_metadataAt hmetadata hne
  exact hhead.metadata r hr hxpaths

mutual

/-- The units of a rule stand at the height of the rule. -/
theorem within_of_unitsUnder : ∀ (rule : Rule) {h k : Nat} {us : List (TextUnit Passage)},
    rule.Fits h → unitsUnder (Tools.direct split) t rule k = .ok us →
    ∀ u ∈ us, u.Within split.isSome h
  | .terminal head, h, k, us, hrule, hrun => by
    rw [unitsUnder] at hrun
    refine within_of_unitsOver hrule.head ?_ hrun
    rintro i _ _ hheld
    cases hheld
    exact ⟨List.forall_mem_nil _, List.forall_mem_nil _⟩
  | .nested head rules, 0, k, us, hrule, hrun => by
    -- The lowest rule has no rules below it.
    obtain rfl : rules = [] := hrule.2
    rw [unitsUnder] at hrun
    refine within_of_unitsOver hrule.1 ?_ hrun
    rintro i _ _ hheld
    cases hheld
    exact ⟨List.forall_mem_nil _, List.forall_mem_nil _⟩
  | .nested head rules, h + 1, k, us, hrule, hrun => by
    rw [unitsUnder] at hrun
    refine within_of_unitsOver hrule.1 ?_ hrun
    intro i units passages hheld
    exact within_of_heldAt rules hrule.2 hheld

/-- The rules below a rule stand one lower, so what they make is bounded for their element. -/
theorem within_of_heldAt : ∀ (rules : List Rule) {h k : Nat} {units : List (TextUnit Passage)}
    {passages : List Passage}, (∀ r ∈ rules, r.Fits h) →
    heldAt (Tools.direct split) t rules k = .ok (units, passages) →
    (∀ v ∈ units, v.Within split.isSome h) ∧ ∀ b ∈ passages, b.Bounded split.isSome (h + 1)
  | [], h, k, _, _, _, hrun => by
    cases hrun
    exact ⟨List.forall_mem_nil _, List.forall_mem_nil _⟩
  | .terminal head :: rules, h, k, _, _, hrules, hrun => by
    rw [heldAt] at hrun
    obtain ⟨passage, hpassage, hrun⟩ := bind_eq_ok hrun
    obtain ⟨⟨units, passages⟩, hheld, hrun⟩ := bind_eq_ok hrun
    cases hrun
    obtain ⟨hunits, hpassages⟩ :=
      within_of_heldAt rules (fun r hr => hrules r (by simp [hr])) hheld
    have hhead : head.Fits h := (hrules (.terminal head) (by simp)).head
    obtain ⟨hmetadata, htexts⟩ := xpaths_of_passageAt hpassage
    refine ⟨hunits, ?_⟩
    intro b hb
    rcases List.mem_cons.mp hb with rfl | hb
    · -- The passage is held by the element above, so its bounds are one higher than its rule's.
      refine ⟨?_, ?_⟩
      · intro hne
        obtain ⟨r, hr, hxpaths⟩ := hmetadata hne
        have := hhead.metadata r hr hxpaths
        omega
      · intro hcut hne
        have := hhead.xpaths (htexts hcut hne)
        omega
    · exact hpassages b hb
  | .nested head inner :: rules, h, k, _, _, hrules, hrun => by
    rw [heldAt] at hrun
    obtain ⟨first, hfirst, hrun⟩ := bind_eq_ok hrun
    obtain ⟨⟨units, passages⟩, hheld, hrun⟩ := bind_eq_ok hrun
    cases hrun
    obtain ⟨hunits, hpassages⟩ :=
      within_of_heldAt rules (fun r hr => hrules r (by simp [hr])) hheld
    refine ⟨?_, hpassages⟩
    intro v hv
    rcases List.mem_append.mp hv with hv | hv
    · exact within_of_unitsUnder (.nested head inner) (hrules _ (by simp)) hfirst v hv
    · exact hunits v hv

end

end Units

/-! ### Depth of the JSON form -/

namespace TextUnit

variable {cut : Bool} {h : Nat} {u : TextUnit Sentence}

/-- A unit fits into the levels of its height, except where the lowest units have sentences. -/
theorem depth_toJson_le_of_graded (hu : u.Graded (Bounded cut) h)
    (hlow : u.heldAtDepth (h - 1) = []) : u.toJson.depth ≤ 2 * h + 1 := by
  induction h generalizing u with
  | zero => exact hu.elim
  | succ h ih =>
    obtain ⟨⟨hmetadata, hshared, -⟩, hunits⟩ := hu
    rw [depth_toJson_le]
    refine ⟨by omega, ?_, ?_, ?_⟩
    · intro hne
      have := hmetadata hne
      omega
    · intro s hs
      -- The lowest units have no sentences, so the unit is not one of them.
      have hpos : 0 < h := by
        refine Nat.pos_of_ne_zero ?_
        rintro rfl
        rw [show u.heldAtDepth 0 = u.sentences from rfl] at hlow
        exact List.ne_nil_of_mem hs hlow
      have hdepth : s.toJson.depth ≤ 2 * h + 1 := by
        rw [Sentence.depth_toJson_le]
        refine ⟨by omega, ?_⟩
        intro hne
        have := hshared s hs hne
        omega
      omega
    · intro v hv
      have hgraded := hunits v hv
      cases h with
      | zero => exact hgraded.elim
      | succ h =>
        have hlow' : v.heldAtDepth h = [] :=
          List.flatMap_eq_nil_iff.mp (show u.units.flatMap (heldAtDepth h) = [] from hlow) v hv
        have := ih hgraded hlow'
        omega

/-- Where texts are cut, the lowest units have no sentences. -/
theorem heldAtDepth_eq_nil_of_cut (hu : u.Graded (Bounded true) h) :
    u.heldAtDepth (h - 1) = [] := by
  induction h generalizing u with
  | zero => exact hu.elim
  | succ h ih =>
    obtain ⟨hbounded, hunits⟩ := hu
    cases h with
    | zero =>
      -- At height one sentences of cut texts would need a height of two.
      refine Decidable.byContradiction fun hne => ?_
      have := hbounded.sentences rfl hne
      omega
    | succ h => exact List.flatMap_eq_nil_iff.mpr fun v hv => ih (hunits v hv)

/-- Sentences at a depth of units nest two levels for each unit above, and four more. -/
theorem lt_depth_of_heldAtDepth {n : Nat} (hheld : u.heldAtDepth n ≠ []) :
    2 * n + 4 ≤ u.toJson.depth := by
  induction n generalizing u with
  | zero =>
    obtain ⟨s, hs⟩ := List.exists_mem_of_ne_nil _ hheld
    have hunit := (depth_toJson_le.mp (Nat.le_refl u.toJson.depth)).2.2.1 s hs
    have hsentence := (Sentence.depth_toJson_le.mp (Nat.le_refl s.toJson.depth)).1
    omega
  | succ n ih =>
    obtain ⟨s, hs⟩ := List.exists_mem_of_ne_nil _ hheld
    obtain ⟨v, hv, hs⟩ := List.mem_flatMap.mp hs
    have hunit := (depth_toJson_le.mp (Nat.le_refl u.toJson.depth)).2.2.2 v hv
    have := ih (List.ne_nil_of_mem hs)
    omega

end TextUnit

/-! ### Documents of a grammar -/

namespace Extractor

variable {x : Extractor} {text xml : String} {ds : List Document} {d : Document}

theorem graded_of_extract (hgrammar : Rule.read text = .ok x.grammar)
    (hrun : x.extract xml = .ok ds) (hd : d ∈ ds) : d.body.Graded (Bounded x.tokenize) 63 := by
  unfold extract at hrun
  split at hrun
  · cases hrun
  · next t _ =>
    -- The units hold passages, and each passage is replaced by its sentences.
    obtain ⟨us, hus, rfl⟩ := map_eq_ok (show _ <$> x.unitsOf t = _ from hrun)
    obtain ⟨u, hu, rfl⟩ := List.mem_map.mp hd
    have hcut : x.split.isSome = x.tokenize := by
      unfold split
      cases x.tokenize <;> rfl
    have hwithin := within_of_unitsUnder x.grammar (Rule.fits_of_read hgrammar) hus u hu
    rw [hcut] at hwithin
    refine TextUnit.Graded.mapOwn (hwithin.mono ?_)
    rintro h ms bs ⟨hms, hbs⟩
    exact bounded_of_passages hms hbs

/-- A document of a grammar is read back from what is written for it, unless a unit that is nested
62 deep has sentences. -/
theorem read?_write_of_extract (hgrammar : Rule.read text = .ok x.grammar)
    (hrun : x.extract xml = .ok ds) (hd : d ∈ ds) :
    Document.read? d.write = if d.body.heldAtDepth 62 = [] then some d else none := by
  have hgraded := graded_of_extract hgrammar hrun hd
  have hdepth : d.body.toJson.depth ≤ Json.maxDepth ↔ d.body.heldAtDepth 62 = [] := by
    refine ⟨fun hle => ?_, TextUnit.depth_toJson_le_of_graded hgraded⟩
    refine Decidable.byContradiction fun hne => ?_
    -- This is one more level than may be read.
    have hlt : 2 * 62 + 4 ≤ d.body.toJson.depth := TextUnit.lt_depth_of_heldAtDepth hne
    exact absurd hle (by rw [Json.maxDepth]; omega)
  rw [Document.read?_write]
  simp only [hdepth]

/-- No unit that is nested 62 deep has sentences where texts are cut. -/
theorem heldAtDepth_of_tokenize (hgrammar : Rule.read text = .ok x.grammar)
    (hrun : x.extract xml = .ok ds) (hd : d ∈ ds) (hcut : x.tokenize = true) :
    d.body.heldAtDepth 62 = [] := by
  have hgraded := graded_of_extract hgrammar hrun hd
  rw [hcut] at hgraded
  exact TextUnit.heldAtDepth_eq_nil_of_cut hgraded

end Extractor

/-! ### The deepest grammar -/

namespace Rule

/-- Rules nested in each other, each for the elements `a` from its own element down, around a
terminal rule that matches nothing. -/
def chain : Nat → Rule
  | 0 => .terminal ⟨"sentence", [], []⟩
  | n + 1 => .nested ⟨"unit", ["descendant-or-self::a"], []⟩ [chain n]

/-- The JSON form of these rules. -/
def chainValue : Nat → Value
  | 0 => .ofMembers [("structureName", .ofText "sentence")]
  | n + 1 => .ofMembers [
    ("structureName", .ofText "unit"),
    ("xpaths", .ofTexts ["descendant-or-self::a"]),
    ("units", .array [chainValue n])]

/-- The draft that is read from this form. -/
def chainDraft : Nat → RuleDraft
  | 0 => ⟨some "sentence", none, [], []⟩
  | n + 1 => ⟨some "unit", some ["descendant-or-self::a"], [], [chainDraft n]⟩

theorem textual_chainValue (n : Nat) : (chainValue n).Textual := by
  induction n with
  | zero => simp [chainValue, Json.Value.textual_ofMembers]
  | succ n ih =>
    simp [chainValue, Json.Value.textual_ofMembers, Json.Value.textual_array, ih, Value.ofTexts]

theorem rule_chainDraft (n : Nat) : (chainDraft n).rule = chain n := by
  induction n with
  | zero =>
    have hname : marksTerminal "sentence" = true := by decide +kernel
    simp [chainDraft, chain, RuleDraft.rule, hname]
  | succ n ih =>
    have hname : marksTerminal "unit" = false := by decide +kernel
    simp [chainDraft, chain, RuleDraft.rule, RuleDraft.rules, hname, ih]

theorem ofJson?_chainValue {n room : Nat} (h : 2 * n < room) :
    RuleDraft.ofJson? room (chainValue n) = some (chainDraft n) := by
  induction n generalizing room with
  | zero =>
    obtain ⟨room, rfl⟩ : ∃ m, room = m + 1 := ⟨room - 1, by omega⟩
    simp [chainValue, chainDraft, RuleDraft.ofJson?, Value.ofMembers, Value.fields?,
      Json.occurrences, List.lookup_cons, Json.fieldOr]
  | succ n ih =>
    obtain ⟨room, rfl⟩ : ∃ m, room = m + 2 := ⟨room - 2, by omega⟩
    have hinner := ih (show 2 * n < room by omega)
    have hxpaths : (Value.ofTexts ["descendant-or-self::a"]).nullable? (Value.texts? (room + 1)) =
        some (some ["descendant-or-self::a"]) := rfl
    simp [chainValue, chainDraft, RuleDraft.ofJson?, Value.ofMembers, Value.fields?,
      Json.occurrences, List.lookup_cons, Json.fieldOr, hxpaths, Value.list?, hinner]

/-- As many as 63 rules around the terminal one make a grammar. -/
theorem read_chain {n : Nat} (h : n < 63) :
    Rule.read (chainValue (n + 1)).compact = .ok (chain (n + 1)) := by
  have hread : RuleDraft.ofJson? Json.maxDepth (chainValue (n + 1)) = some (chainDraft (n + 1)) :=
    ofJson?_chainValue (by rw [Json.maxDepth]; omega)
  rw [Rule.read, Value.read?_compact (textual_chainValue (n + 1)), Option.bind_some, hread]
  simp only [rule_chainDraft]
  rfl

end Rule

end XmlHarvest

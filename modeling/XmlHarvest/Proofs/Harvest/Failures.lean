/-
Why extraction fails.

Expressions are compiled and texts are cut only where extraction comes to them, within the loops
over rules, expressions and elements.  A loop that fails does so at one of its items, and so every
failure goes back to one expression that does not compile or to one block of text that is refused.
Main statement: extraction from an XML document has one of these two reasons to fail or does not
fail (`Extractor.fails_only_for_reason`).
-/
import XmlHarvest.Proofs.Harvest.Locality
import XmlHarvest.Proofs.Harvest.Meaning

namespace XmlHarvest

open Xml (Item Tree)

/-- Gathering fails at one of the items. -/
theorem gather_eq_error {ε α β : Type} {fault : ε} {f : α → Except ε (List β)} {xs : List α}
    (h : gather f xs = .error fault) : ∃ x ∈ xs, f x = .error fault := by
  induction xs with
  | nil => cases h
  | cons x xs ih =>
    rcases bind_eq_error h with hx | ⟨first, -, h⟩
    · exact ⟨x, List.mem_cons_self, hx⟩
    · rcases bind_eq_error h with hxs | ⟨others, -, h⟩
      · obtain ⟨y, hy, hfault⟩ := ih hxs
        exact ⟨y, List.mem_cons_of_mem x hy, hfault⟩
      · cases h

/-! ### Reasons -/

/-- The expression is not blank and does not compile, and the error says so. -/
inductive Uncompiled (e : String) : ExtractionError → Prop
  | mk {invalid : XPath.Invalid} (notBlank : XPath.isSelf e = false)
      (fails : XPath.compile e = .error invalid) : Uncompiled e (.expression invalid)

/-- Something matches a terminal rule at a node, and the tokenizer refuses the text of the block
that the matches form, for the reason in the error. -/
inductive Refused (t : Tree) (cut : Tokenizer) (head : RuleHead) (k : Nat) : ExtractionError → Prop
  | mk {matched : List Item} {metadata : List Metadata} {reason : String}
      (block : Block t head k matched metadata) (nonempty : matched ≠ [])
      (refuses : cut (blockText t matched) = .error reason) : Refused t cut head k (.refused reason)

/-- The reasons for which a rule can fail on a document: an expression of the rule or of a rule
below it, or, where texts are cut, a terminal rule below it at an element. -/
inductive Rule.FailsFor (t : Tree) (split : Option Tokenizer) (rule : Rule)
    (fault : ExtractionError) : Prop
  | expression {e : String} (occurs : e ∈ rule.expressions) (uncompiled : Uncompiled e fault)
  | block {cut : Tokenizer} {r : Rule} {k : Nat} (cuts : split = some cut) (above : rule.Above r)
      (terminal : r.isTerminal = true) (element : t.isElement k = true)
      (refused : Refused t cut r.head k fault)

/-! ### Expressions of a grammar -/

theorem Rule.allExpressions_eq_flatMap (rules : List Rule) :
    Rule.allExpressions rules = rules.flatMap Rule.expressions := by
  induction rules with
  | nil => rfl
  | cons r rules ih => rw [Rule.allExpressions, ih, List.flatMap_cons]

theorem Rule.expressions_eq (rule : Rule) :
    rule.expressions = rule.head.expressions ++ rule.units.flatMap Rule.expressions := by
  cases rule with
  | terminal head => simp [Rule.expressions, Rule.head, Rule.units]
  | nested head rules =>
    rw [Rule.expressions, Rule.allExpressions_eq_flatMap, Rule.head, Rule.units]

theorem Rule.mem_expressions_of_head {rule : Rule} {e : String} (h : e ∈ rule.head.expressions) :
    e ∈ rule.expressions := by
  rw [Rule.expressions_eq]
  exact List.mem_append_left _ h

theorem Rule.mem_expressions_of_unit {rule r : Rule} (hr : r ∈ rule.units) {e : String}
    (h : e ∈ r.expressions) : e ∈ rule.expressions := by
  rw [Rule.expressions_eq]
  exact List.mem_append_right _ (List.mem_flatMap.mpr ⟨r, hr, h⟩)

/-- What makes a rule fail makes the rules above it fail. -/
theorem Rule.FailsFor.of_unit {t : Tree} {split : Option Tokenizer} {rule r : Rule}
    {fault : ExtractionError} (hr : r ∈ rule.units) (h : r.FailsFor t split fault) :
    rule.FailsFor t split fault := by
  rcases h with ⟨hoccurs, huncompiled⟩ | ⟨hcuts, habove, hterminal, helement, hrefused⟩
  · exact .expression (Rule.mem_expressions_of_unit hr hoccurs) huncompiled
  · exact .block hcuts (.head hr habove) hterminal helement hrefused

/-! ### Extraction that fails -/

section Extraction

variable {split : Option Tokenizer} {t : Tree} {k : Nat} {e : String} {fault : ExtractionError}

theorem uncompiled_of_resolve
    (h : XPath.resolve (Tools.direct split).compiled t e k = .error fault) :
    Uncompiled e fault := by
  unfold XPath.resolve at h
  split at h
  · cases h
  · next hblank =>
    obtain ⟨invalid, hinvalid, rfl⟩ := mapError_eq_error (map_eq_error h)
    exact ⟨Bool.eq_false_iff.mpr hblank, hinvalid⟩

theorem uncompiled_of_elementsUnder
    (h : elementsUnder (Tools.direct split) t k e = .error fault) : Uncompiled e fault := by
  unfold elementsUnder at h
  split at h
  · cases h
  · exact uncompiled_of_resolve (map_eq_error h)

theorem uncompiled_of_metadataAt {rules : List MetadataRule}
    (h : metadataAt (Tools.direct split) t rules k = .error fault) :
    ∃ e ∈ rules.flatMap (·.xpaths), Uncompiled e fault := by
  obtain ⟨r, hr, h⟩ := gather_eq_error h
  obtain ⟨e, he, h⟩ := gather_eq_error h
  exact ⟨e, List.mem_flatMap.mpr ⟨r, hr, he⟩, uncompiled_of_resolve (map_eq_error h)⟩

theorem uncompiled_of_matchOf {rules : List MetadataRule} {x : Item}
    (h : matchOf (Tools.direct split) t rules x = .error fault) :
    ∃ e ∈ rules.flatMap (·.xpaths), Uncompiled e fault := by
  unfold matchOf at h
  split at h
  · exact uncompiled_of_metadataAt (map_eq_error h)
  · cases h

theorem uncompiled_of_matchesAt {head : RuleHead}
    (h : matchesAt (Tools.direct split) t head k = .error fault) :
    ∃ e ∈ head.expressions, Uncompiled e fault := by
  obtain ⟨e, he, h⟩ := gather_eq_error h
  rcases bind_eq_error h with h | ⟨items, -, h⟩
  · exact ⟨e, List.mem_append_left _ he, uncompiled_of_resolve h⟩
  · obtain ⟨x, -, h⟩ := gather_eq_error h
    obtain ⟨e, he, h⟩ := uncompiled_of_matchOf (map_eq_error h)
    exact ⟨e, List.mem_append_right _ he, h⟩

/-- A passage fails with its matches or with the text that these form. -/
theorem reason_of_passageAt {head : RuleHead}
    (h : passageAt (Tools.direct split) t head k = .error fault) :
    (∃ e ∈ head.expressions, Uncompiled e fault) ∨
      ∃ cut, split = some cut ∧ Refused t cut head k fault := by
  rcases bind_eq_error h with h | ⟨ms, hms, h⟩
  · exact .inl (uncompiled_of_matchesAt h)
  · obtain ⟨hblock, hmatches⟩ := matches_of_matchesAt hms
    unfold passageOf at h
    cases split with
    | none => cases h
    | some cut =>
      simp only [Tools.direct, Option.map_some] at h
      split at h
      · cases h
      · next hsome =>
        obtain ⟨reason, hreason, rfl⟩ := mapError_eq_error (map_eq_error h)
        rw [← blockText_eq hmatches] at hreason
        refine .inr ⟨cut, rfl, .mk hblock (fun hnone => ?_) hreason⟩
        rw [hnone] at hmatches
        exact hsome (List.isEmpty_iff.mpr hmatches)

theorem Selects.isElement {elements : List Nat} (h : Selects t k e elements) {i : Nat}
    (hi : i ∈ elements) : t.isElement i = true := by
  rcases h with ⟨-, -, hmem⟩ | ⟨-, -, -, hmem⟩
  · exact ((hmem i).mp hi).2
  · exact ((hmem i).mp hi).2

/-- The units of a rule fail with an expression of the rule itself or with what one of its elements
holds. -/
theorem reason_of_unitsOver {head : RuleHead}
    {held : Nat → Except ExtractionError (List (TextUnit Passage) × List Passage)}
    (h : unitsOver (Tools.direct split) t head held k = .error fault) :
    (∃ e ∈ head.expressions, Uncompiled e fault) ∨
      ∃ i, t.isElement i = true ∧ held i = .error fault := by
  obtain ⟨e, he, h⟩ := gather_eq_error h
  rcases bind_eq_error h with h | ⟨elements, helements, h⟩
  · exact .inl ⟨e, List.mem_append_left _ he, uncompiled_of_elementsUnder h⟩
  · obtain ⟨i, hi, h⟩ := gather_eq_error h
    rcases bind_eq_error h with h | ⟨metadata, -, h⟩
    · obtain ⟨e, he, h⟩ := uncompiled_of_metadataAt h
      exact .inl ⟨e, List.mem_append_right _ he, h⟩
    · rcases bind_eq_error h with h | ⟨_, -, h⟩
      · exact .inr ⟨i, (selects_of_elementsUnder helements).isElement hi, h⟩
      · cases h

/-- What a rule makes at an element of the rule above it fails. -/
def Rule.FailsAt (split : Option Tokenizer) (t : Tree) (k : Nat) (fault : ExtractionError) :
    Rule → Prop
  | .terminal head => passageAt (Tools.direct split) t head k = .error fault
  | .nested head rules => unitsUnder (Tools.direct split) t (.nested head rules) k = .error fault

/-- What an element holds fails with one of the rules. -/
theorem failsAt_of_heldAt {rules : List Rule}
    (h : heldAt (Tools.direct split) t rules k = .error fault) :
    ∃ r ∈ rules, r.FailsAt split t k fault := by
  induction rules with
  | nil =>
    rw [heldAt] at h
    cases h
  | cons r rules ih =>
    have hfirst : r.FailsAt split t k fault ∨
        heldAt (Tools.direct split) t rules k = .error fault := by
      cases r with
      | terminal head =>
        rw [heldAt] at h
        refine (bind_eq_error h).imp_right ?_
        rintro ⟨passage, -, h⟩
        rcases bind_eq_error h with h | ⟨_, -, h⟩
        · exact h
        · cases h
      | nested head inner =>
        rw [heldAt] at h
        refine (bind_eq_error h).imp_right ?_
        rintro ⟨first, -, h⟩
        rcases bind_eq_error h with h | ⟨_, -, h⟩
        · exact h
        · cases h
    rcases hfirst with h | h
    · exact ⟨r, List.mem_cons_self, h⟩
    · obtain ⟨s, hs, h⟩ := ih h
      exact ⟨s, List.mem_cons_of_mem r hs, h⟩

/-- A rule fails for one of its reasons. -/
theorem failsFor_of_unitsUnder (rule : Rule) : ∀ {k : Nat},
    unitsUnder (Tools.direct split) t rule k = .error fault → rule.FailsFor t split fault := by
  induction rule using Rule.induct with
  | h rule ih =>
    intro k hrun
    rw [unitsUnder_eq] at hrun
    rcases reason_of_unitsOver hrun with ⟨e, he, huncompiled⟩ | ⟨i, hi, hheld⟩
    · exact .expression (Rule.mem_expressions_of_head he) huncompiled
    · obtain ⟨r, hr, hfails⟩ := failsAt_of_heldAt hheld
      cases r with
      | terminal head =>
        rcases reason_of_passageAt hfails with ⟨e, he, huncompiled⟩ | ⟨cut, hcuts, hrefused⟩
        · have hoccurs := Rule.mem_expressions_of_unit hr (Rule.mem_expressions_of_head he)
          exact .expression hoccurs huncompiled
        · exact .block hcuts (.single hr) rfl hi hrefused
      | nested head rules => exact (ih _ hr hfails).of_unit hr

end Extraction

/-! ### Documents -/

namespace Extractor

theorem split_eq_some_iff {x : Extractor} {cut : Tokenizer} :
    x.split = some cut ↔ x.tokenize = true ∧ x.tokenizer = cut := by
  unfold split
  cases x.tokenize <;> simp

/-- Extraction from an XML document succeeds if all expressions of the grammar that are not blank
compile and the tokenizer refuses nothing.  Where it fails, one of these expressions does not
compile and the error says so, or texts are cut and the tokenizer refuses the block of a terminal
rule that matches something at an element, for the reason in the error. -/
theorem fails_only_for_reason (x : Extractor) {text : String} {t : Tree}
    (hread : Xml.read? text = some t) :
    ((∀ e ∈ x.grammar.expressions, XPath.isSelf e = false → ∃ ex, XPath.compile e = .ok ex) →
      (∀ s, ∃ pieces, x.tokenizer s = .ok pieces) → ∃ ds, x.extract text = .ok ds) ∧
      ∀ fault, x.extract text = .error fault → x.grammar.FailsFor t x.split fault := by
  have hreason : ∀ fault, x.extract text = .error fault →
      x.grammar.FailsFor t x.split fault := by
    intro fault hrun
    simp only [extract, hread] at hrun
    exact failsFor_of_unitsUnder x.grammar (map_eq_error (show _ <$> x.unitsOf t = _ from hrun))
  refine ⟨fun hcompile hcut => ?_, hreason⟩
  cases hrun : x.extract text with
  | ok ds => exact ⟨ds, rfl⟩
  | error fault =>
    exfalso
    rcases hreason fault hrun with ⟨hoccurs, ⟨hblank, hinvalid⟩⟩ |
      ⟨hcuts, -, -, -, ⟨-, -, hrefuses⟩⟩
    · obtain ⟨ex, hex⟩ := hcompile _ hoccurs hblank
      cases hinvalid.symm.trans hex
    · obtain ⟨-, rfl⟩ := split_eq_some_iff.mp hcuts
      obtain ⟨pieces, hpieces⟩ := hcut _
      cases hrefuses.symm.trans hpieces

/-- An element whose text is refused, so that extraction fails with a tokenizer that refuses blank
texts and ends with one that refuses nothing. -/
theorem fails_only_for_reason_blank :
    let cut : Tokenizer := fun text => if text = "\n" then .error "blank" else .ok [text]
    let grammar := Rule.nested ⟨"doc", ["//doc"], []⟩ [.terminal ⟨"sentence", ["s"], []⟩]
    ∃ t, Xml.read? "<doc><s> </s></doc>" = some t ∧
      extract ⟨grammar, cut, true⟩ "<doc><s> </s></doc>" = .error (.refused "blank") ∧
      grammar.FailsFor t (some cut) (.refused "blank") ∧
      ∃ ds, extract ⟨grammar, .punctuation, true⟩ "<doc><s> </s></doc>" = .ok ds := by
  intro cut grammar
  have hread : (Xml.read? "<doc><s> </s></doc>").isSome = true := by decide +kernel
  obtain ⟨t, ht⟩ := Option.isSome_iff_exists.mp hread
  have hrun : List.length <$> extract ⟨grammar, cut, true⟩ "<doc><s> </s></doc>" =
      .error (.refused "blank") := by decide +kernel
  have hcompiled : ∀ e ∈ grammar.expressions, (fun _ => ()) <$> XPath.compile e = .ok () := by
    decide +kernel
  refine ⟨t, ht, map_eq_error hrun, ?_, ?_⟩
  · exact (fails_only_for_reason ⟨grammar, cut, true⟩ ht).2 _ (map_eq_error hrun)
  · refine (fails_only_for_reason ⟨grammar, .punctuation, true⟩ ht).1 ?_ fun s => ⟨_, rfl⟩
    intro e he _
    obtain ⟨ex, hex, -⟩ := map_eq_ok (hcompiled e he)
    exact ⟨ex, hex⟩

end Extractor

end XmlHarvest

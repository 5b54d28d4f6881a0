/-
The JSON texts that write a grammar, and the grammar that they write.

`Rule.WrittenAt` says by rules which values write which grammar rule, without reading them: every
field may be missing, the rules below a terminal rule have the shape of rules as well, and a rule is
terminal when its name contains `sentence`.  A text is accepted when its value writes a rule and
gives the two fields that the root must have (`Rule.ReadsAs`).
-/
import XmlHarvest.Grammar.Reader
import XmlHarvest.Proofs.Harvest.Yield
import XmlHarvest.Proofs.Json.Grammar
import XmlHarvest.Proofs.Json.Records

namespace XmlHarvest

open Json (Value)
open Json.Value (IsList IsText)

/-! ### Values that write rules -/

/-- The fields of a metadata rule. -/
def MetadataRule.fieldNames : List String := ["xpaths", "attr", "propertyName"]

/-- The fields of a rule. -/
def Rule.fieldNames : List String := ["structureName", "xpaths", "metadata", "units"]

/-- The value writes the metadata rule; `level` arrays and objects are open around it. -/
structure MetadataRule.WrittenAt (level : Nat) (v : Value) (r : MetadataRule) : Prop where
  within : level < Json.maxDepth
  record : v.IsRecord fieldNames 0
  xpaths : v.Says fieldNames "xpaths" false (IsList (level + 1) IsText) [] r.xpaths
  attr : v.Says fieldNames "attr" true (fun w a => ∃ s, IsText w s ∧ a = some s) none r.attr
  propertyName : v.Says fieldNames "propertyName" false IsText "" r.propertyName

/-- The value writes a rule whose name, expressions and metadata are these.  Written as an array, a
rule has at least its name and its expressions. -/
structure RuleHead.WrittenAt (level : Nat) (v : Value) (head : RuleHead) : Prop where
  within : level < Json.maxDepth
  record : v.IsRecord Rule.fieldNames 2
  name : v.Says Rule.fieldNames "structureName" true IsText "" head.name
  xpaths : v.Says Rule.fieldNames "xpaths" true (IsList (level + 1) IsText) [] head.xpaths
  metadata : v.Says Rule.fieldNames "metadata" false
    (IsList (level + 1) (MetadataRule.WrittenAt (level + 2))) [] head.metadata

mutual

/-- The value writes the rule.  The rules that are written below a terminal rule are dropped. -/
inductive Rule.WrittenAt : Nat → Value → Rule → Prop
  | terminal {level : Nat} {v : Value} {head : RuleHead} {units : List Rule}
      (hhead : head.WrittenAt level v) (hunits : Rule.UnitsWrittenAt level v units)
      (hmarked : "sentence".toList <:+: head.name.toList) :
      Rule.WrittenAt level v (.terminal head)
  | nested {level : Nat} {v : Value} {head : RuleHead} {units : List Rule}
      (hhead : head.WrittenAt level v) (hunits : Rule.UnitsWrittenAt level v units)
      (hunmarked : ¬"sentence".toList <:+: head.name.toList) :
      Rule.WrittenAt level v (.nested head units)

/-- The value of a rule declares these rules below it. -/
inductive Rule.UnitsWrittenAt : Nat → Value → List Rule → Prop
  | missing {level : Nat} {v : Value} (h : ∀ w, ¬v.HasField Rule.fieldNames "units" w) :
      Rule.UnitsWrittenAt level v []
  | given {level : Nat} {v : Value} {vs : List Value} {rules : List Rule}
      (h : v.HasField Rule.fieldNames "units" (.array vs)) (hlevel : level + 1 < Json.maxDepth)
      (hrules : Rule.AllWrittenAt (level + 2) vs rules) : Rule.UnitsWrittenAt level v rules

/-- Each value writes the rule in its place. -/
inductive Rule.AllWrittenAt : Nat → List Value → List Rule → Prop
  | nil {level : Nat} : Rule.AllWrittenAt level [] []
  | cons {level : Nat} {v : Value} {vs : List Value} {rule : Rule} {rules : List Rule}
      (h : Rule.WrittenAt level v rule) (hrules : Rule.AllWrittenAt level vs rules) :
      Rule.AllWrittenAt level (v :: vs) (rule :: rules)

end

/-! ### Metadata rules -/

variable {v : Value} {level room : Nat}

theorem Json.Value.texts?_eq_some (hroom : level + room = Json.maxDepth) {ss : List String} :
    v.texts? room = some ss ↔ IsList level IsText v ss := by
  rw [Value.texts?, Value.list?_eq_some_iff hroom]
  simp only [Value.text?_eq_some]

/-- A metadata rule is read field by field. -/
theorem MetadataRule.ofJson?_of_fields {xpaths attr name : Option Value} {r : MetadataRule}
    (h : v.fields? fieldNames 0 = some [xpaths, attr, name]) :
    MetadataRule.ofJson? (room + 1) v = some r ↔
      Json.fieldOr [] (Value.texts? room) xpaths = some r.xpaths ∧
        Json.fieldOr none (Value.nullable? Value.text?) attr = some r.attr ∧
        Json.fieldOr "" Value.text? name = some r.propertyName := by
  obtain ⟨_, _, _⟩ := r
  unfold fieldNames at h
  simp only [MetadataRule.ofJson?, h, Option.bind_eq_bind, Option.bind_some,
    Option.bind_eq_some_iff, Option.pure_def, Option.some_inj, MetadataRule.mk.injEq]
  constructor
  · rintro ⟨_, hxpaths, _, hattr, _, hname, rfl, rfl, rfl⟩
    exact ⟨hxpaths, hattr, hname⟩
  · rintro ⟨hxpaths, hattr, hname⟩
    exact ⟨_, hxpaths, _, hattr, _, hname, rfl, rfl, rfl⟩

/-- A metadata rule is read of the values that write it, and of no others. -/
theorem MetadataRule.ofJson?_eq_some (hroom : level + room = Json.maxDepth) {r : MetadataRule} :
    MetadataRule.ofJson? room v = some r ↔ r.WrittenAt level v := by
  cases room with
  | zero => exact ⟨nofun, fun h => absurd h.within (by omega)⟩
  | succ room =>
    by_cases hrecord : v.IsRecord fieldNames 0
    · obtain ⟨fs, hfs⟩ := Json.exists_fields?_iff.mpr hrecord
      obtain _ | ⟨hxpaths, _ | ⟨hattr, _ | ⟨hname, _ | _⟩⟩⟩ :=
        Json.forall₂_fields? (by decide) hfs
      rw [ofJson?_of_fields hfs, Json.fieldOr_eq_some hxpaths,
        Json.fieldOr_nullable_eq_some rfl hattr, Json.fieldOr_eq_some hname]
      have hlevel : level + 1 + room = Json.maxDepth := by omega
      simp only [Json.Value.texts?_eq_some hlevel, Value.text?_eq_some]
      exact ⟨fun ⟨hxpaths, hattr, hname⟩ => ⟨by omega, hrecord, hxpaths, hattr, hname⟩,
        fun h => ⟨h.xpaths, h.attr, h.propertyName⟩⟩
    · refine ⟨fun h => ?_, fun h => absurd h.record hrecord⟩
      obtain ⟨fs, hfs, -⟩ := Option.bind_eq_some_iff.mp h
      exact absurd (Json.exists_fields?_iff.mp ⟨fs, hfs⟩) hrecord

/-! ### Rules -/

/-- The rules that are read below a rule. -/
def RuleDraft.ofJsonBelow? (room : Nat) (v : Value) : Option RuleDraft :=
  match room with
  | 0 => none
  | inner + 1 => RuleDraft.ofJson? inner v

/-- A rule is read field by field. -/
theorem RuleDraft.ofJson?_of_fields {name xpaths metadata units : Option Value} {d : RuleDraft}
    (h : v.fields? Rule.fieldNames 2 = some [name, xpaths, metadata, units]) :
    RuleDraft.ofJson? (room + 1) v = some d ↔
      Json.fieldOr none (Value.nullable? Value.text?) name = some d.name ∧
        Json.fieldOr none (Value.nullable? (Value.texts? room)) xpaths = some d.xpaths ∧
        Json.fieldOr [] (Value.list? room (MetadataRule.ofJson? (room - 1))) metadata =
          some d.metadata ∧
        Json.fieldOr [] (Value.list? room (RuleDraft.ofJsonBelow? room)) units = some d.units := by
  obtain ⟨_, _, _, _⟩ := d
  unfold Rule.fieldNames at h
  simp only [RuleDraft.ofJson?, h, Option.bind_eq_bind, Option.bind_some,
    Option.bind_eq_some_iff, Option.pure_def, Option.some_inj, RuleDraft.mk.injEq]
  constructor
  · rintro ⟨_, hname, _, hxpaths, _, hmetadata, _, hunits, rfl, rfl, rfl, rfl⟩
    exact ⟨hname, hxpaths, hmetadata, hunits⟩
  · rintro ⟨hname, hxpaths, hmetadata, hunits⟩
    exact ⟨_, hname, _, hxpaths, _, hmetadata, _, hunits, rfl, rfl, rfl, rfl⟩

/-- The metadata rules of a rule are read of the values that write them. -/
theorem Json.Value.list?_metadata (hroom : level + room = Json.maxDepth) {w : Value}
    {rs : List MetadataRule} :
    w.list? room (MetadataRule.ofJson? (room - 1)) = some rs ↔
      IsList level (MetadataRule.WrittenAt (level + 1)) w rs := by
  rw [Value.list?_eq_some_iff hroom]
  cases room with
  | zero =>
    -- No list is open any more.
    refine ⟨fun ⟨hlevel, _⟩ => ?_, fun ⟨hlevel, _⟩ => ?_⟩
    · omega
    · omega
  | succ room =>
    have hlevel : level + 1 + room = Json.maxDepth := by omega
    simp only [Nat.add_sub_cancel, MetadataRule.ofJson?_eq_some hlevel]

namespace Rule

theorem allWrittenAt_iff {vs : List Value} {rules : List Rule} :
    AllWrittenAt level vs rules ↔ List.Forall₂ (fun v r => r.WrittenAt level v) vs rules := by
  constructor
  · intro h
    induction vs generalizing rules with
    | nil =>
      cases h
      exact .nil
    | cons v vs ih =>
      cases h with
      | cons h hrules => exact .cons h (ih hrules)
  · intro h
    induction h with
    | nil => exact .nil
    | cons h _ ih => exact .cons h ih

/-- A rule consists of its head and, unless the name marks it as terminal, of the rules that are
written below it. -/
theorem writtenAt_iff {rule : Rule} :
    rule.WrittenAt level v ↔ ∃ (head : RuleHead) (units : List Rule), head.WrittenAt level v ∧
      UnitsWrittenAt level v units ∧
      rule = if marksTerminal head.name then .terminal head else .nested head units := by
  have hmarks : ∀ name : String,
      marksTerminal name = true ↔ "sentence".toList <:+: name.toList := fun _ => Text.occursIn_iff
  constructor
  · intro h
    cases h with
    | terminal hhead hunits hmarked =>
      exact ⟨_, _, hhead, hunits, (if_pos ((hmarks _).mpr hmarked)).symm⟩
    | nested hhead hunits hunmarked =>
      exact ⟨_, _, hhead, hunits, (if_neg fun h => hunmarked ((hmarks _).mp h)).symm⟩
  · rintro ⟨head, units, hhead, hunits, rfl⟩
    split
    next hmarked => exact .terminal hhead hunits ((hmarks _).mp hmarked)
    next hunmarked => exact .nested hhead hunits fun h => hunmarked ((hmarks _).mpr h)

theorem WrittenAt.within {rule : Rule} (h : rule.WrittenAt level v) : level < Json.maxDepth := by
  obtain ⟨head, -, hhead, -⟩ := writtenAt_iff.mp h
  exact hhead.within

end Rule

namespace RuleDraft

/-- The rules below a rule are those that the drafts in the list of its units stand for. -/
theorem exists_units_iff (hroom : level + 1 + room = Json.maxDepth) {units : List Rule}
    (hbelow : ∀ u r, (∃ d, ofJsonBelow? room u = some d ∧ d.rule = r) ↔ r.WrittenAt (level + 2) u) :
    (∃ ds : List RuleDraft, v.Says Rule.fieldNames "units" false
        (fun w ds => w.list? room (ofJsonBelow? room) = some ds) [] ds ∧ ds.map rule = units) ↔
      Rule.UnitsWrittenAt level v units := by
  have hall : ∀ (us : List Value) (rules : List Rule),
      (∃ ds, List.Forall₂ (fun u d => ofJsonBelow? room u = some d) us ds ∧ ds.map rule = rules) ↔
        Rule.AllWrittenAt (level + 2) us rules := by
    intro us rules
    rw [Rule.allWrittenAt_iff, Json.exists_forall₂_map_iff]
    simp only [hbelow]
  simp only [Value.list?_eq_some_iff hroom]
  constructor
  · rintro ⟨ds, h, rfl⟩
    cases h with
    | missing h => exact .missing h
    | null hnull => cases hnull
    | given h hds =>
      obtain ⟨hlevel, hds⟩ := hds
      exact .given h hlevel ((hall _ _).mp ⟨ds, hds, rfl⟩)
  · intro h
    cases h with
    | missing h => exact ⟨[], .missing h, rfl⟩
    | given h hlevel hrules =>
      obtain ⟨ds, hds, hmap⟩ := (hall _ _).mpr hrules
      exact ⟨ds, .given h (.array hlevel hds), hmap⟩

/-- What a draft that is read says is what the fields of its value say. -/
theorem ofJson?_succ_iff (hroom : level + 1 + room = Json.maxDepth) {d : RuleDraft} :
    RuleDraft.ofJson? (room + 1) v = some d ↔
      v.IsRecord Rule.fieldNames 2 ∧
        v.Says Rule.fieldNames "structureName" true (fun w o => ∃ s, IsText w s ∧ o = some s) none
          d.name ∧
        v.Says Rule.fieldNames "xpaths" true
          (fun w o => ∃ ss, IsList (level + 1) IsText w ss ∧ o = some ss) none d.xpaths ∧
        v.Says Rule.fieldNames "metadata" false
          (IsList (level + 1) (MetadataRule.WrittenAt (level + 2))) [] d.metadata ∧
        v.Says Rule.fieldNames "units" false
          (fun w ds => w.list? room (ofJsonBelow? room) = some ds) [] d.units := by
  by_cases hrecord : v.IsRecord Rule.fieldNames 2
  · obtain ⟨fs, hfs⟩ := Json.exists_fields?_iff.mpr hrecord
    obtain _ | ⟨hname, _ | ⟨hxpaths, _ | ⟨hmetadata, _ | ⟨hunits, _ | _⟩⟩⟩⟩ :=
      Json.forall₂_fields? (by decide) hfs
    have hnull : Value.texts? room .null = none := rfl
    rw [RuleDraft.ofJson?_of_fields hfs, Json.fieldOr_nullable_eq_some rfl hname,
      Json.fieldOr_nullable_eq_some hnull hxpaths, Json.fieldOr_eq_some hmetadata,
      Json.fieldOr_eq_some hunits, and_iff_right hrecord]
    simp only [Value.text?_eq_some, Json.Value.texts?_eq_some hroom,
      Json.Value.list?_metadata hroom]
  · refine ⟨fun hd => ?_, fun h => absurd h.1 hrecord⟩
    rw [RuleDraft.ofJson?] at hd
    obtain ⟨fs, hfs, -⟩ := Option.bind_eq_some_iff.mp hd
    exact absurd (Json.exists_fields?_iff.mp ⟨fs, hfs⟩) hrecord

/-- It has a name and expressions where they are given. -/
theorem isSome_iff_gives {d : RuleDraft} (h : RuleDraft.ofJson? room v = some d) :
    (d.name.isSome = true ↔ v.Gives Rule.fieldNames "structureName") ∧
      (d.xpaths.isSome = true ↔ v.Gives Rule.fieldNames "xpaths") := by
  cases room with
  | zero =>
    rw [RuleDraft.ofJson?] at h
    cases h
  | succ room =>
    obtain ⟨fs, hfs, -⟩ : ∃ fs, v.fields? Rule.fieldNames 2 = some fs ∧ _ := by
      rw [RuleDraft.ofJson?] at h
      exact Option.bind_eq_some_iff.mp h
    obtain _ | ⟨hname, _ | ⟨hxpaths, _ | ⟨hmetadata, _ | ⟨hunits, _ | _⟩⟩⟩⟩ :=
      Json.forall₂_fields? (by decide) hfs
    obtain ⟨hname', hxpaths', -⟩ := (RuleDraft.ofJson?_of_fields hfs).mp h
    exact ⟨Json.isSome_iff_gives rfl hname hname', Json.isSome_iff_gives rfl hxpaths hxpaths'⟩

/-- A rule is read of the values that write it, and of no others. -/
theorem exists_ofJson?_iff (hroom : level + room = Json.maxDepth) {rule : Rule} :
    (∃ d, RuleDraft.ofJson? room v = some d ∧ d.rule = rule) ↔ rule.WrittenAt level v := by
  -- The rules below a rule stand two levels further down: one for their list, one for each.
  induction room using Nat.strongRecOn generalizing level v rule with
  | ind room ih =>
    cases room with
    | zero =>
      constructor
      · rintro ⟨d, hd, -⟩
        rw [RuleDraft.ofJson?] at hd
        cases hd
      · exact fun h => absurd h.within (by omega)
    | succ room =>
      have hlevel : level + 1 + room = Json.maxDepth := by omega
      have hbelow : ∀ u r, (∃ d, ofJsonBelow? room u = some d ∧ d.rule = r) ↔
          r.WrittenAt (level + 2) u := by
        intro u r
        cases room with
        | zero =>
          constructor
          · rintro ⟨d, hd, -⟩
            cases hd
          · exact fun h => absurd h.within (by omega)
        | succ inner => exact ih inner (by omega) (by omega)
      rw [Rule.writtenAt_iff]
      constructor
      · rintro ⟨d, hd, rfl⟩
        obtain ⟨hrecord, hname, hxpaths, hmetadata, hunits⟩ := (ofJson?_succ_iff hlevel).mp hd
        refine ⟨d.rule.head, d.units.map rule, ?_, ?_, ?_⟩
        · rw [d.head_rule]
          exact ⟨by omega, hrecord, Value.says_getD.mp ⟨_, hname, rfl⟩,
            Value.says_getD.mp ⟨_, hxpaths, rfl⟩, hmetadata⟩
        · exact (exists_units_iff hlevel hbelow).mp ⟨d.units, hunits, rfl⟩
        · rw [d.head_rule, ← rules_eq_map]
          obtain ⟨name, xpaths, metadata, units⟩ := d
          rw [rule]
      · rintro ⟨head, units, hhead, hunits, rfl⟩
        obtain ⟨name, hname, hname'⟩ := Value.says_getD.mpr hhead.name
        obtain ⟨xpaths, hxpaths, hxpaths'⟩ := Value.says_getD.mpr hhead.xpaths
        obtain ⟨ds, hds, rfl⟩ := (exists_units_iff hlevel hbelow).mpr hunits
        refine ⟨⟨name, xpaths, head.metadata, ds⟩, ?_, ?_⟩
        · exact (ofJson?_succ_iff hlevel).mpr
            ⟨hhead.record, hname, hxpaths, hhead.metadata, hds⟩
        · rw [rule, rules_eq_map, hname', hxpaths']

end RuleDraft

/-! ### Texts -/

/-- What a text comes to as a grammar: its value writes no rule; or it does, but the root is not
given its name; or it is, but no expressions; or it is given both. -/
inductive Rule.ReadsAs (text : String) : Except GrammarError Rule → Prop
  | malformed (h : ∀ (v : Value) (rule : Rule), v.WrittenAs text → ¬rule.WrittenAt 0 v) :
      ReadsAs text (.error .malformed)
  | noName {v : Value} {rule : Rule} (hvalue : v.WrittenAs text)
      (hwritten : rule.WrittenAt 0 v) (hname : ¬v.Gives fieldNames "structureName") :
      ReadsAs text (.error (.missingField "structureName"))
  | noXpaths {v : Value} {rule : Rule} (hvalue : v.WrittenAs text)
      (hwritten : rule.WrittenAt 0 v) (hname : v.Gives fieldNames "structureName")
      (hxpaths : ¬v.Gives fieldNames "xpaths") : ReadsAs text (.error (.missingField "xpaths"))
  | accepted {v : Value} {rule : Rule} (hvalue : v.WrittenAs text)
      (hwritten : rule.WrittenAt 0 v) (hname : v.Gives fieldNames "structureName")
      (hxpaths : v.Gives fieldNames "xpaths") : ReadsAs text (.ok rule)

namespace Rule

variable {text : String}

/-- Nothing but the value of the text matters. -/
theorem read_of_written {rule : Rule} (hvalue : v.WrittenAs text)
    (hwritten : rule.WrittenAt 0 v) :
    ∃ d : RuleDraft, d.rule = rule ∧
      (d.name.isNone = true ↔ ¬v.Gives fieldNames "structureName") ∧
      (d.xpaths.isNone = true ↔ ¬v.Gives fieldNames "xpaths") ∧
      Rule.read text =
        if d.name.isNone then .error (.missingField "structureName")
        else if d.xpaths.isNone then .error (.missingField "xpaths")
        else .ok d.rule := by
  obtain ⟨d, hd, hrule⟩ := (RuleDraft.exists_ofJson?_iff (Nat.zero_add _)).mpr hwritten
  obtain ⟨hname, hxpaths⟩ := RuleDraft.isSome_iff_gives hd
  refine ⟨d, hrule, ?_, ?_, ?_⟩
  · rw [← hname, Option.not_isSome_iff_eq_none, Option.isNone_iff_eq_none]
  · rw [← hxpaths, Option.not_isSome_iff_eq_none, Option.isNone_iff_eq_none]
  · rw [Rule.read, Value.read?_eq_some.mpr hvalue, Option.bind_some, hd]

theorem read_of_unwritten
    (h : ∀ (v : Value) (rule : Rule), v.WrittenAs text → ¬rule.WrittenAt 0 v) :
    Rule.read text = .error .malformed := by
  have hnone : (Value.read? text).bind (RuleDraft.ofJson? Json.maxDepth) = none := by
    rw [Option.bind_eq_none_iff]
    intro v hvalue
    rw [Option.eq_none_iff_forall_ne_some]
    intro d hd
    exact h v d.rule (Value.read?_eq_some.mp hvalue)
      ((RuleDraft.exists_ofJson?_iff (Nat.zero_add _)).mp ⟨d, hd, rfl⟩)
  rw [Rule.read, hnone]

/-- A JSON text is accepted as a grammar when its value writes a rule and gives the root its name
and its expressions, and the grammar is the rule that it writes.  Every text of another shape is
malformed, whatever its root lacks; of what the root may lack the name comes first. -/
theorem read_eq_iff (text : String) (result : Except GrammarError Rule) :
    Rule.read text = result ↔ ReadsAs text result := by
  constructor
  · rintro rfl
    by_cases h : ∃ v rule, Value.WrittenAs v text ∧ Rule.WrittenAt 0 v rule
    · obtain ⟨v, rule, hvalue, hwritten⟩ := h
      obtain ⟨d, rfl, hname, hxpaths, hread⟩ := read_of_written hvalue hwritten
      rw [hread]
      split
      next hnone => exact .noName hvalue hwritten (hname.mp hnone)
      next hsome =>
        have hgiven := not_not.mp (hname.not.mp hsome)
        split
        next hnone => exact .noXpaths hvalue hwritten hgiven (hxpaths.mp hnone)
        next hsome => exact .accepted hvalue hwritten hgiven (not_not.mp (hxpaths.not.mp hsome))
    · have hunwritten : ∀ (v : Value) (rule : Rule), v.WrittenAs text → ¬rule.WrittenAt 0 v :=
        fun v rule hvalue hwritten => h ⟨v, rule, hvalue, hwritten⟩
      rw [read_of_unwritten hunwritten]
      exact .malformed hunwritten
  · intro h
    cases h with
    | malformed h => exact read_of_unwritten h
    | noName hvalue hwritten hnot =>
      obtain ⟨d, -, hname, -, hread⟩ := read_of_written hvalue hwritten
      rw [hread, if_pos (hname.mpr hnot)]
    | noXpaths hvalue hwritten hgiven hnot =>
      obtain ⟨d, -, hname, hxpaths, hread⟩ := read_of_written hvalue hwritten
      rw [hread, if_neg (hname.not.mpr (not_not.mpr hgiven)), if_pos (hxpaths.mpr hnot)]
    | accepted hvalue hwritten hgiven hgiven' =>
      obtain ⟨d, rfl, hname, hxpaths, hread⟩ := read_of_written hvalue hwritten
      rw [hread, if_neg (hname.not.mpr (not_not.mpr hgiven)),
        if_neg (hxpaths.not.mpr (not_not.mpr hgiven'))]

end Rule

end XmlHarvest

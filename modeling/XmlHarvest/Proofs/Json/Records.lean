/-
Records, and what their fields say.

A record is written as an object or as the array of its fields.  `Value.IsRecord` and
`Value.HasField` say this without reading; `Value.Says` says what a field comes to when it may be
missing or `null`.  Reading agrees with them (`fields?_eq_some`, `fieldOr_eq_some`,
`fieldOr_nullable_eq_some`).
-/
import Mathlib.Data.List.Forall2
import Mathlib.Data.List.Nodup
import XmlHarvest.Json.Shape

namespace XmlHarvest.Json

variable {α β : Type}

/-! ### Fields -/

/-- The value has a field of this name with this value: among the members of an object, or in an
array at the place of the name among the names of all fields. -/
inductive Value.HasField (names : List String) : Value → String → Value → Prop
  | member {ms : List (Option String × Value)} {name : String} {w : Value}
      (h : (some name, w) ∈ ms) : HasField names (.object ms) name w
  | item {vs : List Value} {name : String} {w : Value} (i : Nat) (hname : names[i]? = some name)
      (h : vs[i]? = some w) : HasField names (.array vs) name w

/-- The value is an object whose keys have characters and in which no field occurs twice, or an
array of at least the required fields and at most all. -/
inductive Value.IsRecord (names : List String) (required : Nat) : Value → Prop
  | object {ms : List (Option String × Value)} (hkeys : ∀ m ∈ ms, m.1.isSome = true)
      (honce : ∀ name ∈ names, occurrences name ms ≤ 1) : IsRecord names required (.object ms)
  | array {vs : List Value} (hrequired : required ≤ vs.length) (hall : vs.length ≤ names.length) :
      IsRecord names required (.array vs)

/-- What a field of a record says: what its value is for `P`, and the default where the field is
missing, or where it is `null` if it may be. -/
inductive Value.Says (names : List String) (v : Value) (name : String) (nullable : Bool)
    (P : Value → α → Prop) (default : α) : α → Prop
  | missing (h : ∀ w, ¬ v.HasField names name w) : Says names v name nullable P default default
  | null (hnull : nullable = true) (h : v.HasField names name .null) :
      Says names v name nullable P default default
  | given {w : Value} {a : α} (h : v.HasField names name w) (ha : P w a) :
      Says names v name nullable P default a

/-- A field is there and not `null`. -/
def Value.Gives (names : List String) (v : Value) (name : String) : Prop :=
  ∃ w, v.HasField names name w ∧ w ≠ .null

/-! ### Reading them -/

section Lookup

variable {ms : List (Option String × Value)} {name : String} {w : Value}

theorem occurrences_cons (m : Option String × Value) :
    occurrences name (m :: ms) = occurrences name ms + if m.1 = some name then 1 else 0 := by
  simp only [occurrences, List.countP_cons, beq_iff_eq]

theorem occurrences_pos (h : (some name, w) ∈ ms) : 0 < occurrences name ms :=
  List.countP_pos_iff.mpr ⟨_, h, beq_self_eq_true _⟩

/-- Of members with one key at most once, the value that is looked up is the only one. -/
theorem lookup_eq_some_iff (h : occurrences name ms ≤ 1) :
    ms.lookup (some name) = some w ↔ (some name, w) ∈ ms := by
  induction ms with
  | nil => simp
  | cons m ms ih =>
    obtain ⟨key, v⟩ := m
    rw [occurrences_cons] at h
    by_cases hkey : key = some name
    · obtain rfl := hkey
      rw [if_pos rfl] at h
      have hrest : (some name, w) ∉ ms := by
        intro hmem
        have := occurrences_pos hmem
        omega
      rw [List.lookup_cons_self, List.mem_cons, or_iff_left hrest, Option.some_inj,
        Prod.mk.injEq]
      exact ⟨fun heq => ⟨rfl, heq.symm⟩, fun heq => heq.2.symm⟩
    · have hne : (some name == key) = false := by
        rw [beq_eq_false_iff_ne]
        exact Ne.symm hkey
      have hhead : (some name, w) ≠ (key, v) := by
        rintro ⟨⟩
        exact hkey rfl
      rw [List.lookup_cons, hne, List.mem_cons, or_iff_right hhead]
      exact ih (by omega)

end Lookup

section Fields

variable {names : List String} {required : Nat} {v : Value} {fs : List (Option Value)}

theorem fields?_object {ms : List (Option String × Value)} :
    (Value.object ms).fields? names required = some fs ↔
      (Value.object ms).IsRecord names required ∧
        (names.map fun name => ms.lookup (some name)) = fs := by
  have hrecord : (Value.object ms).IsRecord names required ↔
      (∀ m ∈ ms, m.1.isSome = true) ∧ ∀ name ∈ names, occurrences name ms ≤ 1 :=
    ⟨fun h => by cases h with | object hkeys honce => exact ⟨hkeys, honce⟩,
      fun ⟨hkeys, honce⟩ => .object hkeys honce⟩
  rw [Value.fields?, Option.ite_none_right_eq_some, Bool.and_eq_true, List.all_eq_true,
    List.all_eq_true, hrecord, Option.some_inj]
  simp only [decide_eq_true_eq]

theorem fields?_array {vs : List Value} :
    (Value.array vs).fields? names required = some fs ↔
      (Value.array vs).IsRecord names required ∧
        vs.map some ++ List.replicate (names.length - vs.length) none = fs := by
  have hrecord : (Value.array vs).IsRecord names required ↔
      required ≤ vs.length ∧ vs.length ≤ names.length :=
    ⟨fun h => by cases h with | array hrequired hall => exact ⟨hrequired, hall⟩,
      fun ⟨hrequired, hall⟩ => .array hrequired hall⟩
  rw [Value.fields?, Option.ite_none_right_eq_some, Bool.and_eq_true, decide_eq_true_eq,
    decide_eq_true_eq, hrecord, Option.some_inj]

/-- Fields are read of records, and of nothing else. -/
theorem exists_fields?_iff :
    (∃ fs, v.fields? names required = some fs) ↔ v.IsRecord names required := by
  cases v with
  | object ms => simp only [fields?_object, exists_and_left, exists_eq', and_true]
  | array vs => simp only [fields?_array, exists_and_left, exists_eq', and_true]
  | null | bool | number | string =>
    refine ⟨fun ⟨fs, h⟩ => ?_, fun h => ?_⟩
    · cases h
    · cases h

/-- Where the names differ, what is read are the values of the fields. -/
theorem forall₂_fields? (hnames : names.Nodup) (h : v.fields? names required = some fs) :
    List.Forall₂ (fun name field => ∀ w, field = some w ↔ v.HasField names name w) names fs := by
  cases v with
  | object ms =>
    obtain ⟨⟨-, honce⟩, rfl⟩ := fields?_object.mp h
    rw [List.forall₂_map_right_iff, List.forall₂_same]
    intro name hname w
    rw [lookup_eq_some_iff (honce name hname)]
    exact ⟨.member, fun h => by cases h with | member h => exact h⟩
  | array vs =>
    obtain ⟨⟨-, hall⟩, rfl⟩ := fields?_array.mp h
    rw [List.forall₂_iff_get]
    refine ⟨?_, ?_⟩
    · rw [List.length_append, List.length_map, List.length_replicate]
      omega
    · intro i hi hi' w
      -- Past the end of the array the fields are missing.
      have hread : (vs.map some ++ List.replicate (names.length - vs.length) none).get ⟨i, hi'⟩ =
          vs[i]? := by
        by_cases hin : i < vs.length
        · simp [hin]
        · simp [List.getElem_append, hin]
      rw [hread]
      constructor
      · exact fun hw => .item i (List.getElem?_eq_getElem hi) hw
      · intro hfield
        cases hfield with
        | item j hname hw =>
          obtain ⟨hj, hname⟩ := List.getElem?_eq_some_iff.mp hname
          obtain rfl : j = i := (hnames.getElem_inj_iff).mp hname
          exact hw
  | null | bool | number | string => cases h

end Fields

/-! ### What they say -/

section Says

variable {names : List String} {v : Value} {name : String} {field : Option Value} {default a : α}
  {P : Value → α → Prop}

/-- A field that may be missing is read as what it says. -/
theorem fieldOr_eq_some {read : Value → Option α}
    (hfield : ∀ w, field = some w ↔ v.HasField names name w) :
    fieldOr default read field = some a ↔
      v.Says names name false (fun w a => read w = some a) default a := by
  cases field with
  | none =>
    constructor
    · intro h
      obtain rfl : default = a := Option.some.inj h
      exact .missing fun w hw => nomatch (hfield w).mpr hw
    · intro h
      cases h with
      | missing => rfl
      | null hnull => cases hnull
      | given h => cases (hfield _).mpr h
  | some w =>
    constructor
    · exact fun h => .given ((hfield w).mp rfl) h
    · intro h
      cases h with
      | missing h => exact absurd ((hfield w).mp rfl) (h w)
      | null hnull => cases hnull
      | given h ha =>
        obtain rfl := Option.some.inj ((hfield _).mpr h)
        exact ha

theorem Value.nullable?_eq_some_iff {read : Value → Option α} (hnull : read .null = none)
    {w : Value} {o : Option α} : w.nullable? read = some o ↔
      w = .null ∧ o = none ∨ ∃ a, read w = some a ∧ o = some a := by
  unfold Value.nullable?
  split
  · simp [hnull, eq_comm]
  · next hw =>
    rw [Option.map_eq_some_iff]
    constructor
    · exact fun ⟨a, ha, heq⟩ => .inr ⟨a, ha, heq.symm⟩
    · rintro (⟨rfl, -⟩ | ⟨a, ha, heq⟩)
      · exact absurd rfl hw
      · exact ⟨a, ha, heq.symm⟩

/-- So is one that may be `null` as well, which is to say nothing. -/
theorem fieldOr_nullable_eq_some {read : Value → Option α} {o : Option α}
    (hnull : read .null = none) (hfield : ∀ w, field = some w ↔ v.HasField names name w) :
    fieldOr none (Value.nullable? read) field = some o ↔
      v.Says names name true (fun w o => ∃ a, read w = some a ∧ o = some a) none o := by
  rw [fieldOr_eq_some hfield]
  constructor
  · intro h
    cases h with
    | missing h => exact .missing h
    | null hnot => cases hnot
    | given h ho =>
      rcases (Value.nullable?_eq_some_iff hnull).mp ho with ⟨rfl, rfl⟩ | ho
      · exact .null rfl h
      · exact .given h ho
  · intro h
    cases h with
    | missing h => exact .missing h
    | null _ h => exact .given h rfl
    | given h ho => exact .given h ((Value.nullable?_eq_some_iff hnull).mpr (.inr ho))

/-- It says something where it is there and not `null`. -/
theorem isSome_iff_gives {read : Value → Option α} {o : Option α} (hnull : read .null = none)
    (hfield : ∀ w, field = some w ↔ v.HasField names name w)
    (h : fieldOr none (Value.nullable? read) field = some o) :
    o.isSome = true ↔ v.Gives names name := by
  cases field with
  | none =>
    obtain rfl : none = o := Option.some.inj h
    refine ⟨nofun, ?_⟩
    rintro ⟨w, hw, -⟩
    cases (hfield w).mpr hw
  | some w =>
    have hgives : v.Gives names name ↔ w ≠ .null := by
      constructor
      · rintro ⟨w', hw', hne⟩
        obtain rfl := Option.some.inj ((hfield w').mpr hw')
        exact hne
      · exact fun hne => ⟨w, (hfield w).mp rfl, hne⟩
    rw [hgives]
    rcases (Value.nullable?_eq_some_iff hnull).mp h with ⟨rfl, rfl⟩ | ⟨a, ha, rfl⟩
    · simp
    · refine ⟨?_, fun _ => rfl⟩
      rintro - rfl
      cases hnull.symm.trans ha

/-- What a field says when nothing stands for the default. -/
theorem Value.says_getD : (∃ o, v.Says names name true (fun w o => ∃ a, P w a ∧ o = some a) none o ∧
    o.getD default = a) ↔ v.Says names name true P default a := by
  constructor
  · rintro ⟨o, h, rfl⟩
    cases h with
    | missing h => exact .missing h
    | null _ h => exact .null rfl h
    | given h ho =>
      obtain ⟨a, ha, rfl⟩ := ho
      exact .given h ha
  · intro h
    cases h with
    | missing h => exact ⟨none, .missing h, rfl⟩
    | null _ h => exact ⟨none, .null rfl h, rfl⟩
    | given h ha => exact ⟨some a, .given h ⟨a, ha, rfl⟩, rfl⟩

end Says

/-! ### Texts and lists -/

/-- The value is a list whose items are so; `level` arrays and objects are open around it. -/
inductive Value.IsList (level : Nat) (P : Value → α → Prop) : Value → List α → Prop
  | array {vs : List Value} {as : List α} (hlevel : level < maxDepth) (h : List.Forall₂ P vs as) :
      IsList level P (.array vs) as

/-- The value is a text. -/
def Value.IsText (v : Value) (s : String) : Prop := v = .ofText s

theorem Value.text?_eq_some {v : Value} {s : String} : v.text? = some s ↔ v.IsText s := by
  unfold Value.text? Value.IsText Value.ofText
  split
  · rw [Value.string.injEq]
  · next hv => exact ⟨nofun, fun h => absurd h (hv _)⟩

theorem mapM_eq_some_iff {read : α → Option β} {xs : List α} {ys : List β} :
    xs.mapM read = some ys ↔ List.Forall₂ (fun x y => read x = some y) xs ys := by
  induction xs generalizing ys with
  | nil => cases ys <;> simp
  | cons x xs ih =>
    rw [List.mapM_cons, Option.bind_eq_bind, Option.bind_eq_some_iff, List.forall₂_cons_left_iff]
    refine exists_congr fun y => ?_
    rw [Option.bind_eq_bind, Option.bind_eq_some_iff]
    simp only [ih, Option.pure_def, Option.some_inj, eq_comm (b := ys), exists_and_left]

theorem exists_forall₂_map_iff {γ : Type} {R : α → β → Prop} {f : β → γ} {xs : List α}
    {zs : List γ} : (∃ ys, List.Forall₂ R xs ys ∧ ys.map f = zs) ↔
      List.Forall₂ (fun x z => ∃ y, R x y ∧ f y = z) xs zs := by
  constructor
  · rintro ⟨ys, h, rfl⟩
    rw [List.forall₂_map_right_iff]
    exact h.imp fun _ y hy => ⟨y, hy, rfl⟩
  · intro h
    induction h with
    | nil => exact ⟨[], .nil, rfl⟩
    | cons hhead _ ih =>
      obtain ⟨y, hy, rfl⟩ := hhead
      obtain ⟨ys, hys, rfl⟩ := ih
      exact ⟨y :: ys, .cons hy hys, rfl⟩

theorem Value.list?_eq_some_iff {read : Value → Option α} {v : Value} {as : List α}
    {level room : Nat} (hroom : level + room = maxDepth) :
    v.list? room read = some as ↔ v.IsList level (fun w a => read w = some a) as := by
  constructor
  · intro h
    cases v with
    | array vs =>
      rw [Value.list?, Option.ite_none_left_eq_some, mapM_eq_some_iff] at h
      exact .array (by omega) h.2
    | null | bool | number | string | object => cases h
  · intro h
    cases h with
    | array hlevel h =>
      rw [Value.list?, if_neg (by omega), mapM_eq_some_iff]
      exact h

end XmlHarvest.Json

/-
Documents that are written are read back as far as the depth allows.

The JSON form of a document is made of texts, arrays and objects, so its text is read back as the
same value.  What a document makes of this value is the document itself when arrays and objects
nest at most as deep as they may, and nothing otherwise (`Document.read?_write`).
-/
import XmlHarvest.Document.Json
import XmlHarvest.Proofs.Json.RoundTrip

namespace XmlHarvest

open Json (Value)

/-! ### Depth -/

mutual

/-- How deep arrays and objects nest in a value. -/
def Json.Value.depth : Value → Nat
  | .array vs => Json.Value.depthItems vs + 1
  | .object ms => Json.Value.depthMembers ms + 1
  | _ => 0

def Json.Value.depthItems : List Value → Nat
  | [] => 0
  | v :: vs => max v.depth (Json.Value.depthItems vs)

def Json.Value.depthMembers : List (Option String × Value) → Nat
  | [] => 0
  | (_, v) :: ms => max v.depth (Json.Value.depthMembers ms)

end

namespace Json.Value

@[simp] theorem depth_ofText (s : String) : (Value.ofText s).depth = 0 := rfl

theorem depthItems_le {vs : List Value} {n : Nat} :
    depthItems vs ≤ n ↔ ∀ v ∈ vs, v.depth ≤ n := by
  induction vs with
  | nil => simp [depthItems]
  | cons v vs ih => rw [depthItems, Nat.max_le, ih, List.forall_mem_cons]

@[simp] theorem depth_ofTexts (ss : List String) : (Value.ofTexts ss).depth = 1 := by
  have h : depthItems (ss.map Value.ofText) ≤ 0 := by
    rw [depthItems_le]
    intro v hv
    obtain ⟨s, -, rfl⟩ := List.mem_map.mp hv
    exact Nat.le_refl 0
  show depthItems (ss.map Value.ofText) + 1 = 1
  omega

mutual

/-- A value made of texts, arrays and objects can be taken up whole where its depth has room. -/
theorem sound_iff : ∀ {v : Value} {room : Nat}, v.Textual → (v.sound room ↔ v.depth ≤ room)
  | .string (some s), room, _ => by simp [sound, depth]
  | .array vs, 0, _ => by simp [sound, depth]
  | .array vs, room + 1, h => by simpa [sound, depth] using soundItems_iff h
  | .object ms, 0, _ => by simp [sound, depth]
  | .object ms, room + 1, h => by simpa [sound, depth] using soundMembers_iff h

theorem soundItems_iff : ∀ {vs : List Value} {room : Nat}, TextualItems vs →
    (soundItems room vs ↔ depthItems vs ≤ room)
  | [], room, _ => by simp [soundItems, depthItems]
  | v :: vs, room, h => by
    rw [soundItems, Bool.and_eq_true, sound_iff h.1, soundItems_iff h.2, depthItems, Nat.max_le]

theorem soundMembers_iff : ∀ {ms : List (Option String × Value)} {room : Nat}, TextualMembers ms →
    (soundMembers room ms ↔ depthMembers ms ≤ room)
  | [], room, _ => by simp [soundMembers, depthMembers]
  | (k, v) :: ms, room, h => by
    rw [soundMembers, depthMembers, Nat.max_le, ← sound_iff h.2.1, ← soundMembers_iff h.2.2]
    simp [h.1]

end

end Json.Value

/-! ### Lists and records -/

namespace Json.Value

@[simp] theorem text?_ofText (s : String) : (Value.ofText s).text? = some s := rfl

@[simp] theorem nullable?_ofText (s : String) :
    (Value.ofText s).nullable? Value.text? = some (some s) := rfl

@[simp] theorem textual_ofText (s : String) : (Value.ofText s).Textual := trivial

theorem textual_array {vs : List Value} : (Value.array vs).Textual ↔ ∀ v ∈ vs, v.Textual := by
  show TextualItems vs ↔ _
  induction vs with
  | nil => simp [TextualItems]
  | cons v vs ih => simp [TextualItems, ih]

theorem textual_ofMembers {ms : List (String × Value)} :
    (Value.ofMembers ms).Textual ↔ ∀ m ∈ ms, m.2.Textual := by
  show TextualMembers (ms.map fun m => (some m.1, m.2)) ↔ _
  induction ms with
  | nil => simp [TextualMembers]
  | cons m ms ih => simp [TextualMembers, ih]

theorem depth_array_le {vs : List Value} {n : Nat} :
    (Value.array vs).depth ≤ n ↔ 0 < n ∧ ∀ v ∈ vs, v.depth < n := by
  show depthItems vs + 1 ≤ n ↔ _
  cases n with
  | zero => simp
  | succ n =>
    rw [Nat.add_le_add_iff_right, depthItems_le]
    simp only [Nat.lt_succ_iff, Nat.zero_le, true_and]

theorem depth_ofMembers_le {ms : List (String × Value)} {n : Nat} :
    (Value.ofMembers ms).depth ≤ n ↔ 0 < n ∧ ∀ m ∈ ms, m.2.depth < n := by
  have h : ∀ n, depthMembers (ms.map fun m => (some m.1, m.2)) ≤ n ↔ ∀ m ∈ ms, m.2.depth ≤ n := by
    intro n
    induction ms with
    | nil => simp [depthMembers]
    | cons m ms ih => rw [List.map_cons, depthMembers, Nat.max_le, ih, List.forall_mem_cons]
  show depthMembers (ms.map fun m => (some m.1, m.2)) + 1 ≤ n ↔ _
  cases n with
  | zero => simp
  | succ n =>
    rw [Nat.add_le_add_iff_right, h]
    simp only [Nat.lt_succ_iff, Nat.zero_le, true_and]

end Json.Value

/-- Items that are each read back from what is written for them are read back together. -/
theorem mapM_map_of_forall {α : Type} {write : α → Value} {read : Value → Option α} {as : List α}
    (h : ∀ a ∈ as, read (write a) = some a) : (as.map write).mapM read = some as := by
  induction as with
  | nil => rfl
  | cons a as ih =>
    simp [List.map_cons, List.mapM_cons, h a (by simp), ih fun b hb => h b (by simp [hb])]

theorem list?_map {α : Type} {write : α → Value} {read : Value → Option α} {as : List α}
    {room : Nat} (hroom : 0 < room) (h : ∀ a ∈ as, read (write a) = some a) :
    (Value.array (as.map write)).list? room read = some as := by
  rw [Value.list?, if_neg (Nat.pos_iff_ne_zero.mp hroom), mapM_map_of_forall h]

theorem texts?_ofTexts {room : Nat} (hroom : 0 < room) (ss : List String) :
    (Value.ofTexts ss).texts? room = some ss :=
  list?_map hroom fun _ _ => rfl

/-! ### Shapes that were read -/

namespace Json

variable {α : Type} {v : Value} {room : Nat}

theorem eq_default_of_fieldOr {read : Value → Option α} {a default : α} {field : Option Value}
    (h : fieldOr default read field = some a) : a = default ∨ ∃ v, read v = some a := by
  cases field with
  | none => exact .inl (Option.some.inj h).symm
  | some v => exact .inr ⟨v, h⟩

theorem Value.nullable?_eq_some {read : Value → Option α} {a : α}
    (h : v.nullable? read = some (some a)) : ∃ w, read w = some a := by
  unfold Value.nullable? at h
  split at h
  · cases h
  · obtain ⟨b, hb, heq⟩ := Option.map_eq_some_iff.mp h
    exact ⟨_, by rw [hb, ← heq]⟩

/-- A list takes up one level, and each of its items was read. -/
theorem Value.list?_eq_some {read : Value → Option α} {as : List α}
    (h : v.list? room read = some as) : 0 < room ∧ ∀ a ∈ as, ∃ w, read w = some a := by
  unfold Value.list? at h
  split at h
  · next vs =>
    split at h
    · cases h
    · next hroom =>
      refine ⟨Nat.pos_of_ne_zero hroom, ?_⟩
      induction vs generalizing as with
      | nil =>
        cases h
        intro a ha
        cases ha
      | cons v vs ih =>
        rw [List.mapM_cons] at h
        obtain ⟨b, hb, h⟩ := Option.bind_eq_some_iff.mp h
        obtain ⟨bs, hbs, h⟩ := Option.bind_eq_some_iff.mp h
        obtain rfl : b :: bs = as := Option.some.inj h
        intro a ha
        rcases List.mem_cons.mp ha with rfl | ha
        · exact ⟨v, hb⟩
        · exact ih hbs a ha
  · cases h

end Json

/-! ### Metadata -/

theorem MetadataRule.textual_toJson (r : MetadataRule) : r.toJson.Textual := by
  have hxpaths : (Value.ofTexts r.xpaths).Textual := by
    rw [Value.ofTexts, Json.Value.textual_array]
    intro v hv
    obtain ⟨s, -, rfl⟩ := List.mem_map.mp hv
    exact Json.Value.textual_ofText s
  cases h : r.attr <;> simp [MetadataRule.toJson, Json.Value.textual_ofMembers, h, hxpaths]

@[simp] theorem MetadataRule.depth_toJson (r : MetadataRule) : r.toJson.depth = 2 := by
  cases h : r.attr <;>
    simp [MetadataRule.toJson, Value.ofMembers, h, Value.depth, Value.depthMembers]

theorem MetadataRule.ofJson?_toJson (r : MetadataRule) {room : Nat} (h : 2 ≤ room) :
    MetadataRule.ofJson? room r.toJson = some r := by
  obtain ⟨room, rfl⟩ : ∃ n, room = n + 2 := ⟨room - 2, by omega⟩
  obtain ⟨xpaths, attr, propertyName⟩ := r
  cases attr <;>
    simp [MetadataRule.toJson, MetadataRule.ofJson?, Value.ofMembers, Value.fields?,
      Json.occurrences, List.lookup_cons, Json.fieldOr, texts?_ofTexts]

theorem Metadata.textual_toJson (m : Metadata) : m.toJson.Textual := by
  simp [Metadata.toJson, Json.Value.textual_ofMembers, m.specification.textual_toJson]

@[simp] theorem Metadata.depth_toJson (m : Metadata) : m.toJson.depth = 3 := by
  simp [Metadata.toJson, Value.ofMembers, Value.depth, Value.depthMembers]

theorem Metadata.ofJson?_toJson (m : Metadata) {room : Nat} (h : 3 ≤ room) :
    Metadata.ofJson? room m.toJson = some m := by
  obtain ⟨room, rfl⟩ : ∃ n, room = n + 1 := ⟨room - 1, by omega⟩
  simp [Metadata.toJson, Metadata.ofJson?, Value.ofMembers, Value.fields?, Json.occurrences,
    List.lookup_cons, m.specification.ofJson?_toJson (show 2 ≤ room by omega)]

/-- The list of some metadata nests four deep, unless it is empty. -/
theorem depth_metadata_le {ms : List Metadata} {n : Nat} :
    (Value.array (ms.map Metadata.toJson)).depth ≤ n ↔ 0 < n ∧ (ms ≠ [] → 4 ≤ n) := by
  rw [Json.Value.depth_array_le]
  refine and_congr_right fun _ => ⟨fun h hne => ?_, fun h v hv => ?_⟩
  · obtain ⟨m, hm⟩ := List.exists_mem_of_ne_nil ms hne
    have hlt := h m.toJson (List.mem_map_of_mem hm)
    rwa [m.depth_toJson] at hlt
  · obtain ⟨m, hm, rfl⟩ := List.mem_map.mp hv
    rw [m.depth_toJson]
    exact h (List.ne_nil_of_mem hm)

/-! ### Sentences -/

theorem Sentence.textual_toJson (s : Sentence) : s.toJson.Textual := by
  simp [Sentence.toJson, Json.Value.textual_ofMembers, Json.Value.textual_array,
    Metadata.textual_toJson]

theorem Sentence.depth_toJson_le {s : Sentence} {n : Nat} :
    s.toJson.depth ≤ n ↔ 2 ≤ n ∧ (s.metadata ≠ [] → 5 ≤ n) := by
  have hmetadata := @depth_metadata_le s.metadata (n - 1)
  rw [Sentence.toJson, Json.Value.depth_ofMembers_le]
  simp only [List.forall_mem_cons, List.not_mem_nil, false_imp_iff, implies_true, and_true,
    Json.Value.depth_ofText]
  -- An empty list of metadata nests as little as the sentence itself allows.
  by_cases hnil : s.metadata = []
  · simp only [hnil, ne_eq, not_true_eq_false, false_imp_iff, and_true] at hmetadata ⊢
    omega
  · simp only [hnil, ne_eq, not_false_eq_true, true_imp_iff] at hmetadata ⊢
    omega

theorem Sentence.ofJson?_toJson {s : Sentence} {room : Nat} (h : s.toJson.depth ≤ room) :
    Sentence.ofJson? room s.toJson = some s := by
  obtain ⟨hroom, hmetadata⟩ := Sentence.depth_toJson_le.mp h
  obtain ⟨room, rfl⟩ : ∃ n, room = n + 1 := ⟨room - 1, by omega⟩
  have hlist : (Value.array (s.metadata.map Metadata.toJson)).list? room
      (Metadata.ofJson? (room - 1)) = some s.metadata := by
    refine list?_map (by omega) ?_
    intro m hm
    have := hmetadata (List.ne_nil_of_mem hm)
    exact m.ofJson?_toJson (by omega)
  simp [Sentence.toJson, Sentence.ofJson?, Value.ofMembers, Value.fields?, Json.occurrences,
    List.lookup_cons, hlist]

/-! ### Units -/

namespace TextUnit

theorem unitsToJson_eq_map (us : List (TextUnit Sentence)) :
    unitsToJson us = us.map TextUnit.toJson := by
  induction us with
  | nil => rfl
  | cons u us ih => rw [unitsToJson, ih]; rfl

theorem members_eq (u : TextUnit Sentence) :
    u.members = [
      ("name", .ofText u.name),
      ("metadata", .array (u.metadata.map Metadata.toJson)),
      ("units", .array (u.units.map TextUnit.toJson)),
      ("sentences", .array (u.sentences.map Sentence.toJson))] := by
  obtain ⟨name, metadata, units, sentences⟩ := u
  rw [members, unitsToJson_eq_map]

mutual

theorem textual_toJson : ∀ u : TextUnit Sentence, u.toJson.Textual
  | ⟨name, metadata, units, sentences⟩ => by
    rw [toJson, Json.Value.textual_ofMembers, members_eq]
    simp [Json.Value.textual_array, Metadata.textual_toJson, Sentence.textual_toJson]
    exact textual_units units

theorem textual_units : ∀ us : List (TextUnit Sentence), ∀ u ∈ us, u.toJson.Textual
  | u :: us, v, hv => by
    rcases List.mem_cons.mp hv with heq | hv
    · rw [heq]
      exact textual_toJson u
    · exact textual_units us v hv

end

theorem depth_toJson_le {u : TextUnit Sentence} {n : Nat} :
    u.toJson.depth ≤ n ↔ 2 ≤ n ∧ (u.metadata ≠ [] → 5 ≤ n) ∧
      (∀ s ∈ u.sentences, s.toJson.depth + 2 ≤ n) ∧ ∀ v ∈ u.units, v.toJson.depth + 2 ≤ n := by
  rw [toJson, Json.Value.depth_ofMembers_le, members_eq]
  simp only [List.forall_mem_cons, List.not_mem_nil, false_imp_iff, implies_true, and_true,
    Json.Value.depth_ofText]
  cases n with
  | zero => simp
  | succ n =>
    simp only [Nat.lt_succ_iff, depth_metadata_le]
    simp only [Json.Value.depth_array_le, List.forall_mem_map]
    constructor
    · rintro ⟨-, -, ⟨hn, hmetadata⟩, ⟨-, hunits⟩, -, hsentences⟩
      refine ⟨by omega, fun h => ?_, fun s hs => ?_, fun v hv => ?_⟩
      · have := hmetadata h
        omega
      · have := hsentences s hs
        omega
      · have := hunits v hv
        omega
    · rintro ⟨hn, hmetadata, hsentences, hunits⟩
      refine ⟨by omega, by omega, ⟨by omega, fun h => ?_⟩, ⟨by omega, fun v hv => ?_⟩, by omega,
        fun s hs => ?_⟩
      · have := hmetadata h
        omega
      · have := hunits v hv
        omega
      · have := hsentences s hs
        omega

/-- A unit is taken from the values of its fields, given how the units in it are read. -/
theorem ofFields?_toJson {u : TextUnit Sentence} {room : Nat}
    {read : Value → Option (TextUnit Sentence)} (h : u.toJson.depth ≤ room + 1)
    (hunits : ∀ v ∈ u.units, read v.toJson = some v) :
    ofFields? room read (u.members.map fun m => some m.2) = some u := by
  obtain ⟨hroom, hmetadata, hsentences, -⟩ := depth_toJson_le.mp h
  have hroom : 0 < room := by omega
  have hm : (Value.array (u.metadata.map Metadata.toJson)).list? room
      (Metadata.ofJson? (room - 1)) = some u.metadata := by
    refine list?_map hroom ?_
    intro m hm
    have := hmetadata (List.ne_nil_of_mem hm)
    exact m.ofJson?_toJson (by omega)
  have hs : (Value.array (u.sentences.map Sentence.toJson)).list? room
      (Sentence.ofJson? (room - 1)) = some u.sentences := by
    refine list?_map hroom ?_
    intro s hs
    have := hsentences s hs
    exact Sentence.ofJson?_toJson (by omega)
  have hu : (Value.array (u.units.map TextUnit.toJson)).list? room read = some u.units :=
    list?_map hroom hunits
  simp only [members_eq, List.map_cons, List.map_nil, ofFields?, Json.Value.text?_ofText, hm, hs, hu,
    Option.bind_eq_bind, Option.bind_some]
  cases u
  rfl

theorem fields?_toJson (u : TextUnit Sentence) :
    u.toJson.fields? ["name", "metadata", "units", "sentences"] 4 =
      some (u.members.map fun m => some m.2) := by
  simp [toJson, members_eq, Value.ofMembers, Value.fields?, Json.occurrences, List.lookup_cons]

/-- The induction is on the room, of which a unit inside another has two less. -/
theorem ofJson?_toJson {room : Nat} {u : TextUnit Sentence} (h : u.toJson.depth ≤ room) :
    TextUnit.ofJson? room u.toJson = some u := by
  induction room using Nat.strongRecOn generalizing u with
  | ind room ih =>
    obtain ⟨hroom, -, -, hunits⟩ := depth_toJson_le.mp h
    obtain ⟨room, rfl⟩ : ∃ n, room = n + 2 := ⟨room - 2, by omega⟩
    rw [TextUnit.ofJson?, fields?_toJson]
    refine ofFields?_toJson h ?_
    intro v hv
    exact ih room (by omega) (by have := hunits v hv; omega)

end TextUnit

/-! ### Documents -/

namespace Document

theorem textual_toJson (d : Document) : d.toJson.Textual := by
  have hbody := d.body.textual_toJson
  rw [TextUnit.toJson, Json.Value.textual_ofMembers] at hbody
  rw [Document.toJson, Json.Value.textual_ofMembers]
  simpa using hbody

theorem depth_toJson (d : Document) : d.toJson.depth = d.body.toJson.depth := by
  simp [Document.toJson, TextUnit.toJson, Value.ofMembers, Value.depth, Value.depthMembers]

/-- What is written for a document is read back as this document where arrays and objects nest at
most as deep as they may, and not at all where they nest deeper. -/
theorem read?_write (d : Document) :
    Document.read? d.write = if d.body.toJson.depth ≤ Json.maxDepth then some d else none := by
  have hfields : d.toJson.fields? ["title", "name", "metadata", "units", "sentences"] 5 =
      some (some (.ofText d.title) :: d.body.members.map fun m => some m.2) := by
    simp [Document.toJson, TextUnit.members_eq, Value.ofMembers, Value.fields?, Json.occurrences,
      List.lookup_cons]
  have hsound : d.toJson.sound Json.maxDepth ↔ d.body.toJson.depth ≤ Json.maxDepth := by
    rw [← depth_toJson]
    exact Json.Value.sound_iff d.textual_toJson
  obtain ⟨ms, hms⟩ : ∃ ms, d.toJson = .object ms := ⟨_, rfl⟩
  rw [Document.read?, Document.write, Value.read?_compact d.textual_toJson, Option.bind_some]
  rw [hms] at hfields hsound ⊢
  simp only [Document.ofJson?, hfields, Option.bind_eq_bind, Option.bind_some]
  by_cases hdepth : d.body.toJson.depth ≤ Json.maxDepth
  · -- The title stands beside the fields of the body, so the body is read from the same object.
    have hbody : TextUnit.ofFields? (Json.maxDepth - 1) (TextUnit.ofJson? (Json.maxDepth - 2))
        (d.body.members.map fun m => some m.2) = some d.body := by
      refine TextUnit.ofFields?_toJson hdepth ?_
      intro v hv
      have := (TextUnit.depth_toJson_le.mp hdepth).2.2.2 v hv
      exact TextUnit.ofJson?_toJson (by omega)
    rw [if_pos (hsound.mpr hdepth), if_pos hdepth, hbody]
    rfl
  · rw [if_neg (fun h => hdepth (hsound.mp h)), if_neg hdepth]

end Document

end XmlHarvest

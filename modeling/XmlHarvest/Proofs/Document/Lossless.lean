/-
The JSON form of documents loses nothing.

A document that was read nests no deeper than it may when it is written, although what was left to
its default is then there: the fields that have one stand in metadata rules alone, for which the
room is even and so not too little for one list.  Main statement: `Document.losesNothing`.
-/
import XmlHarvest.Proofs.Document.Reading

namespace XmlHarvest

open Json (Value)

/-! ### The room of what was read -/

theorem MetadataRule.pos_of_ofJson? {room : Nat} {v : Value} {r : MetadataRule}
    (h : MetadataRule.ofJson? room v = some r) : 0 < room := by
  cases room with
  | zero => cases h
  | succ room => exact Nat.succ_pos room

theorem Metadata.room_of_ofJson? {room : Nat} {v : Value} {m : Metadata}
    (h : Metadata.ofJson? room v = some m) : 2 ≤ room := by
  cases room with
  | zero => cases h
  | succ room =>
    unfold Metadata.ofJson? at h
    obtain ⟨fields, -, h⟩ := Option.bind_eq_some_iff.mp h
    split at h
    · obtain ⟨value, -, h⟩ := Option.bind_eq_some_iff.mp h
      obtain ⟨name, -, h⟩ := Option.bind_eq_some_iff.mp h
      obtain ⟨rule, hrule, -⟩ := Option.bind_eq_some_iff.mp h
      have := MetadataRule.pos_of_ofJson? hrule
      omega
    · cases h

/-- A list of metadata that was read takes up one level when it is empty and four otherwise, of
which the last, for the expressions, is there because the room is odd. -/
theorem Metadata.room_of_list? {h : Nat} {v : Value} {ms : List Metadata}
    (hread : v.list? (2 * h) (Metadata.ofJson? (2 * h - 1)) = some ms) :
    0 < h ∧ (ms ≠ [] → 2 ≤ h) := by
  obtain ⟨hroom, hitems⟩ := Json.Value.list?_eq_some hread
  refine ⟨by omega, fun hne => ?_⟩
  obtain ⟨m, hm⟩ := List.exists_mem_of_ne_nil ms hne
  obtain ⟨w, hw⟩ := hitems m hm
  have := Metadata.room_of_ofJson? hw
  omega

/-- A sentence that was read nests no deeper than it may. -/
theorem Sentence.depth_of_ofJson? {h : Nat} {v : Value} {s : Sentence}
    (hread : Sentence.ofJson? (2 * h + 1) v = some s) : s.toJson.depth ≤ 2 * h + 1 := by
  unfold Sentence.ofJson? at hread
  obtain ⟨fields, -, hread⟩ := Option.bind_eq_some_iff.mp hread
  split at hread
  · obtain ⟨text, -, hread⟩ := Option.bind_eq_some_iff.mp hread
    obtain ⟨metadata, hmetadata, hread⟩ := Option.bind_eq_some_iff.mp hread
    obtain rfl : (⟨text, metadata⟩ : Sentence) = s := Option.some.inj hread
    obtain ⟨hpos, hdeep⟩ := Metadata.room_of_list? hmetadata
    refine Sentence.depth_toJson_le.mpr ⟨by omega, fun hne => ?_⟩
    have := hdeep hne
    omega
  · cases hread

namespace TextUnit

/-- A unit that was taken from fields nests no deeper than it may if the units in it do not. -/
theorem depth_of_ofFields? {h : Nat} {read : Value → Option (TextUnit Sentence)}
    {fields : List (Option Value)} {u : TextUnit Sentence}
    (hread : ofFields? (2 * h) read fields = some u)
    (hunits : ∀ w v, read w = some v → v.toJson.depth + 2 ≤ 2 * h + 1) :
    u.toJson.depth ≤ 2 * h + 1 := by
  unfold ofFields? at hread
  split at hread
  · obtain ⟨name, -, hread⟩ := Option.bind_eq_some_iff.mp hread
    obtain ⟨metadata, hmetadata, hread⟩ := Option.bind_eq_some_iff.mp hread
    obtain ⟨units, hus, hread⟩ := Option.bind_eq_some_iff.mp hread
    obtain ⟨sentences, hss, hread⟩ := Option.bind_eq_some_iff.mp hread
    obtain rfl : (⟨name, metadata, units, sentences⟩ : TextUnit Sentence) = u :=
      Option.some.inj hread
    obtain ⟨hpos, hdeep⟩ := Metadata.room_of_list? hmetadata
    refine depth_toJson_le.mpr ⟨by omega, fun hne => ?_, fun s hs => ?_, fun v hv => ?_⟩
    · have := hdeep hne
      omega
    · obtain ⟨w, hw⟩ := (Json.Value.list?_eq_some hss).2 s hs
      obtain ⟨k, rfl⟩ : ∃ k, h = k + 1 := ⟨h - 1, by omega⟩
      have := Sentence.depth_of_ofJson? (h := k) hw
      omega
    · obtain ⟨w, hw⟩ := (Json.Value.list?_eq_some hus).2 v hv
      exact hunits w v hw
  · cases hread

/-- The induction is on the room, of which a unit inside another has two less. -/
theorem depth_of_ofJson? {h : Nat} {v : Value} {u : TextUnit Sentence}
    (hread : TextUnit.ofJson? (2 * h + 1) v = some u) : u.toJson.depth ≤ 2 * h + 1 := by
  induction h generalizing v u with
  | zero =>
    obtain ⟨fields, -, hread⟩ := Option.bind_eq_some_iff.mp hread
    refine depth_of_ofFields? (h := 0) hread ?_
    intro w v hw
    cases hw
  | succ h ih =>
    obtain ⟨fields, -, hread⟩ := Option.bind_eq_some_iff.mp hread
    refine depth_of_ofFields? (h := h + 1) hread ?_
    intro w v hw
    have := ih hw
    omega

end TextUnit

/-! ### Documents -/

namespace Document

theorem depth_of_ofJson? {v : Value} {d : Document} (h : Document.ofJson? v = some d) :
    d.toJson.depth ≤ Json.maxDepth := by
  unfold Document.ofJson? at h
  split at h
  · obtain ⟨fields, -, h⟩ := Option.bind_eq_some_iff.mp h
    split at h
    · split at h
      · obtain ⟨title, -, h⟩ := Option.bind_eq_some_iff.mp h
        obtain ⟨body, hbody, h⟩ := Option.bind_eq_some_iff.mp h
        obtain rfl : (⟨title, body⟩ : Document) = d := Option.some.inj h
        rw [depth_toJson]
        refine TextUnit.depth_of_ofFields? (h := 63) hbody ?_
        intro w v hw
        have := TextUnit.depth_of_ofJson? (h := 62) hw
        omega
      · cases h
    · cases h
  · cases h

/-- What was read may be written. -/
theorem depth_of_read? {text : String} {d : Document} (h : Document.read? text = some d) :
    d.toJson.depth ≤ Json.maxDepth := by
  obtain ⟨v, -, hv⟩ := Option.bind_eq_some_iff.mp h
  exact depth_of_ofJson? hv

/-- A document that nests at most as deep as it may is read back from what is written for it, and so
is every document that was read, of which the same text is written again. -/
theorem losesNothing :
    (∀ d : Document, d.toJson.depth ≤ Json.maxDepth → Document.read? d.write = some d) ∧
      ∀ (text : String) (d : Document), Document.read? text = some d →
        ∃ d', Document.read? d.write = some d' ∧ d' = d ∧ d'.write = d.write := by
  have hback : ∀ d : Document, d.toJson.depth ≤ Json.maxDepth →
      Document.read? d.write = some d := by
    intro d hd
    rw [depth_toJson] at hd
    rw [read?_write, if_pos hd]
  refine ⟨hback, ?_⟩
  intro text d hread
  exact ⟨d, hback d (depth_of_read? hread), rfl, rfl⟩

/-- Members in another order, an unknown one, and metadata written as an array, whose rule leaves
out what has a default. -/
def unusual : String :=
  "\x7b\"units\":[],\"note\":7,\"title\":\"t\",\"sentences\":[]," ++
    "\"metadata\":[[\"v\",\"p\",[]]],\"name\":\"n\"\x7d"

theorem losesNothing_unusual :
    ∃ d, Document.read? unusual = some d ∧ Document.read? d.write = some d := by
  have hread : (Document.read? unusual).isSome = true := by decide +kernel
  obtain ⟨d, hd⟩ := Option.isSome_iff_exists.mp hread
  obtain ⟨d', hback, rfl, -⟩ := losesNothing.2 unusual d hd
  exact ⟨d', hd, hback⟩

end Document

end XmlHarvest

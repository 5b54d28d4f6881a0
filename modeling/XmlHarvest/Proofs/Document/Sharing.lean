/-
Which lists sentences hold does not change what a document says.

Neither giving every sentence a list of its own nor sharing equal lists of neighbours changes the
sentences themselves (`TextUnit.values_apart`, `TextUnit.values_share`).
-/
import XmlHarvest.Document.Sharing

namespace XmlHarvest

variable {α β γ : Type}

/-! ### Trees with something else held -/

namespace TextUnit

theorem mapOwns_eq_map (f : List α → List β) (us : List (TextUnit α)) :
    mapOwns f us = us.map (mapOwn f) := by
  induction us with
  | nil => rfl
  | cons u us ih => rw [mapOwns, ih]; rfl

mutual

theorem mapOwn_mapOwn (f : List α → List β) (g : List β → List γ) :
    ∀ u : TextUnit α, (u.mapOwn f).mapOwn g = u.mapOwn fun own => g (f own)
  | ⟨name, metadata, units, own⟩ => by
    simp only [mapOwn, mapOwns_mapOwns f g units]

theorem mapOwns_mapOwns (f : List α → List β) (g : List β → List γ) :
    ∀ us : List (TextUnit α), mapOwns g (mapOwns f us) = mapOwns (fun own => g (f own)) us
  | [] => rfl
  | u :: us => by
    simp only [mapOwns, mapOwn_mapOwn f g u, mapOwns_mapOwns f g us]

end

end TextUnit

/-! ### Sentences -/

/-- A sentence that takes over the list before it says what it said. -/
theorem Held.sentence_follow (before h : Held) : (before.follow h).sentence = h.sentence := by
  unfold Held.follow
  split
  · next heq =>
    obtain ⟨⟨text, metadata⟩, list⟩ := h
    simp only at heq
    simp only [heq]
  · rfl

theorem Held.map_sentence_shareAfter (before : Held) (hs : List Held) :
    (Held.shareAfter before hs).map Held.sentence = hs.map Held.sentence := by
  induction hs generalizing before with
  | nil => rfl
  | cons h hs ih => rw [Held.shareAfter, List.map_cons, ih, Held.sentence_follow, List.map_cons]

theorem Held.map_sentence_share (hs : List Held) :
    (Held.share hs).map Held.sentence = hs.map Held.sentence := by
  cases hs with
  | nil => rfl
  | cons h hs => rw [Held.share, List.map_cons, Held.map_sentence_shareAfter, List.map_cons]

namespace TextUnit

/-- Sharing lists leaves the sentences as they are. -/
theorem values_share (u : TextUnit Held) : u.share.values = u.values := by
  rw [share, values, values, mapOwn_mapOwn]
  refine congrArg (fun f => mapOwn f u) ?_
  funext own
  exact Held.map_sentence_share own

mutual

/-- Giving every sentence a list of its own leaves the sentences as they are. -/
theorem values_apart : ∀ (u : TextUnit Sentence) (next : Nat), (u.apart next).values = u
  | ⟨name, metadata, units, sentences⟩, next => by
    have hown : ((sentences.zipIdx next).map fun e => (⟨e.1, e.2⟩ : Held)).map Held.sentence =
        sentences := by
      rw [List.map_map]
      exact List.zipIdx_map_fst next sentences
    simp only [apart, values, mapOwn, hown]
    rw [mapOwns_apartAll]

theorem mapOwns_apartAll : ∀ (us : List (TextUnit Sentence)) (next : Nat),
    mapOwns (fun own => own.map Held.sentence) (apartAll next us) = us
  | [], _ => rfl
  | u :: us, next => by
    have hfirst := values_apart u next
    rw [values] at hfirst
    rw [apartAll, mapOwns, hfirst, mapOwns_apartAll us]

end

/-- A tree that is read back says what it said. -/
theorem values_share_apart (u : TextUnit Sentence) : (u.apart 0).share.values = u := by
  rw [values_share, values_apart]

end TextUnit

end XmlHarvest

/-
Which sentences hold one list once neighbours share theirs.

A sentence stands at a place: in a unit, which the way down to it tells, behind so many others.
Sharing lists again changes nothing (`TextUnit.share_share`), and neighbours hold one list exactly
if their metadata are equal (`TextUnit.list_eq_iff_of_neighbours`).  Where no two sentences held one
list before, two of them do so afterwards exactly if they are in one run: in one unit, with equal
metadata from the one to the other (`TextUnit.list_eq_iff_sameRun`).
-/
import XmlHarvest.Proofs.Document.Sharing
import Mathlib.Data.List.Nodup

namespace XmlHarvest

variable {α β : Type}

/-! ### Places -/

namespace TextUnit

/-- The unit that is reached from the top by the numbers of the units on the way. -/
def unit? : List Nat → TextUnit α → Option (TextUnit α)
  | [], u => some u
  | k :: path, u => u.units[k]?.bind (unit? path)

/-- Where a sentence stands: in which unit, and behind how many others of the unit. -/
structure Place where
  path : List Nat
  index : Nat
  deriving DecidableEq, Repr

/-- What stands at a place. -/
def at? (u : TextUnit α) (p : Place) : Option α :=
  (unit? p.path u).bind fun v => v.sentences[p.index]?

theorem leavesOf_eq_flatMap (us : List (TextUnit α)) : leavesOf us = us.flatMap leaves := by
  induction us with
  | nil => rfl
  | cons u us ih => rw [leavesOf, ih, List.flatMap_cons]

theorem leaves_eq (u : TextUnit α) : u.leaves = u.sentences ++ u.units.flatMap leaves := by
  obtain ⟨name, metadata, units, own⟩ := u
  rw [leaves, leavesOf_eq_flatMap]

theorem units_mapOwn (f : List α → List β) (u : TextUnit α) :
    (u.mapOwn f).units = u.units.map (mapOwn f) := by
  obtain ⟨name, metadata, units, own⟩ := u
  rw [mapOwn, mapOwns_eq_map]

theorem sentences_mapOwn (f : List α → List β) (u : TextUnit α) :
    (u.mapOwn f).sentences = f u.sentences := by
  obtain ⟨name, metadata, units, own⟩ := u
  rfl

theorem unit?_mapOwn (f : List α → List β) (path : List Nat) (u : TextUnit α) :
    unit? path (u.mapOwn f) = (unit? path u).map (mapOwn f) := by
  induction path generalizing u with
  | nil => rfl
  | cons k path ih =>
    rw [unit?, unit?, units_mapOwn, List.getElem?_map]
    cases u.units[k]? with
    | none => rfl
    | some v => exact ih v

theorem at?_mapOwn (f : List α → List β) (u : TextUnit α) (p : Place) :
    (u.mapOwn f).at? p = (unit? p.path u).bind fun v => (f v.sentences)[p.index]? := by
  rw [at?, unit?_mapOwn, Option.bind_map]
  refine Option.bind_congr fun v _ => ?_
  rw [Function.comp_apply, sentences_mapOwn]

/-- What stands in a unit of a tree is among all that the tree holds. -/
theorem mem_leaves_of_unit? {path : List Nat} {u v : TextUnit α} (hv : unit? path u = some v)
    {a : α} (ha : a ∈ v.sentences) : a ∈ u.leaves := by
  induction path generalizing u with
  | nil =>
    obtain rfl : u = v := Option.some.inj hv
    rw [leaves_eq]
    exact List.mem_append_left _ ha
  | cons k path ih =>
    obtain ⟨w, hw, hwv⟩ := Option.bind_eq_some_iff.mp hv
    rw [leaves_eq]
    exact List.mem_append_right _
      (List.mem_flatMap.mpr ⟨w, List.mem_of_getElem? hw, ih hwv⟩)

theorem mem_leaves_of_at? {u : TextUnit α} {p : Place} {a : α} (ha : u.at? p = some a) :
    a ∈ u.leaves := by
  obtain ⟨v, hv, ha⟩ := Option.bind_eq_some_iff.mp ha
  exact mem_leaves_of_unit? hv (List.mem_of_getElem? ha)

/-- A place below a unit is a place of one of the units in it. -/
theorem at?_cons {u : TextUnit α} {k i : Nat} {path : List Nat} {a : α}
    (ha : u.at? ⟨k :: path, i⟩ = some a) :
    ∃ w, u.units[k]? = some w ∧ w.at? ⟨path, i⟩ = some a := by
  obtain ⟨v, hv, ha⟩ := Option.bind_eq_some_iff.mp ha
  obtain ⟨w, hw, hwv⟩ := Option.bind_eq_some_iff.mp hv
  exact ⟨w, hw, Option.bind_eq_some_iff.mpr ⟨v, hwv, ha⟩⟩

/-- Where a value tells apart all that a tree holds, it does so in the unit at the top and in every
unit in it, and no two of these hold the same value. -/
theorem nodup_leaves {f : α → β} {u : TextUnit α} (hu : (u.leaves.map f).Nodup) :
    (u.sentences.map f).Nodup ∧
    (∀ w ∈ u.units, (w.leaves.map f).Nodup) ∧
    (∀ a ∈ u.sentences, ∀ w ∈ u.units, ∀ b ∈ w.leaves, f a ≠ f b) ∧
    ∀ (k l : Nat) v w, k < l → u.units[k]? = some v → u.units[l]? = some w →
      ∀ a ∈ v.leaves, ∀ b ∈ w.leaves, f a ≠ f b := by
  rw [leaves_eq, List.map_append, List.map_flatMap, List.nodup_append, List.nodup_flatMap] at hu
  obtain ⟨hown, ⟨hinner, hapart⟩, hdisjoint⟩ := hu
  refine ⟨hown, hinner, ?_, ?_⟩
  · intro a ha w hw b hb
    exact hdisjoint _ (List.mem_map_of_mem ha) _
      (List.mem_flatMap.mpr ⟨w, hw, List.mem_map_of_mem hb⟩)
  · intro k l v w hkl hv hw a ha b hb hab
    obtain ⟨hk, rfl⟩ := List.getElem?_eq_some_iff.mp hv
    obtain ⟨hl, rfl⟩ := List.getElem?_eq_some_iff.mp hw
    exact List.pairwise_iff_getElem.mp hapart k l hk hl hkl (List.mem_map_of_mem ha)
      (hab ▸ List.mem_map_of_mem hb)

/-- Where a value tells apart all that a tree holds, it is at one place only. -/
theorem place_eq_of_nodup {f : α → β} {u : TextUnit α} (hu : (u.leaves.map f).Nodup) {p q : Place}
    {a b : α} (ha : u.at? p = some a) (hb : u.at? q = some b) (hab : f a = f b) : p = q := by
  obtain ⟨path, i⟩ := p
  obtain ⟨path', j⟩ := q
  induction path generalizing u path' with
  | nil =>
    obtain ⟨hown, -, hinner, -⟩ := nodup_leaves hu
    have hi : u.sentences[i]? = some a := ha
    cases path' with
    | nil =>
      have hj : u.sentences[j]? = some b := hb
      have hlength : i < (u.sentences.map f).length := by
        rw [List.length_map]
        exact (List.getElem?_eq_some_iff.mp hi).1
      have hsame : (u.sentences.map f)[i]? = (u.sentences.map f)[j]? := by
        rw [List.getElem?_map, List.getElem?_map, hi, hj, Option.map_some, Option.map_some, hab]
      rw [(List.getElem?_inj hlength hown).mp hsame]
    | cons l path' =>
      obtain ⟨w, hw, hb⟩ := at?_cons hb
      exact absurd hab (hinner a (List.mem_of_getElem? hi) w (List.mem_of_getElem? hw) b
        (mem_leaves_of_at? hb))
  | cons k path ih =>
    obtain ⟨hown, hunits, hinner, hapart⟩ := nodup_leaves hu
    obtain ⟨v, hv, ha⟩ := at?_cons ha
    cases path' with
    | nil =>
      exact absurd hab.symm (hinner b (List.mem_of_getElem? hb) v (List.mem_of_getElem? hv) a
        (mem_leaves_of_at? ha))
    | cons l path' =>
      obtain ⟨w, hw, hb⟩ := at?_cons hb
      have hmem := mem_leaves_of_at? ha
      have hmem' := mem_leaves_of_at? hb
      rcases Nat.lt_trichotomy k l with hkl | rfl | hkl
      · exact absurd hab (hapart k l v w hkl hv hw a hmem b hmem')
      · obtain rfl : v = w := Option.some.inj (hv.symm.trans hw)
        cases ih (hunits v (List.mem_of_getElem? hv)) ha path' hb
        rfl
      · exact absurd hab.symm (hapart l k w v hkl hw hv b hmem' a hmem)

end TextUnit

/-! ### The sentences of one unit -/

namespace Held

variable {hs : List Held}

/-- Sharing is a scan: each sentence follows the one before it as sharing has left that one. -/
theorem share_cons (h : Held) (hs : List Held) : share (h :: hs) = hs.scanl follow h := by
  rw [share]
  induction hs generalizing h with
  | nil => rfl
  | cons g hs ih => rw [shareAfter, ih, List.scanl_cons]

theorem getElem?_share_zero (hs : List Held) : (share hs)[0]? = hs[0]? := by
  cases hs with
  | nil => rfl
  | cons h hs => rfl

theorem getElem?_share_succ (hs : List Held) (i : Nat) :
    (share hs)[i + 1]? = (share hs)[i]?.bind fun a => hs[i + 1]?.map a.follow := by
  cases hs with
  | nil => rfl
  | cons h hs => rw [share_cons, List.getElem?_succ_scanl, List.getElem?_cons_succ]

/-- Sharing leaves what a sentence says. -/
theorem sentence_of_share {i : Nat} {a : Held} (ha : (share hs)[i]? = some a) :
    ∃ h, hs[i]? = some h ∧ h.sentence = a.sentence := by
  have hsame : ((share hs).map sentence)[i]? = (hs.map sentence)[i]? := by rw [map_sentence_share]
  rw [List.getElem?_map, List.getElem?_map, ha, Option.map_some] at hsame
  exact Option.map_eq_some_iff.mp hsame.symm

/-- What sharing makes of the sentence behind one. -/
theorem of_share_succ {i : Nat} {b : Held} (hb : (share hs)[i + 1]? = some b) :
    ∃ a h, (share hs)[i]? = some a ∧ hs[i + 1]? = some h ∧ a.follow h = b := by
  rw [getElem?_share_succ] at hb
  obtain ⟨a, ha, hb⟩ := Option.bind_eq_some_iff.mp hb
  obtain ⟨h, hh, hb⟩ := Option.map_eq_some_iff.mp hb
  exact ⟨a, h, ha, hh, hb⟩

theorem follow_of_eq {a h : Held} (heq : a.sentence.metadata = h.sentence.metadata) :
    (a.follow h).list = a.list := by
  rw [follow, if_pos heq]

theorem follow_of_ne {a h : Held} (hne : a.sentence.metadata ≠ h.sentence.metadata) :
    a.follow h = h := by
  rw [follow, if_neg hne]

theorem follow_follow (a h : Held) : a.follow (a.follow h) = a.follow h := by
  by_cases heq : a.sentence.metadata = h.sentence.metadata
  · have hfollow : a.follow h = ⟨⟨h.sentence.text, a.sentence.metadata⟩, a.list⟩ := by
      rw [follow, if_pos heq]
    rw [hfollow, follow, if_pos rfl]
  · rw [follow_of_ne heq, follow_of_ne heq]

theorem shareAfter_shareAfter (a : Held) (hs : List Held) :
    shareAfter a (shareAfter a hs) = shareAfter a hs := by
  induction hs generalizing a with
  | nil => rfl
  | cons h hs ih => rw [shareAfter, shareAfter, follow_follow, ih]

theorem share_share (hs : List Held) : share (share hs) = share hs := by
  cases hs with
  | nil => rfl
  | cons h hs => rw [share, share, shareAfter_shareAfter]

/-- From one place to another the metadata are these. -/
def Even (hs : List Held) (i j : Nat) (ms : List Metadata) : Prop :=
  ∀ k h, i ≤ k → k ≤ j → hs[k]? = some h → h.sentence.metadata = ms

/-- A list stays with the sentences as long as the metadata stay. -/
theorem list_eq_of_even {i j : Nat} {ms : List Metadata} (hij : i ≤ j) (heven : Even hs i j ms)
    {a b : Held} (ha : (share hs)[i]? = some a) (hb : (share hs)[j]? = some b) :
    a.list = b.list := by
  induction hij generalizing b with
  | refl => rw [Option.some.inj (ha.symm.trans hb)]
  | @step j hij ih =>
    have hij : i ≤ j := hij
    obtain ⟨c, h, hc, hh, rfl⟩ := of_share_succ hb
    obtain ⟨g, hg, hsentence⟩ := sentence_of_share hc
    have hsame : c.sentence.metadata = h.sentence.metadata := by
      rw [← hsentence, heven j g hij (by omega) hg, heven (j + 1) h (by omega) (by omega) hh]
    rw [follow_of_eq hsame]
    exact ih (fun k h hk hkj => heven k h hk (by omega)) hc

/-- Every list comes from a sentence at or before the place, and the metadata have stayed since. -/
theorem exists_start {i : Nat} {a : Held} (ha : (share hs)[i]? = some a) :
    ∃ s h, s ≤ i ∧ hs[s]? = some h ∧ h.list = a.list ∧ Even hs s i a.sentence.metadata := by
  induction i generalizing a with
  | zero =>
    rw [getElem?_share_zero] at ha
    refine ⟨0, a, Nat.le_refl 0, ha, rfl, ?_⟩
    intro k h hk hk' hh
    obtain rfl : k = 0 := by omega
    rw [Option.some.inj (hh.symm.trans ha)]
  | succ i ih =>
    obtain ⟨b, h, hb, hh, rfl⟩ := of_share_succ ha
    by_cases heq : b.sentence.metadata = h.sentence.metadata
    · -- The list is taken over, so it comes from where that of the sentence before comes from.
      obtain ⟨s, g, hs, hg, hlist, heven⟩ := ih hb
      refine ⟨s, g, by omega, hg, by rw [hlist, follow_of_eq heq], ?_⟩
      intro k c hk hk' hc
      rw [sentence_follow]
      rcases Nat.lt_or_ge i k with hik | hik
      · obtain rfl : k = i + 1 := by omega
        rw [Option.some.inj (hc.symm.trans hh)]
      · rw [heven k c hk hik hc, heq]
    · rw [follow_of_ne heq]
      refine ⟨i + 1, h, Nat.le_refl _, hh, rfl, ?_⟩
      intro k c hk hk' hc
      obtain rfl : k = i + 1 := by omega
      rw [Option.some.inj (hc.symm.trans hh)]

end Held

/-! ### Trees -/

namespace TextUnit

/-- Sentences that hold one list have its metadata. -/
def Consistent (u : TextUnit Held) : Prop :=
  ∀ a ∈ u.leaves, ∀ b ∈ u.leaves, a.list = b.list → a.sentence.metadata = b.sentence.metadata

/-- No two sentences hold one list. -/
def Unshared (u : TextUnit Held) : Prop := (u.leaves.map Held.list).Nodup

/-- Lists that are not shared have one content each. -/
theorem Unshared.consistent {u : TextUnit Held} (hu : u.Unshared) : u.Consistent := by
  intro a ha b hb hlist
  rw [List.inj_on_of_nodup_map hu ha hb hlist]

/-- Two places are in one unit, and all sentences from the one to the other have equal metadata. -/
def SameRun (u : TextUnit Sentence) (p q : Place) : Prop :=
  p.path = q.path ∧ ∃ ms : List Metadata, ∀ k s, min p.index q.index ≤ k →
    k ≤ max p.index q.index → u.at? ⟨p.path, k⟩ = some s → s.metadata = ms

variable {u : TextUnit Held} {p q : Place} {a b : Held}

theorem share_share (u : TextUnit Held) : u.share.share = u.share := by
  rw [share, share, mapOwn_mapOwn]
  refine congrArg (fun f => mapOwn f u) ?_
  funext own
  exact Held.share_share own

/-- What sharing left at a place, it left in the unit of the place. -/
theorem of_at?_share {path : List Nat} {i : Nat} (ha : u.share.at? ⟨path, i⟩ = some a) :
    ∃ v, unit? path u = some v ∧ (Held.share v.sentences)[i]? = some a := by
  rw [share, at?_mapOwn] at ha
  exact Option.bind_eq_some_iff.mp ha

/-- A place of a unit by what the unit says. -/
theorem at?_values {path : List Nat} {v : TextUnit Held} (hv : unit? path u = some v) (k : Nat) :
    u.values.at? ⟨path, k⟩ = v.sentences[k]?.map Held.sentence := by
  rw [values, at?_mapOwn, hv, Option.bind_some, List.getElem?_map]

/-- Neighbours hold one list exactly if their metadata are equal. -/
theorem list_eq_iff_of_neighbours (hu : u.Consistent) {path : List Nat} {i : Nat}
    (ha : u.share.at? ⟨path, i⟩ = some a) (hb : u.share.at? ⟨path, i + 1⟩ = some b) :
    a.list = b.list ↔ a.sentence.metadata = b.sentence.metadata := by
  obtain ⟨v, hv, ha⟩ := of_at?_share ha
  obtain ⟨v', hv', hb⟩ := of_at?_share hb
  obtain rfl : v = v' := Option.some.inj (hv.symm.trans hv')
  obtain ⟨a', h, ha', hh, rfl⟩ := Held.of_share_succ hb
  obtain rfl : a = a' := Option.some.inj (ha.symm.trans ha')
  rw [Held.sentence_follow]
  refine ⟨?_, fun heq => (Held.follow_of_eq heq).symm⟩
  intro hlist
  by_contra hne
  -- The list of the first was held before by a sentence with the same metadata.
  rw [Held.follow_of_ne hne] at hlist
  obtain ⟨s, g, hs, hg, hfrom, heven⟩ := Held.exists_start ha
  refine hne ?_
  calc a.sentence.metadata
      = g.sentence.metadata := (heven s g (Nat.le_refl s) hs hg).symm
    _ = h.sentence.metadata :=
        hu g (mem_leaves_of_unit? hv (List.mem_of_getElem? hg)) h
          (mem_leaves_of_unit? hv (List.mem_of_getElem? hh)) (hfrom.trans hlist)

/-- In one run the sentences hold one list. -/
theorem list_eq_of_sameRun (hrun : u.values.SameRun p q) (ha : u.share.at? p = some a)
    (hb : u.share.at? q = some b) : a.list = b.list := by
  obtain ⟨path, i⟩ := p
  obtain ⟨path', j⟩ := q
  obtain ⟨rfl : path = path', ms, hms⟩ := hrun
  obtain ⟨v, hv, ha⟩ := of_at?_share ha
  obtain ⟨v', hv', hb⟩ := of_at?_share hb
  obtain rfl : v = v' := Option.some.inj (hv.symm.trans hv')
  have heven : Held.Even v.sentences (min i j) (max i j) ms := by
    intro k h hk hk' hh
    refine hms k h.sentence hk hk' ?_
    rw [at?_values hv, hh, Option.map_some]
  rcases Nat.le_total i j with hij | hij
  · rw [Nat.min_eq_left hij, Nat.max_eq_right hij] at heven
    exact Held.list_eq_of_even hij heven ha hb
  · rw [Nat.min_eq_right hij, Nat.max_eq_left hij] at heven
    exact (Held.list_eq_of_even hij heven hb ha).symm

/-- Where no list was shared, the sentences that hold one list are those in one run. -/
theorem list_eq_iff_sameRun (hu : u.Unshared) (ha : u.share.at? p = some a)
    (hb : u.share.at? q = some b) : a.list = b.list ↔ u.values.SameRun p q := by
  refine ⟨?_, fun hrun => list_eq_of_sameRun hrun ha hb⟩
  intro hlist
  obtain ⟨path, i⟩ := p
  obtain ⟨path', j⟩ := q
  obtain ⟨v, hv, ha⟩ := of_at?_share ha
  obtain ⟨w, hw, hb⟩ := of_at?_share hb
  obtain ⟨s, g, hs, hg, hfrom, heven⟩ := Held.exists_start ha
  obtain ⟨s', g', hs', hg', hfrom', heven'⟩ := Held.exists_start hb
  -- Both lists come from one place.
  have hstart : (⟨path, s⟩ : Place) = ⟨path', s'⟩ :=
    place_eq_of_nodup hu (Option.bind_eq_some_iff.mpr ⟨v, hv, hg⟩)
      (Option.bind_eq_some_iff.mpr ⟨w, hw, hg'⟩) ((hfrom.trans hlist).trans hfrom'.symm)
  obtain ⟨rfl, rfl⟩ := Place.mk.inj hstart
  obtain rfl : v = w := Option.some.inj (hv.symm.trans hw)
  obtain rfl : g = g' := Option.some.inj (hg.symm.trans hg')
  refine ⟨rfl, g.sentence.metadata, ?_⟩
  intro k c hk hk' hc
  rw [at?_values hv] at hc
  obtain ⟨h, hh, rfl⟩ := Option.map_eq_some_iff.mp hc
  simp only at hk hk'
  rcases Nat.lt_or_ge i k with hik | hki
  · rw [heven' k h (by omega) (by omega) hh, heven' s g (Nat.le_refl s) hs' hg]
  · rw [heven k h (by omega) hki hh, heven s g (Nat.le_refl s) hs hg]

end TextUnit

end XmlHarvest

/-
Which lists the sentences of an extracted document share once it has been stored and read back.

The sentences of a passage have equal metadata and stand together, so sharing equal lists of
neighbours gives them one list, whichever lists they held before (`TextUnit.exists_lists`).  With
what sharing does to any tree this says that reading back loses no sharing
(`TextUnit.sharing_regained`).
-/
import XmlHarvest.Proofs.Document.Runs
import XmlHarvest.Proofs.Store.Retrieval

namespace XmlHarvest

open Relation

/-! ### Numbers given anew -/

theorem length_renumber (labels : List Nat) : (renumber labels).length = labels.length := by
  rw [renumber, List.length_map]

/-- Giving numbers anew leaves which of them are the same. -/
theorem getElem?_renumber_inj {labels : List Nat} {i j : Nat} :
    (renumber labels)[i]? = (renumber labels)[j]? ↔ labels[i]? = labels[j]? := by
  rw [renumber, List.getElem?_map, List.getElem?_map]
  cases hi : labels[i]? with
  | none =>
    cases labels[j]? with
    | none => exact Iff.rfl
    | some l => simp
  | some k =>
    have hk : k ∈ labels.eraseDups := by
      rw [List.mem_eraseDups]
      exact List.mem_of_getElem? hi
    cases labels[j]? with
    | none => simp
    | some l =>
      rw [Option.map_some, Option.map_some, Option.some_inj, Option.some_inj, List.idxOf_inj hk]

/-! ### One list for a passage -/

namespace Passage

/-- The lists of all sentences, where each passage has one list. -/
def lists (bs : List Passage) (ls : List Nat) : List Nat :=
  (bs.zip ls).flatMap fun e => List.replicate e.1.texts.length e.2

theorem lists_cons (b : Passage) (bs : List Passage) (l : Nat) (ls : List Nat) :
    lists (b :: bs) (l :: ls) = List.replicate b.texts.length l ++ lists bs ls := by
  rw [lists, List.zip_cons_cons, List.flatMap_cons, lists]

theorem lists_append {bs bs' : List Passage} {ls ls' : List Nat} (h : ls.length = bs.length) :
    lists (bs ++ bs') (ls ++ ls') = lists bs ls ++ lists bs' ls' := by
  rw [lists, List.zip_append h.symm, List.flatMap_append, lists, lists]

theorem lists_map (bs : List Passage) (ks : List Nat) (f : Nat → Nat) :
    lists bs (ks.map f) = (lists bs ks).map f := by
  rw [lists, List.zip_map_right, List.flatMap_map, lists, List.map_flatMap]
  refine List.flatMap_congr fun e _ => ?_
  rw [Prod.map_snd, Prod.map_fst, List.map_replicate, id]

end Passage

namespace Held

theorem share_eq_shareAfter (hs : List Held) : ∃ a, share hs = shareAfter a hs := by
  cases hs with
  | nil => exact ⟨⟨⟨"", []⟩, 0⟩, rfl⟩
  | cons h hs =>
    refine ⟨h, ?_⟩
    have hself : h.follow h = h := by rw [follow, if_pos rfl]
    rw [share, shareAfter, hself]

theorem shareAfter_append (a : Held) (hs gs : List Held) :
    shareAfter a (hs ++ gs) = shareAfter a hs ++ shareAfter (hs.foldl follow a) gs := by
  induction hs generalizing a with
  | nil => rfl
  | cons h hs ih => rw [List.cons_append, shareAfter, shareAfter, ih, List.cons_append, List.foldl_cons]

/-- Sentences with the metadata of the one before them all take over its list. -/
theorem map_list_shareAfter {a : Held} {hs : List Held}
    (h : ∀ g ∈ hs, g.sentence.metadata = a.sentence.metadata) :
    (shareAfter a hs).map list = List.replicate hs.length a.list := by
  induction hs generalizing a with
  | nil => rfl
  | cons g hs ih =>
    obtain ⟨hg, hrest⟩ := List.forall_mem_cons.mp h
    have hnext : (a.follow g).sentence.metadata = a.sentence.metadata := by rw [sentence_follow, hg]
    have hothers := ih (fun g' hg' => (hrest g' hg').trans hnext.symm)
    rw [shareAfter, List.map_cons, hothers, follow_of_eq hg.symm, List.length_cons,
      List.replicate_succ]

/-- Sentences that hold lists with numbers from `next` on. -/
def apart (next : Nat) (ss : List Sentence) : List Held :=
  (ss.zipIdx next).map fun e => ⟨e.1, e.2⟩

theorem apart_append (next : Nat) (ss ss' : List Sentence) :
    apart next (ss ++ ss') = apart next ss ++ apart (next + ss.length) ss' := by
  rw [apart, List.zipIdx_append, List.map_append, apart, apart]

theorem sentence_of_mem_apart {next : Nat} {ss : List Sentence} {h : Held}
    (hh : h ∈ apart next ss) : h.sentence ∈ ss := by
  obtain ⟨e, he, rfl⟩ := List.mem_map.mp hh
  exact List.fst_mem_of_mem_zipIdx he

/-- The sentences of a passage come to hold one list. -/
theorem exists_list_of_passage (a : Held) (next : Nat) (b : Passage) :
    ∃ l, (shareAfter a (apart next b.sentences)).map list = List.replicate b.texts.length l := by
  obtain ⟨metadata, texts⟩ := b
  cases texts with
  | nil => exact ⟨0, rfl⟩
  | cons text texts =>
    -- The first of them follows what is before the passage, the others follow the first.
    let first := a.follow ⟨⟨text, metadata⟩, next⟩
    let others := apart (next + 1) (Passage.sentences ⟨metadata, texts⟩)
    have hlength : others.length = texts.length := by simp [others, apart, Passage.sentences]
    have hothers : ∀ g ∈ others, g.sentence.metadata = first.sentence.metadata := by
      intro g hg
      obtain ⟨t, -, ht⟩ := List.mem_map.mp (sentence_of_mem_apart hg)
      rw [← ht, sentence_follow]
    refine ⟨first.list, ?_⟩
    show (first :: shareAfter first others).map list = _
    rw [List.map_cons, map_list_shareAfter hothers, hlength, List.length_cons, List.replicate_succ]

/-- However passages are held, sharing leaves one list for each of them. -/
theorem exists_lists_of_passages (a : Held) (next : Nat) (bs : List Passage) :
    ∃ ls, ls.length = bs.length ∧
      (shareAfter a (apart next (bs.flatMap Passage.sentences))).map list = Passage.lists bs ls := by
  induction bs generalizing a next with
  | nil => exact ⟨[], rfl, rfl⟩
  | cons b bs ih =>
    obtain ⟨l, hl⟩ := exists_list_of_passage a next b
    obtain ⟨ls, hlength, hls⟩ := ih ((apart next b.sentences).foldl follow a)
      (next + b.sentences.length)
    refine ⟨l :: ls, by rw [List.length_cons, List.length_cons, hlength], ?_⟩
    rw [List.flatMap_cons, apart_append, shareAfter_append, List.map_append, hl, hls,
      Passage.lists_cons]

end Held

namespace TextUnit

mutual

/-- When a tree of passages is read back with a list for each sentence, sharing leaves one list for
each passage. -/
theorem exists_lists : ∀ (u : TextUnit Passage) (next : Nat), ∃ ls, ls.length = u.leaves.length ∧
    (u.spread.apart next).share.leaves.map Held.list = Passage.lists u.leaves ls
  | ⟨name, metadata, units, own⟩, next => by
    obtain ⟨a, ha⟩ := Held.share_eq_shareAfter (Held.apart next (own.flatMap Passage.sentences))
    obtain ⟨ls, hlength, hls⟩ := Held.exists_lists_of_passages a next own
    obtain ⟨ls', hlength', hls'⟩ :=
      exists_listsOf units (next + (own.flatMap Passage.sentences).length)
    refine ⟨ls ++ ls', by rw [leaves, List.length_append, List.length_append, hlength, hlength'], ?_⟩
    show (Held.share (Held.apart next (own.flatMap Passage.sentences)) ++ _).map Held.list = _
    rw [ha, List.map_append, hls, leaves, Passage.lists_append hlength, ← hls']

theorem exists_listsOf : ∀ (us : List (TextUnit Passage)) (next : Nat),
    ∃ ls, ls.length = (leavesOf us).length ∧
      (leavesOf (mapOwns Held.share
        (apartAll next (mapOwns (·.flatMap Passage.sentences) us)))).map Held.list =
        Passage.lists (leavesOf us) ls
  | [], _ => ⟨[], rfl, rfl⟩
  | u :: us, next => by
    obtain ⟨ls, hlength, hls⟩ := exists_lists u next
    obtain ⟨ls', hlength', hls'⟩ := exists_listsOf us (next + u.spread.leaves.length)
    refine ⟨ls ++ ls', by
      rw [leavesOf, List.length_append, List.length_append, hlength, hlength'], ?_⟩
    show ((u.spread.apart next).share.leaves ++ _).map Held.list = _
    rw [List.map_append, hls, leavesOf, Passage.lists_append hlength, ← hls']
    rfl

end

theorem passageSharing_eq (u : TextUnit Passage) :
    u.passageSharing = renumber (Passage.lists u.leaves (List.range u.leaves.length)) := by
  rw [passageSharing, List.zipIdx_eq_zip_range', List.range_eq_range']
  rfl

/-- Sentences of one passage hold one list after the tree was read back. -/
theorem sharing_of_passageSharing (u : TextUnit Passage) {i j k : Nat}
    (hi : u.passageSharing[i]? = some k) (hj : u.passageSharing[j]? = some k) :
    ∃ l, (u.spread.apart 0).share.sharing[i]? = some l ∧
      (u.spread.apart 0).share.sharing[j]? = some l := by
  obtain ⟨ls, hlength, hls⟩ := u.exists_lists 0
  -- The list of a sentence is a function of the number of its passage.
  have hnumbers : ls = (List.range u.leaves.length).map fun k => ls.getD k 0 := by
    refine List.ext_getElem (by simp [hlength]) ?_
    intro k hk hk'
    simp [hk]
  have hsharing : (u.spread.apart 0).share.sharing = renumber
      ((Passage.lists u.leaves (List.range u.leaves.length)).map fun k => ls.getD k 0) := by
    rw [sharing, hls, ← Passage.lists_map, ← hnumbers]
  rw [passageSharing_eq] at hi hj
  have hpassage := getElem?_renumber_inj.mp (hi.trans hj.symm)
  obtain ⟨l, hl⟩ : ∃ l, (u.spread.apart 0).share.sharing[i]? = some l := by
    have hbound := (List.getElem?_eq_some_iff.mp hi).1
    rw [length_renumber] at hbound
    refine ⟨_, List.getElem?_eq_getElem ?_⟩
    rwa [hsharing, length_renumber, List.length_map]
  refine ⟨l, hl, ?_⟩
  rw [← hl, hsharing, getElem?_renumber_inj, List.getElem?_map, List.getElem?_map, hpassage]

end TextUnit

/-! ### Documents that are read back -/

/-- Sharing lists leaves what a tree says, gives neighbours one list exactly if their metadata are
equal, and changes nothing when it is done again; where no list was shared, two sentences come to
hold one list exactly if they are in one run.  So two sentences of an extracted document that hold
one list hold one list when the document has been stored and is read back. -/
theorem TextUnit.sharing_regained :
    (∀ u : TextUnit Held,
      u.share.values = u.values ∧
      (u.Consistent → ∀ path i a b, u.share.at? ⟨path, i⟩ = some a →
        u.share.at? ⟨path, i + 1⟩ = some b →
        (a.list = b.list ↔ a.sentence.metadata = b.sentence.metadata)) ∧
      u.share.share = u.share ∧
      (u.Unshared → ∀ p q a b, u.share.at? p = some a → u.share.at? q = some b →
        (a.list = b.list ↔ u.values.SameRun p q))) ∧
    ∀ {x : Extractor} {xml source : String} {t : Xml.Tree} {us : List (TextUnit Passage)}
      {ds : List Document} {db db' db'' : Database} {ids : List Nat},
      Xml.read? xml = some t → x.unitsOf t = .ok us → x.extract xml = .ok ds → db.Reached →
      (Access.save source ds db = .ok ids db' ∨
        ∃ w, Access.saveLogged source ds w db = .ok ids db') →
      ReflTransGen Database.Grows db' db'' →
      us.length = ds.length ∧ ids.length = ds.length ∧
      ∀ (j : Nat) u d id, us[j]? = some u → ds[j]? = some d → ids[j]? = some id →
        d = Document.ofUnit u.spread ∧
        ((Json.maxDepth < d.body.toJson.depth ∧
            Access.document? id db'' = .error (.corrupt id) db'') ∨
          ∃ s, Access.document? id db'' = .ok (some s) db'' ∧ s.body.values = d.body ∧
            ∀ (i i' k : Nat), u.passageSharing[i]? = some k → u.passageSharing[i']? = some k →
              ∃ l, s.body.sharing[i]? = some l ∧ s.body.sharing[i']? = some l) := by
  refine ⟨?_, ?_⟩
  · intro u
    refine ⟨u.values_share, ?_, u.share_share, ?_⟩
    · intro hu path i a b ha hb
      exact list_eq_iff_of_neighbours hu ha hb
    · intro hu p q a b ha hb
      exact list_eq_iff_sameRun hu ha hb
  · intro x xml source t us ds db db' db'' ids htree hunits hrun hdb hsave hlater
    have hds : us.map (fun u => Document.ofUnit u.spread) = ds := by
      have hdocuments : x.documentsOf t = .ok ds := by rw [← hrun, Extractor.extract, htree]
      rw [Extractor.documentsOf, hunits] at hdocuments
      exact Except.ok.inj hdocuments
    obtain ⟨hlength, hnumbered, t', ht', hrows⟩ := Database.rows_of_saved_later hdb hsave hlater
    refine ⟨by rw [← hds, List.length_map], hlength, ?_⟩
    intro j u d id hu hd hid
    have hdocument : d = Document.ofUnit u.spread := by
      rw [← hds, List.getElem?_map, hu] at hd
      exact (Option.some.inj hd).symm
    refine ⟨hdocument, ?_⟩
    rcases hnumbered.document?_cases ht' (hrows j id d hid hd) with hcorrupt | hread
    · exact .inl hcorrupt
    · refine .inr ⟨_, hread, d.body.values_share_apart, ?_⟩
      rw [hdocument]
      intro i i' k hi hi'
      exact u.sharing_of_passageSharing hi hi'

/-- Three sentences with equal metadata come to hold one list, and a sentence of another unit does
not join them; the two sentences that are extracted from an element hold one list when they are
read back. -/
theorem TextUnit.sharing_regained_three :
    let marked : List Metadata := [⟨"1", "n", ⟨["."], some "n", "n"⟩⟩]
    let u : TextUnit Held := ⟨"text", [], [⟨"part", [], [], [⟨⟨"e", marked⟩, 4⟩]⟩],
      [⟨⟨"a", []⟩, 0⟩, ⟨⟨"b", []⟩, 1⟩, ⟨⟨"c", []⟩, 2⟩, ⟨⟨"d", marked⟩, 3⟩]⟩
    let x : Extractor := ⟨.nested ⟨"text", ["//p"], []⟩
      [.terminal ⟨"sentence", ["text()"], [⟨["."], some "n", "n"⟩]⟩], .punctuation, true⟩
    u.Unshared ∧ u.Consistent ∧ u.share.sharing = [0, 0, 0, 1, 2] ∧
      u.values.SameRun ⟨[], 0⟩ ⟨[], 2⟩ ∧ ¬ u.values.SameRun ⟨[], 3⟩ ⟨[0], 0⟩ ∧
      ∃ ds db s, x.extract "<p n='1'>One. Two.</p>" = .ok ds ∧
        Access.save "a.xml" ds .migrated = .ok [1] db ∧
        Access.document? 1 db = .ok (some s) db ∧
        ∃ l, s.body.sharing[0]? = some l ∧ s.body.sharing[1]? = some l := by
  intro marked u x
  obtain ⟨hshare, hregained⟩ := TextUnit.sharing_regained
  obtain ⟨-, -, -, hruns⟩ := hshare u
  have hunshared : u.Unshared := by
    show (u.leaves.map Held.list).Nodup
    decide +kernel
  refine ⟨hunshared, hunshared.consistent, by decide +kernel, ?_, ?_, ?_⟩
  · exact (hruns hunshared ⟨[], 0⟩ ⟨[], 2⟩ _ _ rfl rfl).mp rfl
  · intro hrun
    have hlist := (hruns hunshared ⟨[], 3⟩ ⟨[0], 0⟩ _ _ rfl rfl).mpr hrun
    cases hlist
  · have hunits : ((Xml.read? "<p n='1'>One. Two.</p>").bind fun t =>
        (x.unitsOf t).toOption.map fun us => us.map fun u =>
          (u.passageSharing, decide (u.spread.toJson.depth ≤ Json.maxDepth))) =
        some [([0, 0], true)] := by decide +kernel
    obtain ⟨t, htree, hunits⟩ := Option.bind_eq_some_iff.mp hunits
    cases hus : x.unitsOf t with
    | error e =>
      rw [hus] at hunits
      cases hunits
    | ok us =>
      rw [hus] at hunits
      obtain ⟨v, rfl, hv⟩ := List.map_eq_singleton_iff.mp (Option.some.inj hunits)
      obtain ⟨hpassages, hdepth⟩ := Prod.mk.inj hv
      have hrun : x.extract "<p n='1'>One. Two.</p>" = .ok [Document.ofUnit v.spread] := by
        rw [Extractor.extract, htree]
        show x.documentsOf t = _
        rw [Extractor.documentsOf, hus]
        rfl
      obtain ⟨db, hsave⟩ : ∃ db, Access.save "a.xml" [Document.ofUnit v.spread] .migrated =
          .ok [1] db := ⟨_, rfl⟩
      obtain ⟨-, -, hread⟩ := hregained htree hus hrun (.grows .fresh (.migrate .fresh))
        (.inl hsave) .refl
      obtain ⟨-, ⟨hdeep, -⟩ | ⟨s, hs, -, hlists⟩⟩ := hread 0 v _ 1 rfl rfl rfl
      · exact absurd (of_decide_eq_true hdepth) (Nat.not_le_of_lt hdeep)
      · have hboth := hlists 0 1 0 (by rw [hpassages]; rfl) (by rw [hpassages]; rfl)
        exact ⟨_, db, s, hrun, hsave, hs, hboth⟩

end XmlHarvest

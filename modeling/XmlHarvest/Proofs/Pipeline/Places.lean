/-
Files that come and go while they are being recorded.

The mark of a recorded file is its place in the sorted collection, so progress belongs to places.
Main statements: as long as no file of another name turns up at a place that is recorded, every run
passes over exactly the files that were recorded before, and when the stage is done, each file of
the collection was recorded once (`Attempt.followsFiles_of_placesKept`).  A file that is added in
front of the recorded ones is passed over instead of the first of them, which is recorded again.
-/
import XmlHarvest.Proofs.Pipeline.Calls

namespace XmlHarvest

open Checkpoint

variable {σ α : Type}

/-! ### The sorted collection -/

/-- The names of the files stand in strictly increasing order. -/
theorem Pipeline.pairwise_listing (pl : Pipeline σ) :
    (pl.listing.map Prod.fst).Pairwise (· < ·) := by
  unfold listing Collection.files
  cases pl.collection.entries with
  | none => exact .nil
  | some entries =>
    rw [List.pairwise_map]
    exact (Keyed.ofList (entries.filterMap pl.config.file?)).sorted

/-- In a strictly increasing list of names each stands at one place. -/
theorem place_unique {names : List String} (h : names.Pairwise (· < ·)) {j j' : Nat} {name : String}
    (hj : names[j]? = some name) (hj' : names[j']? = some name) : j = j' := by
  have hnodup : names.Nodup := h.imp String.ne_of_lt
  exact (List.getElem?_inj (List.getElem?_eq_some_iff.mp hj).1 hnodup).mp (hj.trans hj'.symm)

namespace Pipeline

variable {pl : Pipeline σ} {l : Limits} {p : Progress} {r : Run σ}

/-- A run passes over the files at the places that are recorded. -/
theorem recordFrom_recorded (hr : r.Shows l p) (fs : List (String × Option String)) {k : Nat}
    (hk : k ≤ p.files.length) : pl.recordFrom 1 fs r = pl.recordFrom (k + 1) (fs.drop k) r := by
  induction k with
  | zero => rfl
  | succ k ih =>
    rw [ih (by omega), ← List.tail_drop]
    cases fs.drop k with
    | nil => rfl
    | cons f gs =>
      obtain ⟨name, content⟩ := f
      have hrecorded : consult (fileRecorded (k + 1)) r = .ok true r := by
        rw [consult, hr.database.fileRecorded (Nat.succ_pos k), decide_eq_true hk]
      simp only [recordFrom, bind, EStateM.bind, hrecorded, List.tail_cons, if_true]

end Pipeline

namespace Attempt

/-! ### Names at places -/

/-- The name of the file at a place. -/
def name? (a : Attempt) (j : Nat) : Option String := (a.file? j).map Prod.fst

theorem file?_eq_listing (a : Attempt) (j : Nat) : a.file? j = a.pipeline.listing[j]? := by
  unfold file? files? Pipeline.listing
  cases a.pipeline.collection.files a.pipeline.config <;> rfl

theorem name?_eq_listing (a : Attempt) (j : Nat) :
    a.name? j = (a.pipeline.listing.map Prod.fst)[j]? := by
  rw [name?, file?_eq_listing, List.getElem?_map]

theorem name?_of_names {a : Attempt} {names : List String}
    (h : a.files?.map (·.map Prod.fst) = some names) {j : Nat} : a.name? j = names[j]? := by
  obtain ⟨fs, hfs, rfl⟩ := Option.map_eq_some_iff.mp h
  rw [name?, file?, hfs, Option.bind_some, List.getElem?_map]

/-- One of the attempts recorded a file of this name, and as the one at the place. -/
def RecordedAs (as : List Attempt) (j : Nat) (name : String) : Prop :=
  ∃ i a, as[i]? = some a ∧ Records as i j ∧ a.name? j = some name

theorem not_recordedAs_nil (j : Nat) (name : String) : ¬ RecordedAs [] j name := by
  rintro ⟨i, a, ha, -⟩
  cases ha

theorem name?_of_recordedAs_singleton {a : Attempt} {j : Nat} {name : String}
    (h : RecordedAs [a] j name) : a.name? j = some name := by
  obtain ⟨i, b, hb, -, hname⟩ := h
  rwa [← List.mem_singleton.mp (List.mem_of_getElem? hb)]

/-- The attempts have left files to be recorded. -/
def Unfinished (as : List Attempt) : Prop :=
  (stageDone .textAndMetadata).answer? (afterAll as) ≠ some true

/-- As long as files are left, none of another name turns up at a place that is recorded. -/
def PlacesKept (as : List Attempt) : Prop :=
  ∀ before a later, as = before ++ a :: later → Unfinished before →
    ∀ j name name', a.name? j = some name → RecordedAs before j name' → name' = name

theorem PlacesKept.before {as : List Attempt} {a : Attempt} (h : PlacesKept (as ++ [a])) :
    PlacesKept as := by
  intro before b later has
  exact h before b (later ++ [a]) (by rw [has]; simp)

variable {as : List Attempt} {a : Attempt} {p p' : Progress}

/-- Whether a file was recorded by one of the first attempts depends on these alone. -/
theorem records_append {i j : Nat} (hi : i < as.length) :
    Records (as ++ [a]) i j ↔ Records as i j := by
  unfold Records
  rw [List.take_append_of_le_length (by omega), List.take_append_of_le_length (by omega)]

theorem records_length_iff {j : Nat} (hdb : (afterAll as).Shows p)
    (hdb' : (afterAll (as ++ [a])).Shows p') :
    Records (as ++ [a]) as.length j ↔ p.files.length ≤ j ∧ j < p'.files.length := by
  unfold Records
  rw [List.take_left, List.take_of_length_le (by simp), Access.answer?, Access.answer?,
    hdb.fileRecorded (Nat.succ_pos j), hdb'.fileRecorded (Nat.succ_pos j)]
  simp only [Option.some.injEq, decide_eq_false_iff_not, decide_eq_true_eq]
  omega

namespace Course

/-- What an attempt records is the file at its place, with what extraction makes of it. -/
theorem recorded (h : Course as p) {j : Nat} {e : String × List Document}
    (he : p.files[j]? = some e) :
    ∃ i a, as[i]? = some a ∧ Records as i j ∧ a.name? j = some e.1 ∧
      a.extracted? j = some (.ok e.2) := by
  induction h with
  | nil => cases he
  | @append as a p p' before ran shown taken shown' ih =>
    by_cases hlt : j < p.files.length
    · -- The file was recorded before, and the attempt keeps what is recorded.
      have hget : p.files[j]? = some p.files[j] := List.getElem?_eq_getElem hlt
      obtain rfl : p.files[j] = e :=
        Option.some.inj ((getElem?_of_beginning ran.files.kept hget).symm.trans he)
      obtain ⟨i, b, hb, hrecords, hname, hds⟩ := ih hget
      have hi : i < as.length := (List.getElem?_eq_some_iff.mp hb).1
      exact ⟨i, b, by rw [List.getElem?_append_left hi, hb], (records_append hi).mpr hrecords,
        hname, hds⟩
    · obtain ⟨content, hfile, hds⟩ := ran.files.new j e (Nat.le_of_not_lt hlt) he
      have hlt' : j < p'.files.length := (List.getElem?_eq_some_iff.mp he).1
      refine ⟨as.length, a, by simp,
        (records_length_iff shown shown').mpr ⟨Nat.le_of_not_lt hlt, hlt'⟩, ?_, ?_⟩
      · rw [name?, file?_eq_listing, hfile, Option.map_some]
      · rw [extracted?, file?_eq_listing, hfile, Option.map_some, hds]

/-- What an attempt recorded is still there. -/
theorem of_records (h : Course as p) {i j : Nat} (ha : as[i]? = some a)
    (hrecords : Records as i j) :
    ∃ e, p.files[j]? = some e ∧ a.name? j = some e.1 := by
  induction h with
  | nil => cases ha
  | @append as b p p' before ran shown taken shown' ih =>
    have hi : i < (as ++ [b]).length := (List.getElem?_eq_some_iff.mp ha).1
    rw [List.length_append, List.length_singleton] at hi
    by_cases hlt : i < as.length
    · rw [List.getElem?_append_left hlt] at ha
      obtain ⟨e, he, hname⟩ := ih ha ((records_append hlt).mp hrecords)
      exact ⟨e, getElem?_of_beginning ran.files.kept he, hname⟩
    · obtain rfl : i = as.length := by omega
      obtain rfl : b = a := by simpa using ha
      obtain ⟨hle, hlt'⟩ := (records_length_iff shown shown').mp hrecords
      obtain ⟨content, hfile, -⟩ :=
        ran.files.new j _ hle (List.getElem?_eq_getElem hlt')
      exact ⟨_, List.getElem?_eq_getElem hlt', by
        rw [name?, file?_eq_listing, hfile, Option.map_some]⟩

/-- No two attempts record the file at one place. -/
theorem records_unique (h : Course as p) {i i' j : Nat} (hi : i < as.length) (hi' : i' < as.length)
    (hrecords : Records as i j) (hrecords' : Records as i' j) : i = i' := by
  induction h with
  | nil => cases hi
  | @append as a p p' before ran shown taken shown' ih =>
    -- What an attempt recorded before the last one has its mark when the last one begins.
    have hmarked : ∀ m < as.length, Records (as ++ [a]) m j → j < p.files.length := by
      intro m hm hrec
      obtain ⟨e, he, -⟩ :=
        before.of_records (List.getElem?_eq_getElem hm) ((records_append hm).mp hrec)
      exact (List.getElem?_eq_some_iff.mp he).1
    have hlast : ∀ m, m = as.length → Records (as ++ [a]) m j → p.files.length ≤ j := by
      rintro m rfl hrec
      exact ((records_length_iff shown shown').mp hrec).1
    rw [List.length_append, List.length_singleton] at hi hi'
    by_cases hlt : i < as.length
    · by_cases hlt' : i' < as.length
      · exact ih hlt hlt' ((records_append hlt).mp hrecords) ((records_append hlt').mp hrecords')
      · have hle := hlast i' (by omega) hrecords'
        have hlt'' := hmarked i hlt hrecords
        omega
    · by_cases hlt' : i' < as.length
      · have hle := hlast i (by omega) hrecords
        have hlt'' := hmarked i' hlt' hrecords'
        omega
      · omega

theorem recordedAs_iff (h : Course as p) {j : Nat} {name : String} :
    RecordedAs as j name ↔ (p.files.map Prod.fst)[j]? = some name := by
  rw [List.getElem?_map, Option.map_eq_some_iff]
  constructor
  · rintro ⟨i, a, ha, hrecords, hname⟩
    obtain ⟨e, he, hname'⟩ := h.of_records ha hrecords
    exact ⟨e, he, Option.some.inj (hname'.symm.trans hname)⟩
  · rintro ⟨e, he, rfl⟩
    obtain ⟨i, a, ha, hrecords, hname, -⟩ := h.recorded he
    exact ⟨i, a, ha, hrecords, hname⟩

theorem unfinished_iff (h : Course as p) : Unfinished as ↔ p.flag .textAndMetadata ≠ some true := by
  rw [Unfinished, Ne, answer_stageDone h.shows]

/-- As long as the places are kept, a file that stands in the collection at a recorded place is the
one that was recorded there. -/
theorem name_of_recorded (h : Course as p) (hkept : PlacesKept (as ++ [a]))
    (hopened : p.flag .textAndMetadata ≠ some true) {j : Nat} (hj : j < p.files.length)
    {name : String} (hname : a.name? j = some name) :
    (p.files.map Prod.fst)[j]? = some name := by
  have hget : (p.files.map Prod.fst)[j]? = some (p.files[j]).1 := by
    rw [List.getElem?_map, List.getElem?_eq_getElem hj, Option.map_some]
  have hsame := hkept as a [] rfl (h.unfinished_iff.mpr hopened) j name _ hname
    (h.recordedAs_iff.mpr hget)
  rw [hget, hsame]

/-- If an attempt records a file, its collection begins with all files that are recorded then. -/
theorem names_begin (h : Course as p) (hkept : PlacesKept (as ++ [a])) (ran : a.pipeline.Ran p p')
    (hnew : p.files.length < p'.files.length) :
    p'.files.map Prod.fst <+: a.pipeline.listing.map Prod.fst := by
  have hopened : p.flag .textAndMetadata ≠ some true := by
    intro hdone
    rw [(ran.skipped hdone).1] at hnew
    exact Nat.lt_irrefl _ hnew
  -- A file is recorded behind the others, so none of their places is missing in the collection.
  have hlength : p.files.length < a.pipeline.listing.length := by
    obtain ⟨content, hfile, -⟩ :=
      ran.files.new p.files.length _ (Nat.le_refl _) (List.getElem?_eq_getElem hnew)
    exact (List.getElem?_eq_some_iff.mp hfile).1
  rw [List.prefix_iff_getElem?]
  intro j hj
  rw [List.length_map] at hj
  rw [List.getElem_map]
  by_cases hlt : j < p.files.length
  · have hname : a.name? j = some (a.pipeline.listing[j]).1 := by
      rw [name?_eq_listing, List.getElem?_map, List.getElem?_eq_getElem (hlt.trans hlength),
        Option.map_some]
    have hrecorded := h.name_of_recorded hkept hopened hlt hname
    have hlater := getElem?_of_beginning (ran.files.kept.map Prod.fst) hrecorded
    rw [List.getElem?_map, List.getElem?_eq_getElem hj, Option.map_some] at hlater
    rw [← name?_eq_listing, hname, hlater]
  · obtain ⟨content, hfile, -⟩ :=
      ran.files.new j _ (Nat.le_of_not_lt hlt) (List.getElem?_eq_getElem hj)
    rw [List.getElem?_map, hfile, Option.map_some]

/-- As long as the places are kept, files are recorded in the order of their names. -/
theorem pairwise_names (h : Course as p) (hkept : PlacesKept as) :
    (p.files.map Prod.fst).Pairwise (· < ·) := by
  induction h with
  | nil => exact .nil
  | @append as a p p' before ran shown taken shown' ih =>
    have hsorted := ih hkept.before
    by_cases hnew : p.files.length < p'.files.length
    · exact List.Pairwise.sublist (before.names_begin hkept ran hnew).sublist
        (Pipeline.pairwise_listing _)
    · rwa [← ran.files.kept.eq_of_length_le (by omega)]

end Course

end Attempt

/-! ### The rows of one file -/

/-- Among the rows those of one source are found where its documents were stored, if no others are
of this source. -/
theorem filter_source_rowsOf {pre post : List (String × Document)} {name : String}
    (ds : List Document) (hpre : ∀ e ∈ pre, e.1 ≠ name) (hpost : ∀ e ∈ post, e.1 ≠ name) :
    (rowsOf (pre ++ ds.map (fun d => (name, d)) ++ post)).filter (fun r => r.source = name) =
      List.zipWith (Row.ofDocument name) (List.range' (pre.length + 1) ds.length) ds := by
  have hothers : ∀ (es : List (String × Document)) (n : Nat), (∀ e ∈ es, e.1 ≠ name) →
      ((es.zipIdx n).map fun e => Row.ofDocument e.1.1 e.2 e.1.2).filter
        (fun r => r.source = name) = [] := by
    intro es n hes
    rw [List.filter_eq_nil_iff]
    intro r hr
    obtain ⟨⟨e, m⟩, he, rfl⟩ := List.mem_map.mp hr
    have hother : e.1 ≠ name := hes e (List.fst_mem_of_mem_zipIdx he)
    exact fun heq => hother (of_decide_eq_true heq)
  have hown : ∀ r ∈ List.zipWith (Row.ofDocument name) (List.range' (pre.length + 1) ds.length) ds,
      r.source = name := by
    rw [zipWith_range']
    intro r hr
    obtain ⟨e, -, rfl⟩ := List.mem_map.mp hr
    rfl
  rw [rowsOf, List.zipIdx_append, List.map_append, List.filter_append, hothers post _ hpost,
    List.append_nil]
  show (rowsOf (pre ++ ds.map fun d => (name, d))).filter _ = _
  rw [rowsOf_append, List.filter_append, rowsOf, hothers pre _ hpre, List.nil_append,
    List.filter_eq_self.mpr]
  intro r hr
  exact decide_eq_true (hown r hr)

/-- If no other file is of this name, the rows of the name are those of the file's documents. -/
theorem Tables.Shows.rows_of_file {t : Tables} {p : Progress} (h : t.Shows p)
    (hsorted : (p.files.map Prod.fst).Pairwise (· < ·)) {j : Nat} {name : String}
    {ds : List Document} (he : p.files[j]? = some (name, ds)) :
    ∃ first, t.rows.filter (fun r => r.source = name) =
      List.zipWith (Row.ofDocument name) (List.range' first ds.length) ds := by
  obtain ⟨pre, post, hfiles⟩ := List.append_of_mem (List.mem_of_getElem? he)
  have hdocuments : ∀ (es : List (String × List Document)), (∀ e ∈ es, e.1 ≠ name) →
      ∀ e ∈ es.flatMap (fun f => f.2.map fun d => (f.1, d)), e.1 ≠ name := by
    intro es hes e hmem
    obtain ⟨f, hf, hmem⟩ := List.mem_flatMap.mp hmem
    obtain ⟨d, -, rfl⟩ := List.mem_map.mp hmem
    exact hes f hf
  rw [hfiles, List.map_append, List.map_cons, List.pairwise_append, List.pairwise_cons] at hsorted
  obtain ⟨-, ⟨hbehind, -⟩, hbefore⟩ := hsorted
  refine ⟨(pre.flatMap fun f => f.2.map fun d => (f.1, d)).length + 1, ?_⟩
  rw [h.rows, Progress.documents, hfiles, List.flatMap_append, List.flatMap_cons,
    ← List.append_assoc]
  apply filter_source_rowsOf
  · apply hdocuments
    intro e hmem
    exact String.ne_of_lt (hbefore e.1 (List.mem_map_of_mem hmem) name List.mem_cons_self)
  · apply hdocuments
    intro e hmem
    exact (String.ne_of_lt (hbehind e.1 (List.mem_map_of_mem hmem))).symm

namespace Attempt

variable {as : List Attempt} {a : Attempt} {p p' : Progress}

/-! ### Runs that follow the files -/

/-- One of the attempts recorded the file and no other did, and the rows of this name are those of
the documents that were extracted then. -/
def RecordedOnce (as : List Attempt) (name : String) : Prop :=
  ∃ i a j ds t first, as[i]? = some a ∧ Records as i j ∧ a.name? j = some name ∧
    a.extracted? j = some (.ok ds) ∧
    (∀ i' a' j', as[i']? = some a' → Records as i' j' → a'.name? j' = some name →
      i' = i ∧ j' = j) ∧
    (afterAll as).contents.tables = some t ∧
    t.rows.filter (fun r => r.source = name) =
      List.zipWith (Row.ofDocument name) (List.range' first ds.length) ds

/-- The run after some attempts goes by the files themselves. -/
structure Follows (before : List Attempt) (a : Attempt) : Prop where
  /-- It passes over the files that are marked and works on the others, and the files that are
  marked are those that were recorded. -/
  passes : ∀ fs, a.files? = some fs → ∃ k,
    a.pipeline.recordFrom 1 fs (a.start (afterAll before)) =
      a.pipeline.recordFrom (k + 1) (fs.drop k) (a.start (afterAll before)) ∧
    ∀ j name, a.name? j = some name →
      (fileRecorded (j + 1)).answer? (afterAll before) = some (decide (j < k)) ∧
        (j < k ↔ ∃ place, RecordedAs before place name)
  /-- When the stage is done after it, each of its files was recorded once. -/
  done : (stageDone .textAndMetadata).answer? (afterAll (before ++ [a])) = some true →
    ∀ j name, a.name? j = some name → RecordedOnce (before ++ [a]) name

/-- As long as files are left, each attempt goes by the files themselves. -/
def FollowsFiles (as : List Attempt) : Prop :=
  ∀ before a later, as = before ++ a :: later → Unfinished before → Follows before a

namespace Course

/-- What was recorded under a name was recorded once, if the files are in order. -/
theorem recordedOnce (h : Course as p) (hsorted : (p.files.map Prod.fst).Pairwise (· < ·))
    {j : Nat} {name : String} (hj : (p.files.map Prod.fst)[j]? = some name) :
    RecordedOnce as name := by
  have hget := hj
  rw [List.getElem?_map] at hget
  obtain ⟨⟨name, ds⟩, he, rfl⟩ := Option.map_eq_some_iff.mp hget
  obtain ⟨i, a, ha, hrecords, hname, hds⟩ := h.recorded he
  obtain ⟨t, ht, hp⟩ := h.shows.tables
  obtain ⟨first, hrows⟩ := hp.rows_of_file hsorted he
  refine ⟨i, a, j, ds, t, first, ha, hrecords, hname, hds, ?_, ht, hrows⟩
  intro i' a' j' ha' hrecords' hname'
  obtain rfl : j' = j :=
    place_unique hsorted (h.recordedAs_iff.mp ⟨i', a', ha', hrecords', hname'⟩) hj
  exact ⟨h.records_unique (List.getElem?_eq_some_iff.mp ha').1 (List.getElem?_eq_some_iff.mp ha).1
    hrecords' hrecords, rfl⟩

/-- A file of the collection was recorded before exactly if its place is among the recorded ones. -/
theorem lt_length_iff (h : Course as p) (hkept : PlacesKept (as ++ [a]))
    (hopened : p.flag .textAndMetadata ≠ some true) {j : Nat} {name : String}
    (hname : a.name? j = some name) :
    j < p.files.length ↔ ∃ place, RecordedAs as place name := by
  constructor
  · intro hlt
    exact ⟨j, h.recordedAs_iff.mpr (h.name_of_recorded hkept hopened hlt hname)⟩
  · rintro ⟨place, hrecorded⟩
    rw [h.recordedAs_iff] at hrecorded
    have hplace : place < p.files.length := by
      simpa using (List.getElem?_eq_some_iff.mp hrecorded).1
    refine Decidable.byContradiction fun hbehind => ?_
    -- The collection has a file at the place, since it has one behind all recorded ones.
    rw [name?_eq_listing] at hname
    have hj : j < (a.pipeline.listing.map Prod.fst).length :=
      (List.getElem?_eq_some_iff.mp hname).1
    have hthere : a.name? place = some (a.pipeline.listing.map Prod.fst)[place] := by
      rw [name?_eq_listing, List.getElem?_eq_getElem (by omega)]
    have hsame := (h.name_of_recorded hkept hopened hplace hthere).symm.trans hrecorded
    rw [name?_eq_listing] at hthere
    rw [hsame] at hthere
    have heq := place_unique a.pipeline.pairwise_listing hthere hname
    omega

end Course

/-- Where the places are kept, runs go by the files themselves, and none is missed or recorded
twice. -/
theorem followsFiles_of_placesKept (hkept : PlacesKept as) : FollowsFiles as := by
  intro before a later has hopened
  -- What comes later plays no part.
  have hkept' : PlacesKept (before ++ [a]) := by
    intro before' a' later' heq
    exact hkept before' a' (later' ++ later) (by rw [has, ← List.singleton_append,
      ← List.append_assoc, heq, List.append_assoc, List.cons_append])
  obtain ⟨p, hcourse⟩ := course_afterAll before
  have hdb := hcourse.shows
  rw [hcourse.unfinished_iff] at hopened
  refine ⟨?_, ?_⟩
  · intro fs hfs
    refine ⟨p.files.length, Pipeline.recordFrom_recorded (a.start_shows hdb) fs (Nat.le_refl _), ?_⟩
    intro j name hname
    refine ⟨?_, hcourse.lt_length_iff hkept' hopened hname⟩
    rw [Access.answer?, hdb.fileRecorded (Nat.succ_pos j)]
    rfl
  · intro hdone j name hname
    obtain ⟨p', hdb', hran, htaken⟩ := ran_after (a := a) hdb
    rw [← afterAll_append_singleton] at hdb'
    have hcourse' : Course (before ++ [a]) p' := .append hcourse hran hdb htaken hdb'
    have hflag : p'.flag .textAndMetadata = some true :=
      Decidable.byContradiction fun hne => hcourse'.unfinished_iff.mpr hne hdone
    have hall : a.pipeline.listing.length ≤ p'.files.length :=
      (hran.recorded hflag).resolve_left hopened
    have hsorted := hcourse'.pairwise_names hkept'
    -- All places of the collection are recorded, each under the name of its file.
    have hj : (p'.files.map Prod.fst)[j]? = some name := by
      by_cases hlt : j < p.files.length
      · exact getElem?_of_beginning (hran.files.kept.map Prod.fst)
          (hcourse.name_of_recorded hkept' hopened hlt hname)
      · have hlength : j < p'.files.length := by
          rw [name?_eq_listing] at hname
          have hj := (List.getElem?_eq_some_iff.mp hname).1
          rw [List.length_map] at hj
          omega
        obtain ⟨content, hfile, -⟩ := hran.files.new j _ (Nat.le_of_not_lt hlt)
          (List.getElem?_eq_getElem hlength)
        rw [name?, file?_eq_listing, hfile, Option.map_some] at hname
        rw [List.getElem?_map, List.getElem?_eq_getElem hlength, Option.map_some, ← hname]
    exact hcourse'.recordedOnce hsorted hj

/-- A run on some files, whose documents are their top elements named `text`.  Nothing keeps it from
writing. -/
def onFiles (files : List (String × Option String)) : Attempt where
  pipeline := ⟨.default, ⟨.nested ⟨"text", ["text"], []⟩ [], .punctuation, true⟩,
    ⟨"texts", some (files.map fun f => (.text f.1, .file f.2))⟩, Parser.idle⟩
  parser := ()
  rejected := []
  writesLeft := none

/-- A run that stops at the second of its files, which is no text. -/
def interrupted : Attempt := onFiles [("a.xml", some "<text/>"), ("b.xml", none)]

theorem name?_interrupted (j : Nat) : interrupted.name? j = ["a.xml", "b.xml"][j]? :=
  name?_of_names (by decide +kernel)

/-- The second file is put right, and another one is added behind it. -/
def extended : Attempt :=
  onFiles [("a.xml", some "<text/>"), ("b.xml", some "<text/>"), ("c.xml", some "<text/>")]

theorem name?_extended (j : Nat) : extended.name? j = ["a.xml", "b.xml", "c.xml"][j]? :=
  name?_of_names (by decide +kernel)

theorem followsFiles_extended :
    PlacesKept [interrupted, extended] ∧ FollowsFiles [interrupted, extended] := by
  have hkept : PlacesKept [interrupted, extended] := by
    intro before a later heq hopened j name name' hname hrecorded
    rcases before with - | ⟨b, - | ⟨c, before⟩⟩
    · exact absurd hrecorded (not_recordedAs_nil j name')
    · -- The names at the places of the first run stand there in the second.
      simp only [List.cons_append, List.nil_append, List.cons.injEq] at heq
      obtain ⟨rfl, rfl, -⟩ := heq
      have hname' := name?_of_recordedAs_singleton hrecorded
      rw [name?_interrupted] at hname'
      rw [name?_extended] at hname
      have hbegins : ["a.xml", "b.xml"] <+: ["a.xml", "b.xml", "c.xml"] := ⟨["c.xml"], rfl⟩
      exact Option.some.inj ((getElem?_of_beginning hbegins hname').symm.trans hname)
    · simp at heq
  exact ⟨hkept, followsFiles_of_placesKept hkept⟩

/-- The second file is put right, and another one is added in front of both. -/
def shifted : Attempt :=
  onFiles [("0.xml", some "<text/>"), ("a.xml", some "<text/>"), ("b.xml", some "<text/>")]

/-- The stage is done, but the file in front was passed over, and the first one recorded twice. -/
theorem not_followsFiles_shifted :
    (stageDone .textAndMetadata).answer? (afterAll [interrupted, shifted]) = some true ∧
      (afterAll [interrupted, shifted]).contents.tables.map (·.rows.map Row.source) =
        some ["a.xml", "a.xml", "b.xml"] ∧
      ¬ FollowsFiles [interrupted, shifted] := by
  refine ⟨by decide +kernel, by decide +kernel, fun h => ?_⟩
  have hnames : shifted.files?.map (·.map Prod.fst) = some ["0.xml", "a.xml", "b.xml"] := by
    decide +kernel
  obtain ⟨fs, hfs, -⟩ := Option.map_eq_some_iff.mp hnames
  have hopened : Unfinished [interrupted] := by
    unfold Unfinished
    decide +kernel
  obtain ⟨k, -, hk⟩ := (h [interrupted] shifted [] rfl hopened).passes fs hfs
  obtain ⟨hmark, hiff⟩ := hk 0 "0.xml" (name?_of_names hnames)
  -- The first place is marked, so the file in front would have to be recorded.
  have hmarked : (fileRecorded 1).answer? (afterAll [interrupted]) = some true := by
    decide +kernel
  have hlt : 0 < k := of_decide_eq_true (Option.some.inj (hmark.symm.trans hmarked))
  obtain ⟨place, hrecorded⟩ := hiff.mp hlt
  have hname := name?_of_recordedAs_singleton hrecorded
  rw [name?_interrupted] at hname
  exact absurd (List.mem_of_getElem? hname) (by decide)

end Attempt

end XmlHarvest

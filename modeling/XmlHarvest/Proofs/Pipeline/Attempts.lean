/-
Runs of a pipeline one after the other, each of which may be stopped anywhere.

An `Attempt` is a run with all that bears on it: the collection as it is then, the parser with its
state, the keys of the ledger to which writes fail, and how many writes are committed before the
run is cut off.  Main statement: after any attempts on a new database the recorded files are the
first ones of the collection, their marks stand in the ledger in order, the rows are those of their
documents and nothing else, and all files are recorded once the flag of the stage is set
(`InitialSegment`).
-/
import XmlHarvest.Proofs.Pipeline.Moves
import Mathlib.Data.List.Infix

namespace XmlHarvest

open Checkpoint Relation

variable {σ : Type}

/-! ### Attempts -/

/-- The run in which a step is over, whether it ended or stopped. -/
def Run.last {α : Type} : EStateM.Result RunError (Run σ) α → Run σ
  | .ok _ r | .error _ r => r

/-- What holds whether a step ends or stops holds when it is over. -/
theorem Step.Ends.last {α : Type} {x : Step σ α} {r : Run σ} {S : Run σ → Prop}
    (h : Step.Ends x r (fun _ r' => S r') fun _ r' => S r') : S (Run.last (x r)) := by
  unfold Step.Ends at h
  cases hx : x r with
  | ok a r' =>
    rw [hx] at h
    exact h
  | error e r' =>
    rw [hx] at h
    exact h

/-- What an access answers, if it does not fail. -/
def Access.answer? {α : Type} (access : Access α) (db : Database) : Option α :=
  match access db with
  | .ok a _ => some a
  | .error _ _ => none

/-- A run that is to be made, with all that bears on it. -/
structure Attempt where
  {σ : Type}
  pipeline : Pipeline σ
  /-- The state of the parser. -/
  parser : σ
  /-- The keys of the ledger to which every write fails. -/
  rejected : List String
  /-- How many writes are committed, if the run is to be cut off. -/
  writesLeft : Option Nat

namespace Attempt

/-- The beginning of the run on a database. -/
def start (a : Attempt) (db : Database) : Run a.σ :=
  ⟨{ db with contents.rejected := a.rejected }, a.parser, [], a.writesLeft⟩

/-- How the run on a database ends or stops. -/
def outcome (a : Attempt) (db : Database) : EStateM.Result RunError (Run a.σ) Summary :=
  a.pipeline.process false (a.start db)

/-- The database that the run leaves. -/
def after (a : Attempt) (db : Database) : Database := (Run.last (a.outcome db)).database

/-- The files of the collection, in the order in which they are processed. -/
def files? (a : Attempt) : Option (List (String × Option String)) :=
  a.pipeline.collection.files a.pipeline.config

/-- The name and the content of the file at a place. -/
def file? (a : Attempt) (j : Nat) : Option (String × Option String) :=
  a.files?.bind fun fs => fs[j]?

/-- What extraction makes of the file at a place. -/
def extracted? (a : Attempt) (j : Nat) : Option (Except ExtractionError (List Document)) :=
  (a.file? j).map fun f => a.pipeline.extractor.extractFile f.2

/-- What may keep the run from writing. -/
def limits (a : Attempt) : Limits := ⟨a.rejected, a.writesLeft.isSome⟩

/-- The database after some attempts on a new one. -/
def afterAll (as : List Attempt) : Database := as.foldl (fun db a => a.after db) .migrated

@[simp] theorem afterAll_append_singleton (as : List Attempt) (a : Attempt) :
    afterAll (as ++ [a]) = a.after (afterAll as) := by
  simp [afterAll]

/-- An attempt makes moves.  If the run ends, every stage that is asked for is done; if it stops,
there is a fault. -/
theorem shows_after {a : Attempt} {fs : List (String × Option String)} {db : Database}
    {p : Progress} (hfs : a.files? = some fs) (hdb : db.Shows p) :
    ∃ p', (a.after db).Shows p' ∧ ReflTransGen (a.pipeline.Move fs) p p' ∧
      match a.outcome db with
      | .ok _ _ => a.pipeline.Complete p'
      | .error e _ => a.pipeline.Fault fs a.limits p' e := by
  have hstart : (a.start db).Shows a.limits p := ⟨⟨hdb.closed, hdb.tables⟩, rfl, rfl⟩
  have hends := Pipeline.leads_process hfs (a.start db) hstart
  unfold after outcome
  unfold Step.Ends at hends
  cases hrun : a.pipeline.process false (a.start db) with
  | ok _ r =>
    rw [hrun] at hends
    obtain ⟨p', hr, hmoves, hcomplete⟩ := hends
    exact ⟨p', hr.database, hmoves, hcomplete⟩
  | error e r =>
    rw [hrun] at hends
    obtain ⟨p', hr, hmoves, hfault⟩ := hends
    exact ⟨p', hr.database, hmoves, hfault⟩

end Attempt

/-! ### What the moves do to the recorded files -/

/-- What stands at a place of a list stands there in every list that begins with it. -/
theorem getElem?_of_beginning {α : Type} {as bs : List α} (h : as <+: bs) {j : Nat} {a : α}
    (ha : as[j]? = some a) : bs[j]? = some a := by
  obtain ⟨later, rfl⟩ := h
  have hlt : j < as.length := (List.getElem?_eq_some_iff.mp ha).1
  rw [List.getElem?_append_left hlt, ha]

namespace Pipeline

variable {pl : Pipeline σ} {fs : List (String × Option String)} {p p' p'' : Progress}

/-- The recorded files stay, and each that is new is the file at its place with what extraction
makes of it. -/
structure Extends (pl : Pipeline σ) (fs : List (String × Option String)) (p p' : Progress) :
    Prop where
  kept : p.files <+: p'.files
  new : ∀ j e, p.files.length ≤ j → p'.files[j]? = some e →
    ∃ content, fs[j]? = some (e.1, content) ∧ pl.extractor.extractFile content = .ok e.2

theorem Extends.of_files_eq (h : p'.files = p.files) : pl.Extends fs p p' := by
  refine ⟨by rw [h], ?_⟩
  intro j e hj he
  rw [h, List.getElem?_eq_none hj] at he
  cases he

theorem Extends.trans (h : pl.Extends fs p p') (h' : pl.Extends fs p' p'') :
    pl.Extends fs p p'' := by
  refine ⟨h.kept.trans h'.kept, ?_⟩
  intro j e hj he
  by_cases hlt : j < p'.files.length
  · obtain ⟨later, hlater⟩ := h'.kept
    rw [← hlater, List.getElem?_append_left hlt] at he
    exact h.new j e hj he
  · exact h'.new j e (Nat.le_of_not_lt hlt) he

theorem Move.extends (h : pl.Move fs p p') : pl.Extends fs p p' := by
  cases h with
  | @record name content ds next extracted opened =>
    refine ⟨List.prefix_append _ _, ?_⟩
    intro j e hj he
    rw [Progress.files_record, List.getElem?_append_right hj, List.getElem?_singleton] at he
    split at he
    · next hzero =>
      obtain rfl : j = p.files.length := by omega
      obtain rfl : (name, ds) = e := by simpa using he
      exact ⟨content, next, extracted⟩
    · cases he
  | reopen _ => exact .of_files_eq rfl
  | recorded _ => exact .of_files_eq rfl
  | reparse _ _ _ => exact .of_files_eq rfl
  | parse _ _ _ _ _ => exact .of_files_eq rfl
  | parsed _ _ _ _ => exact .of_files_eq rfl
  | flagged _ _ _ => exact .of_files_eq rfl

theorem extends_of_moves (h : ReflTransGen (pl.Move fs) p p') : pl.Extends fs p p' := by
  induction h with
  | refl => exact .of_files_eq rfl
  | tail _ hmove ih => exact ih.trans hmove.extends

end Pipeline

/-- The recorded files are the first ones of those named, and all of them when the flag of the
stage is set. -/
structure Progress.Initial (names : List String) (p : Progress) : Prop where
  first : p.files.map Prod.fst <+: names
  done : p.flag .textAndMetadata = some true → p.files.length = names.length

namespace Progress.Initial

variable {pl : Pipeline σ} {fs : List (String × Option String)} {names : List String}
  {p p' : Progress}

theorem none (names : List String) : Progress.none.Initial names :=
  ⟨List.nil_prefix, fun h => nomatch h⟩

/-- The moves of every run on a collection with these names keep this. -/
theorem move (hnames : fs.map Prod.fst = names) (hp : p.Initial names)
    (h : pl.Move fs p p') : p'.Initial names := by
  have hlength : fs.length = names.length := by rw [← hnames, List.length_map]
  have hle : p.files.length ≤ names.length := by simpa using hp.first.length_le
  cases h with
  | reopen left =>
    refine ⟨hp.first, ?_⟩
    intro h
    rw [Progress.flag_setFlag_same] at h
    cases h
  | @record name content ds next extracted opened =>
    refine ⟨?_, fun h => absurd (opened.symm.trans h) (by decide)⟩
    -- The file that is recorded next bears the name that comes next.
    have hname : names[(p.files.map Prod.fst).length]? = some name := by
      rw [List.length_map, ← hnames, List.getElem?_map, next]
      rfl
    rw [Progress.files_record, List.map_append]
    obtain ⟨later, hlater⟩ := hp.first
    cases later with
    | nil =>
      rw [← hlater, List.append_nil, List.getElem?_eq_none (Nat.le_refl _)] at hname
      cases hname
    | cons n later =>
      rw [← hlater, List.getElem?_append_right (Nat.le_refl _), Nat.sub_self] at hname
      obtain rfl : n = name := by simpa using hname
      exact ⟨later, by rw [← hlater]; simp⟩
  | recorded all => exact ⟨hp.first, fun _ => Nat.le_antisymm hle (hlength ▸ all)⟩
  | reparse asked text left => exact ⟨hp.first, fun _ => hp.done text⟩
  | parse asked text opened next readable => exact ⟨hp.first, fun _ => hp.done text⟩
  | parsed asked text all fits => exact ⟨hp.first, fun _ => hp.done text⟩
  | flagged text parsed stage => exact ⟨hp.first, fun _ => hp.done text⟩

theorem moves (hnames : fs.map Prod.fst = names) (hp : p.Initial names)
    (h : ReflTransGen (pl.Move fs) p p') : p'.Initial names := by
  induction h with
  | refl => exact hp
  | tail _ hmove ih => exact ih.move hnames hmove

end Progress.Initial

/-! ### What the attempts leave -/

namespace Attempt

/-- The attempt with number `i` recorded the file at place `j`: it found the mark of the file
missing and left it behind. -/
def Records (as : List Attempt) (i j : Nat) : Prop :=
  (fileRecorded (j + 1)).answer? (afterAll (as.take i)) = some false ∧
    (fileRecorded (j + 1)).answer? (afterAll (as.take (i + 1))) = some true

/-- One of the attempts recorded the file at the place, and these are the documents that extraction
made of the file as it was then. -/
def RecordedIn (as : List Attempt) (j : Nat) (ds : List Document) : Prop :=
  ∃ i a, as[i]? = some a ∧ Records as i j ∧ a.extracted? j = some (.ok ds)

/-- The tables hold the documents of the first files, one list of documents for each. -/
structure InitialSegment (names : List String) (as : List Attempt) (ds : List (List Document))
    (t : Tables) : Prop where
  first : ds.length ≤ names.length
  tables : (afterAll as).contents.tables = some t
  marks : t.ledger.get? recordedKey =
    if ds = [] then none else some (String.join ((List.range' 1 ds.length).map fileMark))
  rows : t.rows = rowsOf ((names.zip ds).flatMap fun f => f.2.map fun d => (f.1, d))
  ids : t.ids = List.range' 1 t.rows.length
  lastId : t.lastId = t.rows.length
  recorded : ∀ j d, ds[j]? = some d → RecordedIn as j d
  done : (stageDone .textAndMetadata).answer? (afterAll as) = some true → ds.length = names.length

variable {names : List String} {as : List Attempt}

theorem RecordedIn.append {j : Nat} {ds : List Document} (h : RecordedIn as j ds) (a : Attempt) :
    RecordedIn (as ++ [a]) j ds := by
  obtain ⟨i, b, hb, ⟨hbefore, hafter⟩, hds⟩ := h
  have hlt : i < as.length := (List.getElem?_eq_some_iff.mp hb).1
  refine ⟨i, b, ?_, ⟨?_, ?_⟩, hds⟩
  · rw [List.getElem?_append_left hlt, hb]
  · rw [List.take_append_of_le_length (by omega), hbefore]
  · rw [List.take_append_of_le_length (by omega), hafter]

/-- Moves of the attempts, one attempt after the other, lead from nothing to the progress, and
after each attempt the database shows how far it has come. -/
inductive Traces : List Attempt → Progress → Prop
  | nil : Traces [] .none
  | append {as : List Attempt} {a : Attempt} {fs : List (String × Option String)}
      {p p' : Progress} (before : Traces as p) (shown : (afterAll as).Shows p)
      (files : a.files? = some fs) (moves : ReflTransGen (a.pipeline.Move fs) p p')
      (shown' : (afterAll (as ++ [a])).Shows p') : Traces (as ++ [a]) p'

theorem Traces.shows {p : Progress} (h : Traces as p) : (afterAll as).Shows p := by
  cases h with
  | nil => exact .migrated
  | append _ _ _ _ shown' => exact shown'

theorem traces_afterAll (h : ∀ a ∈ as, a.files?.map (·.map Prod.fst) = some names) :
    ∃ p, Traces as p := by
  induction as using List.reverseRecOn with
  | nil => exact ⟨.none, .nil⟩
  | append_singleton as a ih =>
    obtain ⟨p, hp⟩ := ih fun b hb => h b (by simp [hb])
    obtain ⟨fs, hfs, -⟩ := Option.map_eq_some_iff.mp (h a (by simp))
    obtain ⟨p', hdb', hmoves, -⟩ := shows_after hfs hp.shows
    exact ⟨p', .append hp hp.shows hfs hmoves (by rwa [afterAll_append_singleton])⟩

namespace Traces

variable {p : Progress}

theorem initial (h : Traces as p) (hnames : ∀ a ∈ as, a.files?.map (·.map Prod.fst) = some names) :
    p.Initial names := by
  induction h with
  | nil => exact .none names
  | @append as a fs p p' before shown files moves shown' ih =>
    have hfs : fs.map Prod.fst = names := by simpa [files] using hnames a (by simp)
    exact (ih fun b hb => hnames b (by simp [hb])).moves hfs moves

/-- What an attempt finds recorded was recorded by those before it, and what it records itself it
extracts from the files as they are then. -/
theorem recordedIn (h : Traces as p) {j : Nat} {e : String × List Document}
    (he : p.files[j]? = some e) : RecordedIn as j e.2 := by
  induction h with
  | nil => cases he
  | @append as a fs p p' before shown files moves shown' ih =>
    have hextends := Pipeline.extends_of_moves moves
    by_cases hlt : j < p.files.length
    · -- The file was recorded before, and the attempt keeps what is recorded.
      have hget : p.files[j]? = some p.files[j] := List.getElem?_eq_getElem hlt
      obtain rfl : p.files[j] = e :=
        Option.some.inj ((getElem?_of_beginning hextends.kept hget).symm.trans he)
      exact (ih hget).append a
    · -- The attempt itself recorded it: the mark is missing before and stands there after.
      obtain ⟨content, hfile, hds⟩ := hextends.new j e (Nat.le_of_not_lt hlt) he
      have hlt' : j < p'.files.length := (List.getElem?_eq_some_iff.mp he).1
      refine ⟨as.length, a, by simp, ⟨?_, ?_⟩, ?_⟩
      · rw [List.take_left, Access.answer?, shown.fileRecorded (Nat.succ_pos j)]
        simp only [Option.some.injEq, decide_eq_false_iff_not]
        omega
      · rw [List.take_of_length_le (by simp), Access.answer?,
          shown'.fileRecorded (Nat.succ_pos j)]
        simp only [Option.some.injEq, decide_eq_true_eq]
        omega
      · rw [extracted?, file?, files, Option.bind_some, hfile, Option.map_some, hds]

end Traces

/-- However the attempts end or stop, and whatever happens to the contents of the files between
them, the tables hold the documents of the first files of the collection. -/
theorem initialSegment_afterAll
    (h : ∀ a ∈ as, a.files?.map (·.map Prod.fst) = some names) :
    ∃ ds t, InitialSegment names as ds t := by
  obtain ⟨p, htraces⟩ := traces_afterAll h
  have hdb := htraces.shows
  have hinitial := htraces.initial h
  obtain ⟨t, ht, hp⟩ := hdb.tables
  have hrows : t.rows.length = p.documents.length := by rw [hp.rows, length_rowsOf]
  -- Since the names of the recorded files come first, pairing restores the recorded files.
  have hzip : names.zip (p.files.map Prod.snd) = p.files := by
    obtain ⟨later, hlater⟩ := hinitial.first
    have hfiles : p.files = (p.files.map Prod.fst).zip (p.files.map Prod.snd) := by
      simp [List.zip_map']
    rw [← hlater, ← List.append_nil (p.files.map Prod.snd), List.zip_append (by simp)]
    simpa using hfiles.symm
  refine ⟨p.files.map Prod.snd, t, ?_, ht, ?_, ?_, ?_, ?_, ?_, ?_⟩
  · simpa using hinitial.first.length_le
  · rw [hp.entry, Progress.text?_recordedKey, Progress.recordedMarks, List.length_map, marks]
    simp only [List.map_eq_nil_iff]
  · rw [hp.rows, Progress.documents, hzip]
  · rw [hp.ids, hrows]
  · rw [hp.lastId, hrows]
  · intro j d hd
    rw [List.getElem?_map] at hd
    obtain ⟨e, he, rfl⟩ := Option.map_eq_some_iff.mp hd
    exact htraces.recordedIn he
  · intro hdone
    rw [Access.answer?, hdb.stageDone] at hdone
    rw [List.length_map]
    exact hinitial.done (of_decide_eq_true (Option.some.inj hdone))

/-- A run on a collection of one file, whose documents are its top elements named `text`.  Nothing
keeps it from writing. -/
def single (name : String) (content : Option String) : Attempt where
  pipeline := ⟨.default, ⟨.nested ⟨"text", ["text"], []⟩ [], .punctuation, true⟩,
    ⟨"texts", some [(.text name, .file content)]⟩, Parser.idle⟩
  parser := ()
  rejected := []
  writesLeft := none

/-- A file that was no text when the first run stopped at it and was put right for the second. -/
theorem initialSegment_repaired :
    (∀ a ∈ [single "a.xml" none, single "a.xml" (some "<text/>")],
      a.files?.map (·.map Prod.fst) = some ["a.xml"]) ∧
    ∃ ds t, InitialSegment ["a.xml"] [single "a.xml" none, single "a.xml" (some "<text/>")] ds t := by
  have h : ∀ a ∈ [single "a.xml" none, single "a.xml" (some "<text/>")],
      a.files?.map (·.map Prod.fst) = some ["a.xml"] := by
    intro a ha
    rcases List.mem_pair.mp ha with rfl | rfl
    · decide
    · decide
  exact ⟨h, initialSegment_afterAll h⟩

end Attempt

end XmlHarvest

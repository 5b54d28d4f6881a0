/-
How far a collection has been processed, apart from the texts that say so.

`Progress` holds the recorded files with their documents, the id of the document parsed last and
the flags of the stages.  `Tables.Shows` says that some tables hold exactly this: the rows are those
of the documents in their order, with ids that count from one, and the ledger has the entries that
the progress calls for and no others.  Tables that show the same progress are the same
(`Tables.Shows.eq`), what the pipeline reads follows from the progress, and each of its three kinds
of writes takes tables that show a progress to tables that show the next.
-/
import XmlHarvest.Proofs.Checkpoint.Texts
import XmlHarvest.Proofs.Ledger
import Mathlib.Logic.Function.Basic

namespace XmlHarvest

open Checkpoint

/-! ### Progress -/

/-- How far a collection has been processed. -/
structure Progress where
  /-- The recorded files with their documents, in the order in which they were recorded. -/
  files : List (String × List Document)
  /-- The id of the document parsed last, if there is one. -/
  parsed : Option Nat
  /-- The flags that are set. -/
  flag : Stage → Option Bool

namespace Progress

/-- Nothing is done. -/
def none : Progress := ⟨[], .none, fun _ => .none⟩

/-- The documents of all recorded files, each with the name of its file. -/
def documents (p : Progress) : List (String × Document) :=
  p.files.flatMap fun f => f.2.map fun d => (f.1, d)

/-- How many documents are parsed, as far as the mark says so. -/
def parsedCount (p : Progress) : Nat := p.parsed.getD 0

/-- The marks of the recorded files, if there are any. -/
def recordedMarks (p : Progress) : Option String :=
  if p.files = [] then .none else some (marks (List.range' 1 p.files.length))

/-- What the ledger holds under a key. -/
def text? (p : Progress) (key : String) : Option String :=
  if key = recordedKey then p.recordedMarks
  else if key = parsedKey then p.parsed.map toString
  else (Stage.all.find? fun s => s.flagKey = key).bind fun s => (p.flag s).map flagText

/-- The flag of a stage is set. -/
def setFlag (s : Stage) (done : Bool) (p : Progress) : Progress :=
  { p with flag := Function.update p.flag s (some done) }

/-- A file is recorded. -/
def record (name : String) (ds : List Document) (p : Progress) : Progress :=
  { p with files := p.files ++ [(name, ds)] }

/-- The mark of the document parsed last is set. -/
def setParsed (id : Nat) (p : Progress) : Progress := { p with parsed := some id }

@[simp] theorem files_setFlag (s : Stage) (done : Bool) (p : Progress) :
    (p.setFlag s done).files = p.files := rfl

@[simp] theorem parsed_setFlag (s : Stage) (done : Bool) (p : Progress) :
    (p.setFlag s done).parsed = p.parsed := rfl

@[simp] theorem flag_setFlag_same (s : Stage) (done : Bool) (p : Progress) :
    (p.setFlag s done).flag s = some done := Function.update_self ..

theorem flag_setFlag_other {s s' : Stage} (h : s' ≠ s) (done : Bool) (p : Progress) :
    (p.setFlag s done).flag s' = p.flag s' := Function.update_of_ne h _ _

@[simp] theorem flag_record (name : String) (ds : List Document) (p : Progress) :
    (p.record name ds).flag = p.flag := rfl

@[simp] theorem parsed_record (name : String) (ds : List Document) (p : Progress) :
    (p.record name ds).parsed = p.parsed := rfl

@[simp] theorem files_record (name : String) (ds : List Document) (p : Progress) :
    (p.record name ds).files = p.files ++ [(name, ds)] := rfl

@[simp] theorem files_setParsed (id : Nat) (p : Progress) :
    (p.setParsed id).files = p.files := rfl

@[simp] theorem flag_setParsed (id : Nat) (p : Progress) : (p.setParsed id).flag = p.flag := rfl

@[simp] theorem parsed_setParsed (id : Nat) (p : Progress) :
    (p.setParsed id).parsed = some id := rfl

@[simp] theorem documents_setFlag (s : Stage) (done : Bool) (p : Progress) :
    (p.setFlag s done).documents = p.documents := rfl

@[simp] theorem documents_setParsed (id : Nat) (p : Progress) :
    (p.setParsed id).documents = p.documents := rfl

@[simp] theorem documents_record (name : String) (ds : List Document) (p : Progress) :
    (p.record name ds).documents = p.documents ++ ds.map fun d => (name, d) := by
  simp [documents]

/-! ### Entries of the ledger -/

theorem text?_recordedKey (p : Progress) : p.text? recordedKey = p.recordedMarks := if_pos rfl

theorem text?_parsedKey (p : Progress) : p.text? parsedKey = p.parsed.map toString := by
  rw [text?, if_neg recordedKey_ne_parsedKey.symm, if_pos rfl]

theorem find?_flagKey (s : Stage) :
    (Stage.all.find? fun s' => s'.flagKey = s.flagKey) = some s := by
  cases s <;> decide

theorem text?_flagKey (p : Progress) (s : Stage) :
    p.text? s.flagKey = (p.flag s).map flagText := by
  rw [text?, if_neg s.flagKey_ne_recordedKey, if_neg s.flagKey_ne_parsedKey, find?_flagKey]
  rfl

/-- Setting a flag changes the entry of the flag alone. -/
theorem text?_setFlag (s : Stage) (done : Bool) (p : Progress) (key : String) :
    (p.setFlag s done).text? key =
      if key = s.flagKey then some (flagText done) else p.text? key := by
  split
  · next h => rw [h, text?_flagKey, flag_setFlag_same, Option.map_some]
  · next h =>
    unfold text?
    refine congrArg (ite _ _) (congrArg (ite _ _) ?_)
    cases hs : Stage.all.find? fun s' => s'.flagKey = key with
    | none => rfl
    | some s' =>
      -- The key belongs to another stage, whose flag is left alone.
      have hkey : s'.flagKey = key := by simpa using List.find?_some hs
      have hne : s' ≠ s := by
        rintro rfl
        exact h hkey.symm
      simp [flag_setFlag_other hne]

/-- Recording a file appends to the entry of the marks and changes no other. -/
theorem text?_record (name : String) (ds : List Document) (p : Progress) (key : String) :
    (p.record name ds).text? key =
      if key = recordedKey then some (p.recordedMarks.getD "" ++ fileMark (p.files.length + 1))
      else p.text? key := by
  split
  · next h =>
    rw [h, text?_recordedKey]
    have hmarks : p.recordedMarks.getD "" = marks (List.range' 1 p.files.length) := by
      unfold recordedMarks
      split
      · next hnil => simp [hnil, marks]
      · rfl
    rw [hmarks, recordedMarks, files_record, if_neg (by simp), List.length_append,
      List.length_singleton, List.range'_1_concat, marks_append_singleton, Nat.add_comm 1]
  · next h => simp only [text?, if_neg h, parsed_record, flag_record]

/-- Setting the mark of the document parsed last changes its entry alone. -/
theorem text?_setParsed (id : Nat) (p : Progress) (key : String) :
    (p.setParsed id).text? key = if key = parsedKey then some (toString id) else p.text? key := by
  split
  · next h => rw [h, text?_parsedKey, parsed_setParsed, Option.map_some]
  · next h =>
    simp only [text?, if_neg h]
    rfl

end Progress

/-! ### Tables -/

/-- The rows of documents that are stored one after the other, with ids from one on. -/
def rowsOf (ds : List (String × Document)) : List Row :=
  (ds.zipIdx 1).map fun e => Row.ofDocument e.1.1 e.2 e.1.2

@[simp] theorem length_rowsOf (ds : List (String × Document)) :
    (rowsOf ds).length = ds.length := by
  simp [rowsOf]

theorem ids_rowsOf (ds : List (String × Document)) :
    (rowsOf ds).map Row.id = List.range' 1 ds.length := by
  rw [← List.zipIdx_map_snd 1 ds, rowsOf, List.map_map]
  rfl

theorem zipWith_range' {α β : Type} (f : Nat → α → β) (n : Nat) (as : List α) :
    List.zipWith f (List.range' n as.length) as = (as.zipIdx n).map fun e => f e.2 e.1 := by
  induction as generalizing n with
  | nil => rfl
  | cons a as ih => simp [List.range'_succ, ih]

/-- Further documents of one source get the rows that storing them puts behind the others. -/
theorem rowsOf_append (ds : List (String × Document)) (name : String) (es : List Document) :
    rowsOf (ds ++ es.map fun d => (name, d)) =
      rowsOf ds ++
        List.zipWith (Row.ofDocument name) (List.range' (ds.length + 1) es.length) es := by
  rw [zipWith_range', rowsOf, List.zipIdx_append, List.map_append, Nat.add_comm 1,
    List.zipIdx_map, List.map_map]
  rfl

/-- The tables hold what the progress says and nothing else. -/
structure Tables.Shows (t : Tables) (p : Progress) : Prop where
  rows : t.rows = rowsOf p.documents
  lastId : t.lastId = p.documents.length
  entry : ∀ key, t.ledger.get? key = p.text? key

namespace Tables.Shows

variable {t t' : Tables} {p : Progress}

theorem none : Tables.empty.Shows .none := by
  refine ⟨rfl, rfl, ?_⟩
  intro key
  simp only [Tables.empty, Keyed.get?_empty, Progress.text?, Progress.none, Progress.recordedMarks]
  split
  · rfl
  · split
    · rfl
    · simp

/-- Tables that show the same progress are the same. -/
theorem eq (h : t.Shows p) (h' : t'.Shows p) : t = t' := by
  have hledger : t.ledger = t'.ledger := by
    apply Keyed.ext_get?
    intro key
    rw [h.entry, h'.entry]
  obtain ⟨rows, lastId, ledger⟩ := t
  obtain ⟨rows', lastId', ledger'⟩ := t'
  obtain rfl : rows = rows' := h.rows.trans h'.rows.symm
  obtain rfl : lastId = lastId' := h.lastId.trans h'.lastId.symm
  obtain rfl : ledger = ledger' := hledger
  rfl

/-! ### What is read -/

theorem ids (h : t.Shows p) : t.ids = List.range' 1 p.documents.length := by
  rw [Tables.ids, h.rows, ids_rowsOf]

theorem value (h : t.Shows p) (key : String) :
    Ledger.value t.ledger key = (p.text? key).getD "" := by
  rw [Ledger.value, h.entry]

theorem saysDone (h : t.Shows p) (s : Stage) :
    saysDone (Ledger.value t.ledger s.flagKey) = decide (p.flag s = some true) := by
  rw [h.value, Progress.text?_flagKey]
  cases p.flag s with
  | none => simp
  | some done => cases done <;> simp

theorem contains_fileMark (h : t.Shows p) {i : Nat} (hi : 0 < i) :
    Text.contains (Ledger.value t.ledger recordedKey) (fileMark i) =
      decide (i ≤ p.files.length) := by
  have hmarks : (p.text? recordedKey).getD "" = marks (List.range' 1 p.files.length) := by
    rw [Progress.text?_recordedKey, Progress.recordedMarks]
    split
    · next hnil => simp [hnil, marks]
    · rfl
  rw [h.value, hmarks, Bool.eq_iff_iff, contains_marks_iff, List.mem_range'_1, decide_eq_true_eq]
  omega

/-- The row with an id is that of the document at this place. -/
theorem row? (h : t.Shows p) {id : Nat} {name : String} {d : Document}
    (hd : p.documents[id]? = some (name, d)) :
    t.row? ((id + 1 : Nat) : Int) = some (Row.ofDocument name (id + 1) d) := by
  rw [Tables.row?, h.rows, rowsOf, List.find?_map, Option.map_eq_some_iff]
  refine ⟨((name, d), id + 1), ?_, rfl⟩
  rw [List.find?_eq_some_iff_getElem]
  have hlt : id < p.documents.length := (List.getElem?_eq_some_iff.mp hd).1
  refine ⟨by simp [Row.ofDocument], id, by simpa using hlt, ?_, ?_⟩
  · have hget : p.documents[id] = (name, d) := (List.getElem?_eq_some_iff.mp hd).2
    simp [hget, Nat.add_comm]
  · -- The rows before it have smaller ids.
    intro j hj
    simp [Row.ofDocument]
    omega

/-! ### What is written -/

theorem setFlag (h : t.Shows p) (s : Stage) (done : Bool) :
    (t.log ⟨s.flagKey, flagText done, .replace⟩).Shows (p.setFlag s done) := by
  refine ⟨h.rows, h.lastId, ?_⟩
  intro key
  rw [Tables.log, Ledger.get?_write, Progress.text?_setFlag, h.entry]
  rfl

theorem setParsed (h : t.Shows p) (id : Nat) :
    (t.log ⟨parsedKey, toString (id : Int), .update⟩).Shows (p.setParsed id) := by
  refine ⟨h.rows, h.lastId, ?_⟩
  intro key
  rw [Tables.log, Ledger.get?_write, Progress.text?_setParsed, h.entry]
  rfl

theorem record (h : t.Shows p) (name : String) (ds : List Document) :
    ((t.add name ds).log ⟨recordedKey, fileMark (p.files.length + 1), .append⟩).Shows
      (p.record name ds) := by
  refine ⟨?_, ?_, ?_⟩
  · -- The ids go on behind the last one that was given, which counts the documents so far.
    show t.rows ++ List.zipWith (Row.ofDocument name) (t.nextIds ds.length) ds = _
    rw [h.rows, Progress.documents_record, rowsOf_append, Tables.nextIds, h.lastId]
  · show t.lastId + ds.length = _
    rw [h.lastId, Progress.documents_record, List.length_append, List.length_map]
  · intro key
    show (Ledger.write t.ledger _).get? key = _
    rw [Ledger.get?_write, Progress.text?_record, h.entry, h.value, Progress.text?_recordedKey]
    rfl

end Tables.Shows

end XmlHarvest

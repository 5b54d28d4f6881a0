/-
What a run sees and touches of the ledger.

A run reads and writes the entries under its own keys, a flag for each stage and the two marks, and
besides them only the documents and their ids.  So two runs with the same settings come to the same
on databases that differ in other entries alone, and each of them leaves those other entries as they
are, wherever it stops.  Main statement: `Pipeline.process_ownEntries`.
-/
import XmlHarvest.Proofs.Pipeline.Attempts
import XmlHarvest.Proofs.Pipeline.Lockstep
import XmlHarvest.Proofs.Store.Entries

namespace XmlHarvest

open Checkpoint

variable {σ α : Type}

/-! ### Databases that show a run the same -/

/-- The tables hold the same documents and give the same id to the next one. -/
structure Tables.SameDocuments (t t' : Tables) : Prop where
  rows : t.rows = t'.rows
  lastId : t.lastId = t'.lastId

theorem Tables.SameDocuments.nextIds {t t' : Tables} (h : t.SameDocuments t') (count : Nat) :
    t.nextIds count = t'.nextIds count := by
  rw [Tables.nextIds, Tables.nextIds, h.lastId]

theorem Tables.SameDocuments.add {t t' : Tables} (h : t.SameDocuments t') (source : String)
    (ds : List Document) : (t.add source ds).SameDocuments (t'.add source ds) := by
  refine ⟨?_, ?_⟩
  · simp only [Tables.add, h.rows, h.nextIds ds.length]
  · simp only [Tables.add, h.lastId]

/-- The databases have tables with the same documents and the same next id.  Their ledgers agree
under the keys of a run, and so do the keys to which writes fail. -/
structure Database.SameProgress (db db' : Database) : Prop where
  documents : ∃ t t', db.contents.tables = some t ∧ db'.contents.tables = some t' ∧
    t.SameDocuments t'
  entries : ∀ key ∈ ownKeys, db.logged? key = db'.logged? key
  rejected : ∀ key ∈ ownKeys, key ∈ db.contents.rejected ↔ key ∈ db'.contents.rejected

namespace Database.SameProgress

variable {db db' : Database} {t t' : Tables}

theorem rejects (h : db.SameProgress db') {w : LedgerWrite} (hw : w.key ∈ ownKeys) :
    db.contents.rejects w = db'.contents.rejects w := by
  rw [Bool.eq_iff_iff, Contents.rejects_iff, Contents.rejects_iff]
  exact h.rejected w.key hw

/-- After the same write under a key of a run, and with other documents that are again the same, the
databases still show a run the same. -/
theorem log (h : db.SameProgress db') {w : LedgerWrite} (hw : w.key ∈ ownKeys)
    (ht : db.contents.tables = some t) (ht' : db'.contents.tables = some t') {u u' : Tables}
    (hu : u.ledger = t.ledger) (hu' : u'.ledger = t'.ledger) (hsame : u.SameDocuments u') :
    SameProgress { db with contents.tables := some (u.log w) }
      { db' with contents.tables := some (u'.log w) } where
  documents := ⟨_, _, rfl, rfl, hsame.rows, hsame.lastId⟩
  entries key hkey := by
    have hown := h.entries w.key hw
    have hother := h.entries key hkey
    rw [logged?_eq ht, logged?_eq ht'] at hown hother
    show (Ledger.write u.ledger w).get? key = (Ledger.write u'.ledger w).get? key
    rw [hu, hu', Ledger.get?_write, Ledger.get?_write, Ledger.value, Ledger.value, hown, hother]
  rejected := h.rejected

/-- An access that looks at the documents alone answers the same. -/
theorem lockstep_look {error : StoreError} {view : Tables → Except StoreError α}
    (hview : ∀ t t', Tables.SameDocuments t t' → view t = view t') :
    Lockstep SameProgress (Access.look error view) := by
  intro db db' h
  obtain ⟨t, t', ht, ht', hsame⟩ := h.documents
  simp only [Access.look, ht, ht', ← hview t t' hsame]
  cases view t with
  | ok a => exact .ok h
  | error e => exact .error h

theorem lockstep_ledgerValue {key : String} (hkey : key ∈ ownKeys) :
    Lockstep SameProgress (Access.ledgerValue key) := by
  intro db db' h
  obtain ⟨t, t', ht, ht', -⟩ := h.documents
  rw [ledgerValue_eq ht, ledgerValue_eq ht', h.entries key hkey]
  exact .ok h

/-- A write under a key of a run does the same on both databases, and so it does together with a
change of the documents after which they are the same again. -/
theorem lockstep_alter_log {error fault : StoreError} {answer : Tables → α}
    {change : Tables → Tables} {w : LedgerWrite} (hw : w.key ∈ ownKeys)
    (hledger : ∀ t, (change t).ledger = t.ledger)
    (hchange : ∀ t t', Tables.SameDocuments t t' → (change t).SameDocuments (change t'))
    (hanswer : ∀ t t', Tables.SameDocuments t t' → answer t = answer t') :
    Lockstep SameProgress (Access.alter error fun c t =>
      if c.rejects w then .error fault else .ok (answer t, (change t).log w)) := by
  intro db db' h
  obtain ⟨t, t', ht, ht', hsame⟩ := h.documents
  simp only [Access.alter, ht, ht', ← h.rejects hw, ← hanswer t t' hsame]
  cases db.contents.rejects w with
  | true => exact .error h
  | false => exact .ok (h.log hw ht ht' (hledger t) (hledger t') (hchange t t' hsame))

theorem lockstep_log {w : LedgerWrite} (hw : w.key ∈ ownKeys) :
    Lockstep SameProgress (Access.log w) :=
  lockstep_alter_log hw (fun _ => rfl) (fun _ _ h => h) fun _ _ _ => rfl

theorem lockstep_saveLogged (source : String) (ds : List Document) {w : LedgerWrite}
    (hw : w.key ∈ ownKeys) : Lockstep SameProgress (Access.saveLogged source ds w) := by
  rw [Access.saveLogged_eq_alter]
  exact lockstep_alter_log hw (fun _ => rfl) (fun _ _ h => h.add source ds)
    fun _ _ h => h.nextIds ds.length

/-- No access of a run tells such databases apart. -/
theorem accessesLockstep : AccessesLockstep SameProgress where
  ledgerValue _ hkey := lockstep_ledgerValue hkey
  log _ hw := lockstep_log hw
  saveLogged source ds _ hw := lockstep_saveLogged source ds hw
  ids := lockstep_look fun t t' h => by rw [Tables.ids, Tables.ids, h.rows]
  document? id := lockstep_look fun t t' h => by rw [Tables.row?, Tables.row?, h.rows]

end Database.SameProgress

/-! ### Entries under other keys -/

namespace Database

variable {key : String} {v : Option String}

/-- A write to the ledger leaves the entries under other keys as they are, and so does storing
documents with it. -/
theorem logged?_log_other {db : Database} {t u : Tables} (ht : db.contents.tables = some t)
    (hu : u.ledger = t.ledger) {w : LedgerWrite} (hkey : key ≠ w.key) :
    logged? { db with contents.tables := some (u.log w) } key = db.logged? key := by
  rw [logged?_eq ht]
  show (Ledger.write u.ledger w).get? key = _
  rw [hu, Ledger.get?_write, if_neg hkey]

theorem keepsEntry_alter_log {error fault : StoreError} {answer : Tables → α}
    {change : Tables → Tables} {w : LedgerWrite} (hkey : key ≠ w.key)
    (hledger : ∀ t, (change t).ledger = t.ledger) :
    Access.Keeps (fun db => db.logged? key = v) (Access.alter error fun c t =>
      if c.rejects w then .error fault else .ok (answer t, (change t).log w)) := by
  intro db h
  simp only [Access.left, Access.alter]
  cases ht : db.contents.tables with
  | none => exact h
  | some t =>
    cases hrejects : db.contents.rejects w with
    | true => exact h
    | false => exact (logged?_log_other ht (hledger t) hkey).trans h

theorem keepsEntry_log {w : LedgerWrite} (hkey : key ≠ w.key) :
    Access.Keeps (fun db => db.logged? key = v) (Access.log w) :=
  keepsEntry_alter_log hkey fun _ => rfl

theorem keepsEntry_saveLogged (source : String) (ds : List Document) {w : LedgerWrite}
    (hkey : key ≠ w.key) :
    Access.Keeps (fun db => db.logged? key = v) (Access.saveLogged source ds w) := by
  rw [Access.saveLogged_eq_alter]
  exact keepsEntry_alter_log hkey fun _ => rfl

/-- No access of a run changes an entry under a key that is not its own. -/
theorem accessesLockstep_entry (hkey : key ∉ ownKeys) :
    AccessesLockstep (SameWith fun db => db.logged? key = v) where
  ledgerValue _ _ := lockstep_of_keeps (Access.keeps_look _ _)
  log _ hw := lockstep_of_keeps (keepsEntry_log fun h => hkey (h ▸ hw))
  saveLogged source ds _ hw :=
    lockstep_of_keeps (keepsEntry_saveLogged source ds fun h => hkey (h ▸ hw))
  ids := lockstep_of_keeps (Access.keeps_look _ _)
  document? _ := lockstep_of_keeps (Access.keeps_look _ _)

end Database

/-! ### Runs -/

namespace Pipeline

/-- Wherever a run stops, it has left the entries under keys that are not its own as they were. -/
theorem logged?_process_other (pl : Pipeline σ) {key : String} (hkey : key ∉ ownKeys)
    (r : Run σ) :
    (Run.last (pl.process false r)).database.logged? key = r.database.logged? key := by
  have hkeeps : Step.Keeps (fun db => db.logged? key = r.database.logged? key)
      (pl.process false) := lockstep_process (Database.accessesLockstep_entry hkey)
  exact (hkeeps.ends rfl).last

/-- On two databases with the same documents and the same next id, whose ledgers agree under the
keys of a run, a run yields the same or stops at the same error.  It calls the parser with the same
documents, and leaves the same documents and the same entries under these keys.  All other entries
of both databases stay what they were, whether the run ends or stops. -/
theorem process_ownEntries (pl : Pipeline σ) (parser : σ) (left : Option Nat) {db db' : Database}
    (h : db.SameProgress db') :
    SameOutcome (Run.Beside Database.SameProgress) (pl.process false ⟨db, parser, [], left⟩)
        (pl.process false ⟨db', parser, [], left⟩) ∧
      ∀ key ∉ ownKeys,
        (Run.last (pl.process false ⟨db, parser, [], left⟩)).database.logged? key =
            db.logged? key ∧
          (Run.last (pl.process false ⟨db', parser, [], left⟩)).database.logged? key =
            db'.logged? key := by
  refine ⟨lockstep_process Database.SameProgress.accessesLockstep ⟨h, rfl, rfl, rfl⟩, ?_⟩
  intro key hkey
  exact ⟨pl.logged?_process_other hkey _, pl.logged?_process_other hkey _⟩

/-- A run in which the parser refuses the second document, on a new database and on one with an
entry whose key is that of a flag but for its first letter. -/
theorem process_ownEntries_foreign :
    let db' :=
      (Access.log ⟨"Finished_recording_text_and_metadata", "true", .replace⟩).left .migrated
    let file := Entry.file (some "<text/>")
    let pl : Pipeline Bool :=
      ⟨{ Config.default with grammaticalProcessing := true },
        ⟨.nested ⟨"text", ["text"], []⟩ [], .punctuation, true⟩,
        ⟨"texts", some [(.text "a.xml", file), (.text "b.xml", file)]⟩,
        fun _ second => (if second then .error "no" else .ok (), !second)⟩
    Database.migrated.SameProgress db' ∧ "Finished_recording_text_and_metadata" ∉ ownKeys ∧
      Database.migrated.logged? "Finished_recording_text_and_metadata" = none ∧
      db'.logged? "Finished_recording_text_and_metadata" = some "true" ∧
      (Run.last (pl.process false (.start .migrated false))).calls = [(1, true), (2, false)] ∧
      SameOutcome (Run.Beside Database.SameProgress)
        (pl.process false (.start .migrated false)) (pl.process false (.start db' false)) ∧
      (Run.last (pl.process false (.start .migrated false))).database.logged?
        "Finished_recording_text_and_metadata" = none ∧
      (Run.last (pl.process false (.start db' false))).database.logged?
        "Finished_recording_text_and_metadata" = some "true" := by
  intro db' file pl
  have hsame : Database.migrated.SameProgress db' :=
    ⟨⟨_, _, rfl, rfl, rfl, rfl⟩, by decide +kernel, by decide +kernel⟩
  have hkey : "Finished_recording_text_and_metadata" ∉ ownKeys := by decide +kernel
  have hnone : Database.migrated.logged? "Finished_recording_text_and_metadata" = none := by
    decide +kernel
  have hentry : db'.logged? "Finished_recording_text_and_metadata" = some "true" := by
    decide +kernel
  have hcalls : (Run.last (pl.process false (.start .migrated false))).calls =
      [(1, true), (2, false)] := by decide +kernel
  obtain ⟨houtcome, hothers⟩ := pl.process_ownEntries false none hsame
  obtain ⟨hleft, hleft'⟩ := hothers _ hkey
  exact ⟨hsame, hkey, hnone, hentry, hcalls, houtcome, hleft.trans hnone, hleft'.trans hentry⟩

end Pipeline

end XmlHarvest

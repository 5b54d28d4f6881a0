/-
Databases that differ in their ledgers alone.

A write to the ledger changes one entry of it and nothing else of the database
(`Database.Writes`).  What is asked of the documents does not depend on the ledger, and what is read
of the progress depends on one entry each.
-/
import XmlHarvest.Checkpoint
import XmlHarvest.Proofs.Ledger
import XmlHarvest.Proofs.Store.Storing

namespace XmlHarvest

open Checkpoint

/-! ### Entries and ledgers -/

namespace Database

/-- What the ledger holds under a key; nothing where there are no tables. -/
def logged? (db : Database) (key : String) : Option String :=
  db.contents.tables.bind fun t => t.ledger.get? key

/-- The database with another ledger, where there are tables. -/
def withLedger (db : Database) (l : Ledger) : Database :=
  { db with contents.tables := db.contents.tables.map fun t => { t with ledger := l } }

/-- The databases differ in their ledgers alone. -/
def Relogged (db db' : Database) : Prop := ∃ l, db' = db.withLedger l

variable {db db' db'' : Database} {t : Tables}

theorem logged?_eq (ht : db.contents.tables = some t) (key : String) :
    db.logged? key = t.ledger.get? key := by
  rw [logged?, ht, Option.bind_some]

theorem withLedger_eq (ht : db.contents.tables = some t) (l : Ledger) :
    db.withLedger l = { db with contents.tables := some { t with ledger := l } } := by
  rw [withLedger, ht, Option.map_some]

theorem withLedger_withLedger (db : Database) (l l' : Ledger) :
    (db.withLedger l).withLedger l' = db.withLedger l' := by
  simp only [withLedger, Option.map_map, Function.comp_def]

namespace Relogged

theorem refl (db : Database) : db.Relogged db := by
  obtain ⟨⟨versions, tables, rejected⟩, committed⟩ := db
  cases tables with
  | none => exact ⟨.empty, rfl⟩
  | some t => exact ⟨t.ledger, rfl⟩

theorem trans (h : db.Relogged db') (h' : db'.Relogged db'') : db.Relogged db'' := by
  obtain ⟨l, rfl⟩ := h
  obtain ⟨l', rfl⟩ := h'
  exact ⟨l', withLedger_withLedger db l l'⟩

theorem symm (h : db.Relogged db') : db'.Relogged db := by
  obtain ⟨l, rfl⟩ := h
  obtain ⟨l', hl'⟩ := refl db
  exact ⟨l', hl'.trans (withLedger_withLedger db l l').symm⟩

theorem rejected (h : db.Relogged db') : db'.contents.rejected = db.contents.rejected := by
  obtain ⟨l, rfl⟩ := h
  rfl

theorem tables (h : db.Relogged db') (ht : db.contents.tables = some t) :
    ∃ l, db'.contents.tables = some { t with ledger := l } := by
  obtain ⟨l, rfl⟩ := h
  exact ⟨l, by rw [withLedger_eq ht]⟩

/-- The same documents are found under the same ids. -/
theorem document? (h : db.Relogged db') {id : Int} {d : Option StoredDocument}
    (hd : Access.document? id db = .ok d db) : Access.document? id db' = .ok d db' := by
  cases ht : db.contents.tables with
  | none =>
    simp only [Access.document?, Access.look, ht] at hd
    cases hd
  | some t =>
    obtain ⟨l, ht'⟩ := h.tables ht
    have hrow : ({ t with ledger := l } : Tables).row? id = t.row? id := rfl
    simp only [Access.document?, Access.look, ht] at hd
    simp only [Access.document?, Access.look, ht', hrow]
    generalize t.row? id = row at hd ⊢
    cases row with
    | none =>
      obtain ⟨rfl, -⟩ := EStateM.Result.ok.inj hd
      rfl
    | some r =>
      cases hr : r.document? with
      | none =>
        simp only [hr] at hd
        cases hd
      | some d' =>
        simp only [hr] at hd ⊢
        obtain ⟨rfl, -⟩ := EStateM.Result.ok.inj hd
        rfl

end Relogged

/-! ### Writes -/

/-- One entry of the ledger was written, and nothing else was changed. -/
structure Writes (db : Database) (w : LedgerWrite) (db' : Database) : Prop where
  tables : ∃ t, db.contents.tables = some t
  relogged : db.Relogged db'
  entry : ∀ key, db'.logged? key =
    if key = w.key then some (w.mode.combine ((db.logged? w.key).getD "") w.value)
    else db.logged? key

theorem writes_log (ht : db.contents.tables = some t) (w : LedgerWrite) :
    db.Writes w { db with contents.tables := some (t.log w) } where
  tables := ⟨t, ht⟩
  relogged := ⟨Ledger.write t.ledger w, (withLedger_eq ht _).symm⟩
  entry key := by
    show (Ledger.write t.ledger w).get? key = _
    rw [Ledger.get?_write, logged?_eq ht, logged?_eq ht]
    rfl

theorem writes_of_log {w : LedgerWrite} (h : Access.log w db = .ok () db') : db.Writes w db' := by
  rw [Access.log] at h
  obtain ⟨t, t', ht, hdone, rfl⟩ := Access.alter_eq_ok h
  split at hdone
  · cases hdone
  · obtain rfl : t.log w = t' := by simpa using hdone
    exact writes_log ht w

/-! ### What is read -/

theorem ledgerValue_eq (ht : db.contents.tables = some t) (key : String) :
    Access.ledgerValue key db = .ok ((db.logged? key).getD "") db := by
  simp only [Access.ledgerValue, Access.look, ht, Ledger.value, logged?_eq ht]

theorem stageDone_of_entry (ht : db.contents.tables = some t) (s : Stage) :
    stageDone s db = .ok (saysDone ((db.logged? s.flagKey).getD "")) db := by
  simp only [stageDone, Functor.map, EStateM.map, ledgerValue_eq ht]

/-- The mark of the document parsed last is read, or it is not, and nothing is changed. -/
theorem latestParsed_cases (db : Database) :
    (∃ mark, latestParsed db = .ok mark db) ∨ ∃ e, latestParsed db = .error e db := by
  cases ht : db.contents.tables with
  | none =>
    refine .inr ⟨.reading parsedKey, ?_⟩
    simp only [latestParsed, bind, EStateM.bind, Access.ledgerValue, Access.look, ht]
  | some t =>
    simp only [latestParsed, bind, EStateM.bind, ledgerValue_eq ht]
    generalize Text.trim ((db.logged? parsedKey).getD "") = text
    by_cases hempty : text = ""
    · exact .inl ⟨0, by rw [if_pos hempty]; rfl⟩
    · rw [if_neg hempty]
      cases Text.integer? text.toList with
      | none => exact .inr ⟨_, rfl⟩
      | some id => exact .inl ⟨id, rfl⟩

/-- It is read from its entry. -/
theorem latestParsed_congr {t' : Tables} (ht : db.contents.tables = some t)
    (ht' : db'.contents.tables = some t') (h : db'.logged? parsedKey = db.logged? parsedKey)
    {mark : Int} (hmark : latestParsed db = .ok mark db) : latestParsed db' = .ok mark db' := by
  simp only [latestParsed, bind, EStateM.bind, ledgerValue_eq ht] at hmark
  simp only [latestParsed, bind, EStateM.bind, ledgerValue_eq ht', h]
  generalize Text.trim ((db.logged? parsedKey).getD "") = text at hmark ⊢
  by_cases hempty : text = ""
  · rw [if_pos hempty] at hmark ⊢
    obtain ⟨rfl, -⟩ := EStateM.Result.ok.inj hmark
    rfl
  · rw [if_neg hempty] at hmark ⊢
    cases hid : Text.integer? text.toList with
    | none =>
      rw [hid] at hmark
      cases hmark
    | some id =>
      rw [hid] at hmark
      obtain ⟨rfl, -⟩ := EStateM.Result.ok.inj hmark
      rfl

end Database

end XmlHarvest

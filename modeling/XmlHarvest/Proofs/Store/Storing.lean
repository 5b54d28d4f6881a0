/-
Storing documents as one change of the tables.

Documents are stored one after the other, and behind them the ledger is written to.  A transaction
undoes what was done before a failure, so the whole comes down to one change of the tables
(`Access.store_eq_alter`), which is made where there are tables and the write to the ledger is not
refused (`Access.store_ok`, `Access.of_store_ok`).  What a change of the tables, a migration and a
clearing leave behind is said here once for all that is proved of databases (`Access.left_alter`,
`Access.left_migrate`, `Access.left_reset`).
-/
import XmlHarvest.Store.Access

namespace XmlHarvest

/-! ### Documents one after the other -/

namespace Tables

@[simp] theorem add_nil (t : Tables) (source : String) : t.add source [] = t := by
  simp [add, nextIds]

theorem nextIds_succ (t : Tables) (source : String) (d : Document) (count : Nat) :
    t.nextIds (count + 1) = (t.lastId + 1) :: (t.add source [d]).nextIds count := by
  rw [nextIds, List.range'_succ]
  rfl

/-- Storing one document and then others stores them all. -/
theorem add_add (t : Tables) (source : String) (d : Document) (ds : List Document) :
    (t.add source [d]).add source ds = t.add source (d :: ds) := by
  simp [add, nextIds, List.range'_succ, Nat.add_assoc, Nat.add_comm 1]

end Tables

/-! ### Changes of the tables -/

/-- A write fails when its key is one of those that are refused. -/
theorem Contents.rejects_iff {c : Contents} {w : LedgerWrite} :
    c.rejects w = true ↔ w.key ∈ c.rejected :=
  List.contains_iff_mem

namespace Access

variable {α : Type} {db db' : Database} {t : Tables}

/-- The database that an access leaves, whether it succeeds or fails. -/
def left (access : Access α) (db : Database) : Database :=
  match access db with
  | .ok _ db' | .error _ db' => db'

theorem left_look (error : StoreError) (view : Tables → Except StoreError α) (db : Database) :
    (look error view).left db = db := by
  unfold left look
  cases db.contents.tables with
  | none => rfl
  | some t =>
    simp only
    cases view t <;> rfl

/-- A change of the tables leaves the database as it was, or with other tables where there are
some. -/
theorem left_alter (error : StoreError)
    (change : Contents → Tables → Except StoreError (α × Tables)) (db : Database) :
    (alter error change).left db = db ∨
      ∃ t a t', db.contents.tables = some t ∧ change db.contents t = .ok (a, t') ∧
        (alter error change).left db = { db with contents.tables := some t' } := by
  unfold left alter
  cases db.contents.tables with
  | none => exact .inl rfl
  | some t =>
    cases hdone : change db.contents t with
    | error e => exact .inl (by simp only [hdone])
    | ok r => exact .inr ⟨t, r.1, r.2, rfl, hdone, by simp only [hdone]⟩

/-- A migration makes sure of the table of versions.  If it does more, no transaction is open. -/
theorem left_migrate (db : Database) :
    migrate.left db = { db with contents := db.contents.createVersions } ∨
      db.committed = none ∧ migrate.left db =
        { db with contents := db.contents.createVersions.createTables.recordVersion .initial } := by
  rw [left, migrate_eq]
  by_cases hversion : db.contents.createVersions.hasVersion .initial = true
  · simp only [if_pos hversion, true_or]
  · cases hc : db.committed with
    | none => simp [if_neg hversion]
    | some c => simp [if_neg hversion]

/-- Clearing leaves the database as it was when a transaction is open.  Otherwise it empties the
tables, and opens a transaction where there are none. -/
theorem left_reset (db : Database) :
    (db.committed.isSome = true ∧ reset.left db = db) ∨
      (db.committed = none ∧ db.contents.tables = none ∧
        reset.left db = { db with committed := some db.contents }) ∨
      (db.committed = none ∧ db.contents.tables.isSome = true ∧
        reset.left db = { db with contents.tables := some .empty }) := by
  unfold left reset
  cases hc : db.committed with
  | some c => exact .inl ⟨rfl, rfl⟩
  | none =>
    cases ht : db.contents.tables with
    | none => exact .inr (.inl ⟨rfl, rfl, rfl⟩)
    | some t => exact .inr (.inr ⟨rfl, rfl, rfl⟩)

/-- What holds of a database still holds of the one that the access leaves. -/
def Keeps (I : Database → Prop) (access : Access α) : Prop := ∀ db, I db → I (access.left db)

/-- An access that only looks keeps everything. -/
theorem keeps_look {I : Database → Prop} (error : StoreError)
    (view : Tables → Except StoreError α) : Keeps I (look error view) := by
  intro db h
  rwa [left_look]

/-- A change of the tables that succeeded was made to tables that were there. -/
theorem alter_eq_ok {error : StoreError} {a : α}
    {change : Contents → Tables → Except StoreError (α × Tables)}
    (h : alter error change db = .ok a db') :
    ∃ t t', db.contents.tables = some t ∧ change db.contents t = .ok (a, t') ∧
      db' = { db with contents.tables := some t' } := by
  unfold alter at h
  cases ht : db.contents.tables with
  | none =>
    rw [ht] at h
    cases h
  | some t =>
    cases hdone : change db.contents t with
    | error e =>
      simp only [ht, hdone] at h
      cases h
    | ok r =>
      obtain ⟨b, t'⟩ := r
      simp only [ht, hdone] at h
      obtain ⟨rfl, rfl⟩ := EStateM.Result.ok.inj h
      exact ⟨t, t', rfl, hdone, rfl⟩

/-- A write to the ledger where there are tables. -/
theorem log_eq (ht : db.contents.tables = some t) (w : LedgerWrite) :
    log w db =
      if db.contents.rejects w then .error (.writing w.mode w.key) db
      else .ok () { db with contents.tables := some (t.log w) } := by
  simp only [log, alter, ht]
  cases db.contents.rejects w <;> rfl

/-- Where there are tables, storing documents one after the other does not fail. -/
theorem mapM_insert (ht : db.contents.tables = some t) (source : String) (ds : List Document) :
    ds.mapM (insert source) db =
      .ok (t.nextIds ds.length) { db with contents.tables := some (t.add source ds) } := by
  induction ds generalizing db t with
  | nil =>
    rw [List.mapM_nil, Tables.add_nil, ← ht]
    rfl
  | cons d ds ih =>
    have hfirst : insert source d db =
        .ok (t.lastId + 1) { db with contents.tables := some (t.add source [d]) } := by
      simp only [insert, alter, ht]
    have hothers := @ih { db with contents.tables := some (t.add source [d]) } _ rfl
    rw [List.mapM_cons, List.length_cons, t.nextIds_succ source d, ← t.add_add source d ds]
    simp only [bind, EStateM.bind, hfirst, hothers]
    rfl

/-- What storing documents and writing to the ledger makes of the tables. -/
theorem store_eq_alter (source : String) (ds : List Document) (entry : Option LedgerWrite) :
    store source ds entry = alter .refused fun c t =>
      match entry with
      | none => .ok (t.nextIds ds.length, t.add source ds)
      | some w =>
        if c.rejects w then .error (.writing w.mode w.key)
        else .ok (t.nextIds ds.length, (t.add source ds).log w) := by
  funext db
  cases ht : db.contents.tables with
  | none => simp only [store, transaction, needTables, look, alter, bind, EStateM.bind, ht]
  | some t =>
    have hneed : needTables db = .ok () db := by simp only [needTables, look, ht]
    have hinsert := mapM_insert ht source ds
    simp only [store, transaction, alter, bind, EStateM.bind, hneed, hinsert, ht]
    cases entry with
    | none => rfl
    | some w =>
      -- What was stored is given up where the write to the ledger is refused.
      have hsame : Contents.rejects { db.contents with tables := some (t.add source ds) } w =
          db.contents.rejects w := rfl
      simp only [Option.forM, log, alter, hsame]
      cases db.contents.rejects w <;> rfl

theorem save_eq_alter (source : String) (ds : List Document) :
    save source ds = alter .refused fun _ t => .ok (t.nextIds ds.length, t.add source ds) :=
  store_eq_alter source ds none

theorem saveLogged_eq_alter (source : String) (ds : List Document) (w : LedgerWrite) :
    saveLogged source ds w = alter .refused fun c t =>
      if c.rejects w then .error (.writing w.mode w.key)
      else .ok (t.nextIds ds.length, (t.add source ds).log w) :=
  store_eq_alter source ds (some w)

/-- Storing documents with a write to the ledger where there are tables. -/
theorem saveLogged_eq (ht : db.contents.tables = some t) (source : String) (ds : List Document)
    (w : LedgerWrite) :
    saveLogged source ds w db =
      if db.contents.rejects w then .error (.writing w.mode w.key) db
      else .ok (t.nextIds ds.length)
        { db with contents.tables := some ((t.add source ds).log w) } := by
  simp only [saveLogged_eq_alter, alter, ht]
  cases db.contents.rejects w <;> rfl

/-! ### Success and failure -/

variable {source : String} {ds : List Document} {entry : Option LedgerWrite}

/-- A transaction that fails leaves the database as it was. -/
theorem eq_of_transaction {accesses : Access α} {e : StoreError}
    (h : transaction accesses db = .error e db') : db' = db := by
  unfold transaction at h
  split at h
  · cases h
  · obtain ⟨-, rfl⟩ := EStateM.Result.error.inj h
    rfl

/-- What storing yields where there are tables and the write is not refused. -/
theorem store_ok {t : Tables} (ht : db.contents.tables = some t)
    (h : ∀ w ∈ entry, w.key ∉ db.contents.rejected) (source : String) (ds : List Document) :
    store source ds entry db = .ok (t.nextIds ds.length)
      { db with contents.tables := some (entry.elim (t.add source ds) (t.add source ds).log) } := by
  rw [store_eq_alter]
  cases entry with
  | none => simp only [alter, ht, Option.elim_none]
  | some w =>
    have hfree : db.contents.rejects w = false :=
      Bool.eq_false_iff.mpr fun hrefused => h w rfl (Contents.rejects_iff.mp hrefused)
    simp only [alter, ht, hfree, Option.elim_some, Bool.false_eq_true, if_false]

/-- Storing succeeds only where there are tables and the write is not refused. -/
theorem of_store_ok {ids : List Nat} (h : store source ds entry db = .ok ids db') :
    ∃ t, db.contents.tables = some t ∧ ∀ w ∈ entry, w.key ∉ db.contents.rejected := by
  rw [store_eq_alter] at h
  obtain ⟨t, t', ht, hdone, -⟩ := alter_eq_ok h
  refine ⟨t, ht, ?_⟩
  rintro w rfl hw
  have hrefused : db.contents.rejects w = true := Contents.rejects_iff.mpr hw
  simp only [hrefused, if_true] at hdone
  cases hdone

end Access

end XmlHarvest

/-
Storing documents is all or nothing.

Where storing succeeds, exactly the documents have been added, under ids above all that were given
since everything was cleared last, and the ledger has been written to once; where it fails, after
however many documents, the database is the one before.  Main statement:
`Access.store_allOrNothing`.
-/
import XmlHarvest.Proofs.Store.Retrieval

namespace XmlHarvest

open Relation

/-! ### What storing makes of a database -/

/-- What a write to a ledger, if there is one, makes of what is found in it. -/
def Ledger.After (l l' : Ledger) : Option LedgerWrite → Prop
  | none => ∀ key, l'.get? key = l.get? key
  | some w =>
    l'.get? w.key = some (w.mode.combine (Ledger.value l w.key) w.value) ∧
      ∀ key, key ≠ w.key → l'.get? key = l.get? key

/-- The documents stand behind the others, in their order and under increasing ids above the last
one that was given before, and the ledger has been written to if that was asked for. -/
structure Tables.Stored (t : Tables) (source : String) (ds : List Document)
    (entry : Option LedgerWrite) (ids : List Nat) (t' : Tables) : Prop where
  length : ids.length = ds.length
  increasing : ids.Pairwise (· < ·)
  between : ∀ id ∈ ids, t.lastId < id ∧ id ≤ t'.lastId
  rows : t'.rows = t.rows ++ List.zipWith (Row.ofDocument source) ids ds
  lastId : t'.lastId = t.lastId + ds.length
  ledger : Ledger.After t.ledger t'.ledger entry

namespace Database

/-- The databases differ in the documents and the write alone. -/
def Stored (db : Database) (source : String) (ds : List Document) (entry : Option LedgerWrite)
    (ids : List Nat) (db' : Database) : Prop :=
  ∃ t t', db.contents.tables = some t ∧ t.Stored source ds entry ids t' ∧
    db' = { db with contents.tables := some t' }

/-- The id was given to a document, and nothing has been cleared since. -/
def HasGiven (db : Database) (id : Nat) : Prop :=
  ∃ (db₀ db₁ : Database) (source : String) (ds : List Document) (entry : Option LedgerWrite)
    (ids : List Nat), db₀.Reached ∧ Access.store source ds entry db₀ = .ok ids db₁ ∧ id ∈ ids ∧
      ReflTransGen Grows db₁ db

end Database

/-- Further documents get the ids behind the last one that was given. -/
theorem Tables.stored (t : Tables) (source : String) (ds : List Document)
    (entry : Option LedgerWrite) :
    t.Stored source ds entry (t.nextIds ds.length)
      (entry.elim (t.add source ds) (t.add source ds).log) where
  length := List.length_range'
  increasing := List.pairwise_lt_range'
  between := by
    have hlast : (entry.elim (t.add source ds) (t.add source ds).log).lastId =
        t.lastId + ds.length := by cases entry <;> rfl
    intro id hid
    have := List.mem_range'_1.mp hid
    omega
  rows := by cases entry <;> rfl
  lastId := by cases entry <;> rfl
  ledger := by
    cases entry with
    | none => exact fun _ => rfl
    | some w =>
      show Ledger.After t.ledger (Ledger.write t.ledger w) (some w)
      refine ⟨?_, ?_⟩
      · rw [Ledger.get?_write, if_pos rfl]
      · intro key hkey
        rw [Ledger.get?_write, if_neg hkey]

/-! ### Success and failure -/

namespace Access

variable {source : String} {ds : List Document} {entry : Option LedgerWrite}
variable {db db' : Database}

theorem stored_of_store {ids : List Nat} (h : store source ds entry db = .ok ids db') :
    db.Stored source ds entry ids db' := by
  obtain ⟨t, ht, hfree⟩ := of_store_ok h
  rw [store_ok ht hfree] at h
  obtain ⟨rfl, rfl⟩ := EStateM.Result.ok.inj h
  exact ⟨t, _, ht, t.stored source ds entry, rfl⟩

end Access

/-! ### The last id -/

namespace Database

/-- The last id that was given; zero where there are no tables. -/
def lastId (db : Database) : Nat := (db.contents.tables.map Tables.lastId).getD 0

variable {db db' : Database}

/-- Documents are stored under ids between the last one before and the last one after. -/
theorem Stored.between {source : String} {ds : List Document} {entry : Option LedgerWrite}
    {ids : List Nat} (h : db.Stored source ds entry ids db') :
    db.lastId ≤ db'.lastId ∧ ∀ id ∈ ids, db.lastId < id ∧ id ≤ db'.lastId := by
  obtain ⟨t, t', ht, hstored, rfl⟩ := h
  have hlast : db.lastId = t.lastId := by rw [lastId, ht]; rfl
  rw [hlast]
  show t.lastId ≤ t'.lastId ∧ ∀ id ∈ ids, t.lastId < id ∧ id ≤ t'.lastId
  have := hstored.lastId
  exact ⟨by omega, hstored.between⟩

theorem lastId_le_store (source : String) (ds : List Document) (entry : Option LedgerWrite)
    (db : Database) : db.lastId ≤ ((Access.store source ds entry).left db).lastId := by
  unfold Access.left
  cases hstore : Access.store source ds entry db with
  | ok ids db' => exact (Access.stored_of_store hstore).between.1
  | error e db' => rw [Access.eq_of_transaction hstore]

theorem lastId_le_log (w : LedgerWrite) (db : Database) :
    db.lastId ≤ ((Access.log w).left db).lastId := by
  unfold Access.left Access.log Access.alter
  cases ht : db.contents.tables with
  | none => exact Nat.le_refl _
  | some t =>
    cases hrefused : db.contents.rejects w with
    | true =>
      simp only [hrefused, if_true]
      exact Nat.le_refl _
    | false =>
      simp only [hrefused, Bool.false_eq_true, if_false, lastId, ht]
      exact Nat.le_refl _

/-- Where there are no tables, no id was given. -/
theorem lastId_le_migrate (db : Database) : db.lastId ≤ (Access.migrate.left db).lastId := by
  rcases Access.left_migrate db with hleft | ⟨-, hleft⟩
  · rw [hleft]
    exact Nat.le_refl _
  · rw [hleft]
    show db.lastId ≤ (db.contents.tables.getD .empty).lastId
    unfold lastId
    cases db.contents.tables <;> exact Nat.le_refl _

/-- An operation that removes nothing does not lower the last id. -/
theorem Numbered.lastId_le (h : db.Numbered) (op : Grows db db') : db.lastId ≤ db'.lastId := by
  cases op with
  | migrate => exact lastId_le_migrate db
  | save source ds => exact lastId_le_store source ds none db
  | saveLogged source ds w => exact lastId_le_store source ds (some w) db
  | log w => exact lastId_le_log w db
  | reject keys => exact Nat.le_refl _
  | reopen =>
    unfold Database.reopen
    cases hc : db.committed with
    | none => exact Nat.le_refl _
    | some c =>
      -- The transaction that is lost was begun where there were no tables.
      have hnone : db.contents.tables = none := (h.opened c hc).1
      rw [lastId, hnone]
      exact Nat.zero_le _

theorem Numbered.lastId_le_all (h : db.Numbered) (ops : ReflTransGen Grows db db') :
    db.lastId ≤ db'.lastId := by
  induction ops with
  | refl => exact Nat.le_refl _
  | tail ops op ih => exact ih.trans ((h.grows_all ops).1.lastId_le op)

/-- No id that was given since everything was cleared last is above the last one. -/
theorem HasGiven.le_lastId {id : Nat} (h : db.HasGiven id) : id ≤ db.lastId := by
  obtain ⟨db₀, db₁, source, ds, entry, ids, hreached, hstore, hid, hops⟩ := h
  have hbetween := ((Access.stored_of_store hstore).between.2 id hid).2
  have hnumbered : db₁.Numbered := by
    have h := (hreached.numbered.store source ds entry).1
    rwa [Access.left, hstore] at h
  exact hbetween.trans (hnumbered.lastId_le_all hops)

end Database

/-! ### All or nothing -/

/-- Storing documents, with a write to the ledger (`saveLogged`) or without one (`save`), is done
completely or not at all. -/
theorem Access.store_allOrNothing (source : String) (ds : List Document)
    (entry : Option LedgerWrite) (db : Database) :
    ((∃ ids db', Access.store source ds entry db = .ok ids db') ↔
      db.contents.tables.isSome ∧ ∀ w ∈ entry, w.key ∉ db.contents.rejected) ∧
    match Access.store source ds entry db with
    | .ok ids db' =>
      db.Stored source ds entry ids db' ∧ ∀ old, db.HasGiven old → ∀ id ∈ ids, old < id
    | .error _ db' => db' = db := by
  refine ⟨⟨?_, ?_⟩, ?_⟩
  · rintro ⟨ids, db', hstore⟩
    obtain ⟨t, ht, hfree⟩ := of_store_ok hstore
    exact ⟨by rw [ht]; rfl, hfree⟩
  · rintro ⟨htables, hfree⟩
    obtain ⟨t, ht⟩ := Option.isSome_iff_exists.mp htables
    exact ⟨_, _, store_ok ht hfree source ds⟩
  · cases hstore : Access.store source ds entry db with
    | error e db' => exact eq_of_transaction hstore
    | ok ids db' =>
      have hstored := stored_of_store hstore
      refine ⟨hstored, ?_⟩
      intro old hold id hid
      have hle := hold.le_lastId
      have hlt := (hstored.between.2 id hid).1
      omega

end XmlHarvest

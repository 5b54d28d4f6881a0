/-
Migrations made again, and migrations that were cut off.

A migration commits its steps one by one: the table of versions, the tables, the version; it is cut
off by making only the first of them (`Access.migrateCut`).  No step takes away what is there, and
the state between two steps is one that a migration can begin with, so a migration begun after any
of them ends where the first one would have ended (`Contents.Regular.settled_afterSteps`).  What a database went through before does not matter, as
long as no transaction is open; and once it was migrated, a migration changes nothing.
Main statement: `Database.Lived.migrate_settles`.
-/
import XmlHarvest.Proofs.Store.Accounting

namespace XmlHarvest

open Relation (ReflTransGen)

/-! ### Steps of a migration -/

namespace Contents

/-- The contents when some of the steps are made. -/
def afterSteps (c : Contents) (n : Nat) : Contents :=
  (c.migrationSteps.take n).foldl (fun c s => s.make c) c

/-- The contents when all steps are made. -/
def settled (c : Contents) : Contents := c.migrationSteps.foldl (fun c s => s.make c) c

theorem afterSteps_of_length_le {c : Contents} {n : Nat} (h : c.migrationSteps.length ≤ n) :
    c.afterSteps n = c.settled := by
  rw [afterSteps, List.take_of_length_le h, settled]

/-- The contents are new, or there is a table of versions without any, or the version is recorded
and the tables are there. -/
inductive Regular : Contents → Prop
  | new (rejected : List String) : Regular ⟨none, none, rejected⟩
  | unrecorded (tables : Option Tables) (rejected : List String) :
      Regular ⟨some [], tables, rejected⟩
  | recorded (tables : Tables) (rejected : List String) :
      Regular ⟨some [.initial], some tables, rejected⟩

namespace Regular

variable {c : Contents}

theorem createVersions (h : c.Regular) : c.createVersions.Regular := by
  cases h with
  | new => exact .unrecorded _ _
  | unrecorded => exact .unrecorded _ _
  | recorded => exact .recorded _ _

/-- Tables may change where there are tables. -/
theorem alter {t : Tables} (h : c.Regular) (ht : c.tables = some t) (t' : Tables) :
    Regular { c with tables := some t' } := by
  cases h with
  | new => cases ht
  | unrecorded => exact .unrecorded _ _
  | recorded => exact .recorded _ _

theorem reject (h : c.Regular) (keys : List String) : Regular { c with rejected := keys } := by
  cases h with
  | new => exact .new _
  | unrecorded => exact .unrecorded _ _
  | recorded => exact .recorded _ _

/-- A migration leaves the tables that are there, and one version. -/
theorem settled_eq (h : c.Regular) :
    c.settled = ⟨some [.initial], some (c.tables.getD .empty), c.rejected⟩ := by
  cases h <;> rfl

/-- The contents between two steps of a migration are regular, and the tables, if there are any, are
those that there were. -/
theorem afterSteps (h : c.Regular) (n : Nat) :
    (c.afterSteps n).Regular ∧
      (c.afterSteps n).tables.getD .empty = c.tables.getD .empty ∧
      (c.afterSteps n).rejected = c.rejected := by
  cases h with
  | new rejected =>
    match n with
    | 0 => exact ⟨.new _, rfl, rfl⟩
    | 1 => exact ⟨.unrecorded _ _, rfl, rfl⟩
    | 2 => exact ⟨.unrecorded _ _, rfl, rfl⟩
    | n + 3 =>
      rw [afterSteps_of_length_le (Nat.le_add_left 3 n)]
      exact ⟨.recorded _ _, rfl, rfl⟩
  | unrecorded tables rejected =>
    match n with
    | 0 => exact ⟨.unrecorded _ _, rfl, rfl⟩
    | 1 => exact ⟨.unrecorded _ _, rfl, rfl⟩
    | 2 => exact ⟨.unrecorded _ _, rfl, rfl⟩
    | n + 3 =>
      rw [afterSteps_of_length_le (Nat.le_add_left 3 n)]
      exact ⟨.recorded _ _, rfl, rfl⟩
  | recorded tables rejected =>
    match n with
    | 0 => exact ⟨.recorded _ _, rfl, rfl⟩
    | n + 1 =>
      rw [afterSteps_of_length_le (Nat.le_add_left 1 n)]
      exact ⟨.recorded _ _, rfl, rfl⟩

/-- A migration that is begun after some steps of another ends where that would have ended. -/
theorem settled_afterSteps (h : c.Regular) (n : Nat) : (c.afterSteps n).settled = c.settled := by
  obtain ⟨hregular, htables, hrejected⟩ := h.afterSteps n
  rw [hregular.settled_eq, h.settled_eq, htables, hrejected]

end Regular

end Contents

/-- Where no transaction is open, every step succeeds and is committed. -/
theorem Access.makeSteps_of_closed (steps : List MigrationStep) (c : Contents) :
    steps.forM Access.makeStep (.ofContents c) =
      .ok () (.ofContents (steps.foldl (fun c s => s.make c) c)) := by
  induction steps generalizing c with
  | nil => rfl
  | cons s steps ih =>
    have hfirst : Access.makeStep s (.ofContents c) = .ok () (.ofContents (s.make c)) := by
      cases s <;> rfl
    rw [List.foldl_cons, ← ih]
    simp only [List.forM, bind, EStateM.bind, hfirst]

/-- Where no transaction is open, a migration makes all its steps. -/
theorem Access.migrate_of_closed {db : Database} (h : db.committed = none) :
    Access.migrate db = .ok () (.ofContents db.contents.settled) := by
  obtain ⟨c, committed⟩ := db
  obtain rfl : committed = none := h
  exact Access.makeSteps_of_closed c.migrationSteps c

/-- The first steps of a migration, after which it is cut off. -/
def Access.migrateCut (n : Nat) : Access Unit := fun db =>
  (db.contents.migrationSteps.take n).forM Access.makeStep db

theorem Access.left_migrateCut {db : Database} (h : db.committed = none) (n : Nat) :
    (Access.migrateCut n).left db = .ofContents (db.contents.afterSteps n) := by
  obtain ⟨c, committed⟩ := db
  obtain rfl : committed = none := h
  have hsteps : Access.migrateCut n (.ofContents c) = .ok () (.ofContents (c.afterSteps n)) :=
    Access.makeSteps_of_closed (c.migrationSteps.take n) c
  show (Access.migrateCut n).left (.ofContents c) = _
  rw [Access.left, hsteps]

/-! ### Databases and their past -/

namespace Database

/-- A migration was cut off: some of its steps were committed, and of the next there may be anything
that was not. -/
inductive CutOff (db : Database) : Database → Prop
  | between (n : Nat) : CutOff db ((Access.migrateCut n).left db)
  | within (n : Nat) (uncommitted : Contents) :
      CutOff db ⟨uncommitted, some ((Access.migrateCut n).left db).contents⟩

/-- What may become of a database: it grows, it is cleared, a pipeline works on it, or a migration
is cut off and the database opened again. -/
inductive Lives : Database → Database → Prop
  | grows {db db' : Database} (op : Grows db db') : Lives db db'
  | reset (db : Database) : Lives db (Access.reset.left db)
  | use (db : Database) (u : Use) : Lives db (u.after db)
  | cutOff {db cut : Database} (hclosed : db.committed = none) (hcut : db.CutOff cut) :
      Lives db cut.reopen

/-- A database with whatever past. -/
def Lived (db : Database) : Prop := ReflTransGen Lives .fresh db

/-- A database that was migrated at some time in its past. -/
def Upheld (db : Database) : Prop :=
  ∃ before migrated, Lived before ∧ Access.migrate before = .ok () migrated ∧
    ReflTransGen Lives migrated db

variable {I : Database → Prop} {db db' cut : Database}

/-- Opened again after a migration was cut off, a database has the contents between two steps. -/
theorem CutOff.reopen (hclosed : db.committed = none) (h : db.CutOff cut) :
    ∃ n, cut.reopen = ofContents (db.contents.afterSteps n) := by
  cases h with
  | between n =>
    rw [Access.left_migrateCut hclosed]
    exact ⟨n, rfl⟩
  | within n uncommitted =>
    rw [Access.left_migrateCut hclosed]
    exact ⟨n, rfl⟩

/-- What all that may become of a database keeps. -/
structure Lasting (I : Database → Prop) : Prop where
  migrate : Access.Keeps I Access.migrate
  alter : ∀ (α : Type) (error : StoreError)
    (change : Contents → Tables → Except StoreError (α × Tables)),
    Access.Keeps I (Access.alter error change)
  reject : ∀ db keys, I db → I { db with contents.rejected := keys }
  reopen : ∀ db, I db → I db.reopen
  reset : Access.Keeps I Access.reset
  cutOff : ∀ db cut, I db → db.committed = none → db.CutOff cut → I cut.reopen

namespace Lasting

theorem grows (hI : Lasting I) (h : I db) (op : Grows db db') : I db' := by
  cases op with
  | migrate => exact hI.migrate _ h
  | save source ds =>
    rw [Access.save, Access.store_eq_alter]
    exact hI.alter _ _ _ _ h
  | saveLogged source ds w =>
    rw [Access.saveLogged, Access.store_eq_alter]
    exact hI.alter _ _ _ _ h
  | log w => exact hI.alter _ _ _ _ h
  | reject keys => exact hI.reject _ _ h
  | reopen => exact hI.reopen _ h

theorem lives (hI : Lasting I) (h : I db) (hlives : ReflTransGen Lives db db') : I db' := by
  induction hlives with
  | refl => exact h
  | @tail db _ _ hlast ih =>
    cases hlast with
    | grows op => exact hI.grows ih op
    | reset => exact hI.reset _ ih
    | use u =>
      have hstart := hI.grows ih (.reject db u.attempt.rejected)
      have hkeeps := keeps_step (fun _ _ h op => hI.grows h op) hI.reset u.attempt.pipeline
        u.operation
      exact (hkeeps.ends (r := u.attempt.start db) hstart).last
    | cutOff hclosed hcut => exact hI.cutOff _ _ ih hclosed hcut

end Lasting

/-- The contents are regular, also those that were committed when a transaction is open; one is open
only where there are no tables. -/
structure Regular (db : Database) : Prop where
  contents : db.contents.Regular
  committed : ∀ c, db.committed = some c → c.Regular ∧ db.contents.tables = none

theorem Regular.ofContents {c : Contents} (h : c.Regular) : (ofContents c).Regular := ⟨h, nofun⟩

theorem lasting_regular : Lasting Regular where
  migrate db h := by
    cases hc : db.committed with
    | none =>
      rw [Access.left, Access.migrate_of_closed hc, h.contents.settled_eq]
      exact .ofContents (.recorded _ _)
    | some c =>
      rcases Access.left_migrate db with hleft | ⟨hclosed, -⟩
      · rw [hleft]
        exact ⟨h.contents.createVersions, h.committed⟩
      · cases hc.symm.trans hclosed
  alter α error change db h := by
    rcases Access.left_alter error change db with hleft | ⟨t, a, t', ht, -, hleft⟩
    · rwa [hleft]
    · rw [hleft]
      refine ⟨h.contents.alter ht _, ?_⟩
      intro c hc
      cases ht.symm.trans (h.committed c hc).2
  reject db keys h := ⟨h.contents.reject keys, h.committed⟩
  reopen db h := by
    unfold Database.reopen
    cases hc : db.committed with
    | none => exact .ofContents h.contents
    | some c => exact .ofContents (h.committed c hc).1
  reset db h := by
    rcases Access.left_reset db with ⟨-, hleft⟩ | ⟨-, ht, hleft⟩ | ⟨hclosed, ht, hleft⟩
    · rwa [hleft]
    · rw [hleft]
      refine ⟨h.contents, fun c hc => ?_⟩
      obtain rfl : db.contents = c := Option.some.inj hc
      exact ⟨h.contents, ht⟩
    · obtain ⟨t, ht⟩ := Option.isSome_iff_exists.mp ht
      rw [hleft]
      refine ⟨h.contents.alter ht _, fun c hc => ?_⟩
      cases hclosed.symm.trans hc
  cutOff db cut h hclosed hcut := by
    obtain ⟨n, hn⟩ := hcut.reopen hclosed
    rw [hn]
    exact .ofContents (h.contents.afterSteps n).1

theorem Lived.regular (h : db.Lived) : db.Regular :=
  lasting_regular.lives (.ofContents (.new [])) h

/-- The version is recorded once, the tables are there, and no transaction is open. -/
inductive Settled : Database → Prop
  | mk (tables : Tables) (rejected : List String) :
      Settled (.ofContents ⟨some [.initial], some tables, rejected⟩)

/-- To migrate such a database is to do nothing. -/
theorem Settled.migrate (h : db.Settled) : Access.migrate db = .ok () db := by
  cases h
  rfl

theorem lasting_settled : Lasting Settled where
  migrate db h := by
    rw [Access.left, h.migrate]
    exact h
  alter α error change db h := by
    rcases Access.left_alter error change db with hleft | ⟨t, a, t', -, -, hleft⟩
    · rwa [hleft]
    · rw [hleft]
      cases h
      exact .mk t' _
  reject db keys h := by
    cases h with
    | mk t rejected => exact .mk t keys
  reopen db h := by
    cases h with
    | mk t rejected => exact .mk t rejected
  reset db h := by
    cases h with
    | mk t rejected => exact .mk .empty rejected
  cutOff db cut h hclosed hcut := by
    obtain ⟨n, hn⟩ := hcut.reopen hclosed
    rw [hn]
    cases h with
    | mk t rejected =>
      cases n with
      | zero => exact .mk t rejected
      | succ n =>
        rw [Contents.afterSteps_of_length_le (Nat.le_add_left 1 n)]
        exact .mk t rejected

/-- A migration that succeeds leaves the version recorded once. -/
theorem Regular.settled (h : db.Regular) (hmigrate : Access.migrate db = .ok () db') :
    db'.Settled := by
  cases hc : db.committed with
  | none =>
    rw [Access.migrate_of_closed hc, h.contents.settled_eq] at hmigrate
    obtain ⟨-, rfl⟩ := EStateM.Result.ok.inj hmigrate
    exact .mk _ _
  | some c =>
    -- In an open transaction there are no tables, so no version is recorded.
    exfalso
    obtain ⟨-, htables⟩ := h.committed c hc
    obtain ⟨⟨versions, tables, rejected⟩, committed⟩ := db
    obtain rfl : tables = none := htables
    obtain rfl : committed = some c := hc
    cases h.contents <;> cases hmigrate

theorem Upheld.settled (h : db.Upheld) : db.Settled := by
  obtain ⟨before, migrated, hbefore, hmigrate, hsince⟩ := h
  exact lasting_settled.lives (hbefore.regular.settled hmigrate) hsince

/-- Whatever a database went through, a migration of it succeeds unless a transaction is open.  It
leaves the documents, the ledger and the next id as they are, and of every migration one version;
when the database was migrated before, it changes nothing at all.  When it is cut off, the next one
leads to the same database. -/
theorem Lived.migrate_settles (h : db.Lived) (hclosed : db.committed = none) :
    ∃ settled, Access.migrate db = .ok () settled ∧ settled.committed = none ∧
      settled.contents =
        ⟨some [.initial], some (db.contents.tables.getD .empty), db.contents.rejected⟩ ∧
      (db.Upheld → settled = db) ∧
      ∀ cut, db.CutOff cut → Access.migrate cut.reopen = .ok () settled := by
  have hregular := h.regular.contents
  have hmigrate := Access.migrate_of_closed hclosed
  refine ⟨_, hmigrate, rfl, hregular.settled_eq, ?_, ?_⟩
  · intro hupheld
    rw [hupheld.settled.migrate] at hmigrate
    exact (EStateM.Result.ok.inj hmigrate).2.symm
  · intro cut hcut
    obtain ⟨n, hn⟩ := hcut.reopen hclosed
    rw [hn, Access.migrate_of_closed rfl]
    show EStateM.Result.ok () (Database.ofContents (db.contents.afterSteps n).settled) = _
    rw [hregular.settled_afterSteps]

/-- A new database is migrated, with the process ending after any step; a document is stored, and
the database migrated again. -/
theorem Lived.migrate_settles_stored :
    let d : Document := ⟨"d", ⟨"d", [], [], [⟨"x", []⟩]⟩⟩
    let db := (Access.save "a.xml" [d]).left .migrated
    Access.migrate .fresh = .ok () .migrated ∧
      (∀ cut, Database.fresh.CutOff cut → Access.migrate cut.reopen = .ok () .migrated) ∧
      Access.documentCount.answer? db = some 1 ∧ Access.migrate db = .ok () db := by
  intro d db
  obtain ⟨migrated, hmigrate, -, -, -, hcut⟩ := Lived.migrate_settles .refl rfl
  obtain ⟨-, rfl⟩ : _ ∧ Database.migrated = migrated := EStateM.Result.ok.inj hmigrate
  have hupheld : db.Upheld :=
    ⟨.fresh, .migrated, .refl, hmigrate, .single (.grows (.save _ _ _))⟩
  have hlived : db.Lived :=
    .tail (.single (.grows (.migrate _))) (.grows (.save _ _ _))
  obtain ⟨settled, hagain, -, -, hsame, -⟩ := hlived.migrate_settles (by decide +kernel)
  obtain rfl := hsame hupheld
  exact ⟨hmigrate, hcut, by decide +kernel, hagain⟩

end Database

end XmlHarvest

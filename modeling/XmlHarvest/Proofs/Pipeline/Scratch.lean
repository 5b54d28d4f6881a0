/-
Runs from scratch.

A run from scratch clears the database first, and what is left is as good as a new database: it
holds no documents and no progress, and ids count from one.  All that may differ from a new one is
which migrations are recorded, and no access of a run looks at them
(`Database.SameStored.accessesLockstep`).  Main statement: a run from scratch comes to the same as a
run on a new database (`Pipeline.scratch_sameOutcome_fresh`).
-/
import XmlHarvest.Proofs.Pipeline.Lockstep
import XmlHarvest.Proofs.Pipeline.Operations

namespace XmlHarvest

variable {σ α : Type}

/-- The databases hold the same documents, the same last id and the same ledger, and writes to the
same keys fail. -/
structure Database.SameStored (db db' : Database) : Prop where
  tables : db.contents.tables = db'.contents.tables
  rejected : db.contents.rejected = db'.contents.rejected

namespace Database.SameStored

theorem lockstep_look (error : StoreError) (view : Tables → Except StoreError α) :
    Lockstep SameStored (Access.look error view) := by
  intro db db' h
  unfold Access.look
  rw [← h.tables]
  split
  · exact .error h
  · split
    · exact .ok h
    · exact .error h

theorem lockstep_alter (error : StoreError)
    {change : Contents → Tables → Except StoreError (α × Tables)}
    (hchange : ∀ c c', c.rejected = c'.rejected → change c = change c') :
    Lockstep SameStored (Access.alter error change) := by
  intro db db' h
  unfold Access.alter
  rw [← h.tables, ← hchange _ _ h.rejected]
  split
  · exact .error h
  · split
    · exact .ok ⟨rfl, h.rejected⟩
    · exact .error h

theorem rejects_congr {c c' : Contents} (h : c.rejected = c'.rejected) (w : LedgerWrite) :
    c.rejects w = c'.rejects w := by
  rw [Contents.rejects, Contents.rejects, h]

/-- No access of a run tells such databases apart. -/
theorem accessesLockstep : AccessesLockstep SameStored where
  ledgerValue _ _ := lockstep_look _ _
  log w _ := lockstep_alter _ fun c c' h => by rw [rejects_congr h w]
  saveLogged source ds w _ := by
    rw [Access.saveLogged_eq_alter]
    exact lockstep_alter _ fun c c' h => by rw [rejects_congr h w]
  ids := lockstep_look _ _
  document? _ := lockstep_look _ _

end Database.SameStored

/-- Clearing a database with tables and no open transaction leaves empty tables. -/
theorem commit_reset {db : Database} (htables : db.contents.tables.isSome = true)
    (hclosed : db.committed = none) (parser : σ) (left : Option Nat) :
    commit Access.reset (⟨db, parser, [], left.map (· + 1)⟩ : Run σ) =
      .ok () ⟨{ db with contents.tables := some .empty }, parser, [], left⟩ := by
  obtain ⟨t, ht⟩ := Option.isSome_iff_exists.mp htables
  have hcount : (left.map (· + 1)).map (· - 1) = left := by cases left <;> rfl
  have hwrites : left.map (· + 1) ≠ some 0 := by cases left <;> simp
  simp only [commit, if_neg hwrites, Access.reset, hclosed, ht, hcount]
  rfl

/-- On a database with tables and no open transaction, a run from scratch yields the same, or stops
at the same error, as a run on a new database.  Both call the parser with the same documents, and
they leave the same documents, ids and ledger.  Where runs are cut off, clearing is one write
more. -/
theorem Pipeline.scratch_sameOutcome_fresh (pl : Pipeline σ) (parser : σ) (left : Option Nat)
    {db : Database} (htables : db.contents.tables.isSome = true) (hclosed : db.committed = none) :
    SameOutcome (Run.Beside Database.SameStored)
      (pl.process true ⟨db, parser, [], left.map (· + 1)⟩)
      (pl.process false ⟨{ Database.migrated with contents.rejected := db.contents.rejected },
        parser, [], left⟩) := by
  rw [process_scratch]
  simp only [bind, EStateM.bind, commit_reset htables hclosed]
  -- The cleared database has the tables of a new one, and its own record of migrations.
  exact lockstep_process Database.SameStored.accessesLockstep ⟨⟨rfl, rfl⟩, rfl, rfl, rfl⟩

/-- A run from scratch on a database with a document of an earlier run, in which the parser refuses
every second document. -/
theorem Pipeline.scratch_sameOutcome_fresh_refused :
    let db := (Attempt.single "a.xml" (some "<text/>")).after .migrated
    let file := Entry.file (some "<text/>")
    let pl : Pipeline Bool :=
      ⟨{ Config.default with grammaticalProcessing := true },
        ⟨.nested ⟨"text", ["text"], []⟩ [], .punctuation, true⟩,
        ⟨"texts", some [(.text "b.xml", file), (.text "c.xml", file)]⟩,
        fun _ second => (if second then .error "no" else .ok (), !second)⟩
    db.contents.tables.isSome = true ∧ db.committed = none ∧ Access.ids.answer? db = some [1] ∧
      (Run.last (pl.process true (.start db false))).calls = [(1, true), (2, false)] ∧
      SameOutcome (Run.Beside Database.SameStored) (pl.process true (.start db false))
        (pl.process false (.start .migrated false)) := by
  intro db file pl
  have htables : db.contents.tables.isSome = true := by decide +kernel
  have hclosed : db.committed = none := by decide +kernel
  have hrejected : db.contents.rejected = [] := by decide +kernel
  have hids : Access.ids.answer? db = some [1] := by decide +kernel
  have hcalls : (Run.last (pl.process true (.start db false))).calls = [(1, true), (2, false)] := by
    decide +kernel
  have hsame := pl.scratch_sameOutcome_fresh false none htables hclosed
  rw [hrejected] at hsame
  exact ⟨htables, hclosed, hids, hcalls, hsame⟩

end XmlHarvest

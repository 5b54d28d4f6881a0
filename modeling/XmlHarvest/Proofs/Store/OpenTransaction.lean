/-
What a failed migration or clearing leaves behind, as all later calls show it.

Clearing a database without tables fails in the middle of its transaction and leaves it open.  Then
no migration is made until the database is opened again, though it would be made if nothing had
been tried (`Upkeep.Failed.begun`).  Where a transaction is open already, a failure changes nothing
that any later call could show (`Upkeep.Failed.unnoticed`).  Later calls are compared by their
replies, those of runs included, and two databases reply alike if their accesses go in lockstep
(`Call.alike`).
-/
import XmlHarvest.Proofs.Pipeline.Attempts
import XmlHarvest.Proofs.Pipeline.Lockstep

namespace XmlHarvest

variable {α : Type}

/-! ### Calls -/

/-- What is asked of a database.  Flags and marks are read and written as entries of the ledger. -/
inductive Call
  | migrate
  | reset
  | reopen
  | ledgerValue (key : String)
  | ledgerEntries
  | log (w : LedgerWrite)
  | store (source : String) (ds : List Document) (entry : Option LedgerWrite)
  | document (id : Int)
  | ids
  | sources
  | documentCount
  | sentenceCount
  | process (a : Attempt) (scratch : Bool)
  | extractRecord (a : Attempt)
  | parseDocuments (a : Attempt)
  | finishParsing (a : Attempt)

/-- What is answered. -/
inductive Answer
  | done
  | text (value : String)
  | entries (es : List (String × String))
  | ids (is : List Nat)
  | document (d : Option StoredDocument)
  | sources (ss : List String)
  | count (n : Nat)
  | recorded (counts : Nat × Nat)
  | summary (s : Summary)

/-- What a call comes to: an answer or an error, and the calls of the parser in between. -/
structure Reply where
  result : Except RunError Answer
  parsed : List (Nat × Bool)

/-- The reply of an access, and the database that it leaves. -/
def Access.reply (access : Access α) (answer : α → Answer) (db : Database) : Reply × Database :=
  match access db with
  | .ok a db' => (⟨.ok (answer a), []⟩, db')
  | .error e db' => (⟨.error (.store e), []⟩, db')

/-- The reply of a step of a run that begins with it. -/
def Attempt.reply (a : Attempt) (step : Step a.σ α) (answer : α → Answer) (db : Database) :
    Reply × Database :=
  match step (a.start db) with
  | .ok b r => (⟨.ok (answer b), r.calls⟩, r.database)
  | .error e r => (⟨.error e, r.calls⟩, r.database)

/-- The reply of a call, and the database that it leaves. -/
def Call.reply : Call → Database → Reply × Database
  | migrate => Access.migrate.reply fun _ => .done
  | reset => Access.reset.reply fun _ => .done
  | reopen => fun db => (⟨.ok .done, []⟩, db.reopen)
  | ledgerValue key => (Access.ledgerValue key).reply .text
  | ledgerEntries => Access.ledgerEntries.reply .entries
  | log w => (Access.log w).reply fun _ => .done
  | store source ds entry => (Access.store source ds entry).reply .ids
  | document id => (Access.document? id).reply .document
  | ids => Access.ids.reply .ids
  | sources => Access.sources.reply .sources
  | documentCount => Access.documentCount.reply .count
  | sentenceCount => Access.sentenceCount.reply .count
  | process a scratch => a.reply (a.pipeline.process scratch) .summary
  | extractRecord a => a.reply a.pipeline.extractRecord .recorded
  | parseDocuments a => a.reply a.pipeline.parseDocuments .count
  | finishParsing a => a.reply Pipeline.finishParsing fun _ => .done

/-- The replies of calls one after the other. -/
def replies : List Call → Database → List Reply
  | [], _ => []
  | c :: cs, db => (c.reply db).1 :: replies cs (c.reply db).2

/-- The reply of a call that is made inside a transaction without tables: a migration that would
have to be made is not, and any other call comes to the same as on the database before. -/
def Call.replyInside (migrated : Bool) (db : Database) : Call → Reply
  | .migrate => ⟨if migrated then .ok .done else .error (.store (.migrating .initial)), []⟩
  | c => (c.reply db).1

/-! ### Databases that reply alike -/

/-- All accesses but those that tell open transactions go in lockstep along the relation. -/
structure CallsLockstep (R : Database → Database → Prop) : Prop where
  look : ∀ {α : Type} (error : StoreError) (view : Tables → Except StoreError α),
    Lockstep R (Access.look error view)
  log : ∀ w, Lockstep R (Access.log w)
  store : ∀ source ds entry, Lockstep R (Access.store source ds entry)
  reset : Lockstep R Access.reset
  /-- From outside it may change to which keys writes fail. -/
  reject : ∀ {db db' : Database} (keys : List String), R db db' →
    R { db with contents.rejected := keys } { db' with contents.rejected := keys }

namespace CallsLockstep

variable {R : Database → Database → Prop}

theorem accesses (h : CallsLockstep R) : AccessesLockstep R where
  ledgerValue _ _ := h.look _ _
  log w _ := h.log w
  saveLogged source ds w _ := h.store source ds (some w)
  ids := h.look _ _
  document? _ := h.look _ _

theorem process (h : CallsLockstep R) {σ : Type} (pl : Pipeline σ) (scratch : Bool) :
    Lockstep (Run.Beside R) (pl.process scratch) := by
  cases scratch with
  | false => exact Pipeline.lockstep_process h.accesses
  | true =>
    refine lockstep_bind (lockstep_commit h.reset) fun _ => ?_
    exact Pipeline.lockstep_process h.accesses

end CallsLockstep

/-- The replies are the same, and the databases that are left are related. -/
def Alike (R : Database → Database → Prop) (x y : Reply × Database) : Prop := x.1 = y.1 ∧ R x.2 y.2

section Alike

variable {R : Database → Database → Prop} {db db' : Database}

theorem Lockstep.alike {access : Access α} (h : Lockstep R access) (hdb : R db db')
    (answer : α → Answer) : Alike R (access.reply answer db) (access.reply answer db') := by
  have hsame := h hdb
  unfold Access.reply
  generalize access db = result at hsame ⊢
  generalize access db' = result' at hsame ⊢
  cases hsame with
  | ok related => exact ⟨rfl, related⟩
  | error related => exact ⟨rfl, related⟩

theorem Attempt.alike (a : Attempt) {step : Step a.σ α} (h : Lockstep (Run.Beside R) step)
    (hstart : R (a.start db).database (a.start db').database) (answer : α → Answer) :
    Alike R (a.reply step answer db) (a.reply step answer db') := by
  have hbeside : Run.Beside R (a.start db) (a.start db') := ⟨hstart, rfl, rfl, rfl⟩
  have hsame := h hbeside
  unfold Attempt.reply
  generalize step (a.start db) = result at hsame ⊢
  generalize step (a.start db') = result' at hsame ⊢
  cases hsame with
  | ok related => exact ⟨congrArg (Reply.mk _) related.calls, related.database⟩
  | error related => exact ⟨congrArg (Reply.mk _) related.calls, related.database⟩

/-- Where the accesses go in lockstep, the calls do. -/
theorem Call.alike (h : CallsLockstep R) (c : Call) (hdb : R db db')
    (hmigrate : c = migrate → Lockstep R Access.migrate)
    (hreopen : c = reopen → R db.reopen db'.reopen) : Alike R (c.reply db) (c.reply db') := by
  cases c with
  | migrate => exact (hmigrate rfl).alike hdb _
  | reset => exact h.reset.alike hdb _
  | reopen => exact ⟨rfl, hreopen rfl⟩
  | ledgerValue key => exact (h.look _ _).alike hdb _
  | ledgerEntries => exact (h.look _ _).alike hdb _
  | log w => exact (h.log w).alike hdb _
  | store source ds entry => exact (h.store source ds entry).alike hdb _
  | document id => exact (h.look _ _).alike hdb _
  | ids => exact (h.look _ _).alike hdb _
  | sources => exact (h.look _ _).alike hdb _
  | documentCount => exact (h.look _ _).alike hdb _
  | sentenceCount => exact (h.look _ _).alike hdb _
  | process a scratch => exact a.alike (h.process a.pipeline scratch) (h.reject _ hdb) _
  | extractRecord a =>
    exact a.alike (Pipeline.lockstep_extractRecord h.accesses) (h.reject _ hdb) _
  | parseDocuments a =>
    exact a.alike (Pipeline.lockstep_parseDocuments h.accesses.pending (h.accesses.setStage _ _)
      (fun id => h.accesses.document? id) fun id => h.accesses.setLatestParsed id)
      (h.reject _ hdb) _
  | finishParsing a =>
    exact a.alike (Pipeline.lockstep_finishParsing h.accesses.pending (h.accesses.setStage _ _))
      (h.reject _ hdb) _

end Alike

/-! ### While a transaction is open -/

namespace Database

variable {db db' : Database}

/-- The same transaction is open, and the databases differ at most in that the one has an empty
table of versions and the other has none. -/
structure AlikeOpen (db db' : Database) : Prop where
  opened : db.committed.isSome = true
  committed : db'.committed = db.committed
  tables : db'.contents.tables = db.contents.tables
  rejected : db'.contents.rejected = db.contents.rejected
  versions : db'.contents.versions.getD [] = db.contents.versions.getD []

/-- The databases are the same, or alike as long as a transaction is open. -/
def SameOrOpen (db db' : Database) : Prop := db' = db ∨ db.AlikeOpen db'

/-- On one and the same database nothing is to be shown. -/
theorem lockstep_sameOrOpen {access : Access α}
    (h : ∀ db db', AlikeOpen db db' → SameOutcome SameOrOpen (access db) (access db')) :
    Lockstep SameOrOpen access := by
  rintro db db' (rfl | halike)
  · cases access db' with
    | ok a db => exact .ok (.inl rfl)
    | error e db => exact .error (.inl rfl)
  · exact h db db' halike

theorem AlikeOpen.look (h : db.AlikeOpen db') (error : StoreError)
    (view : Tables → Except StoreError α) :
    SameOutcome SameOrOpen (Access.look error view db) (Access.look error view db') := by
  unfold Access.look
  rw [h.tables]
  cases db.contents.tables with
  | none => exact .error (.inr h)
  | some t =>
    simp only
    cases view t with
    | ok a => exact .ok (.inr h)
    | error e => exact .error (.inr h)

theorem AlikeOpen.alter (h : db.AlikeOpen db') (error : StoreError)
    {change : Contents → Tables → Except StoreError (α × Tables)}
    (hchange : change db'.contents = change db.contents) :
    SameOutcome SameOrOpen (Access.alter error change db) (Access.alter error change db') := by
  unfold Access.alter
  rw [h.tables, hchange]
  cases db.contents.tables with
  | none => exact .error (.inr h)
  | some t =>
    simp only
    cases change db.contents t with
    | ok r => exact .ok (.inr ⟨h.opened, h.committed, rfl, h.rejected, h.versions⟩)
    | error e => exact .error (.inr h)

theorem AlikeOpen.rejects (h : db.AlikeOpen db') (w : LedgerWrite) :
    db'.contents.rejects w = db.contents.rejects w := by
  rw [Contents.rejects, Contents.rejects, h.rejected]

theorem callsLockstep_sameOrOpen : CallsLockstep SameOrOpen where
  look error view := lockstep_sameOrOpen fun _ _ h => h.look error view
  log w := lockstep_sameOrOpen fun _ _ h => h.alter _ (by rw [h.rejects])
  store source ds entry := by
    rw [Access.store_eq_alter]
    refine lockstep_sameOrOpen fun _ _ h => h.alter _ ?_
    cases entry with
    | none => rfl
    | some w => simp only [h.rejects]
  reset := by
    refine lockstep_sameOrOpen fun db db' h => ?_
    unfold Access.reset
    rw [h.committed, if_pos h.opened, if_pos h.opened]
    exact .error (.inr h)
  reject := by
    rintro db db' keys (rfl | h)
    · exact .inl rfl
    · exact .inr ⟨h.opened, h.committed, h.tables, rfl, h.versions⟩

/-- A migration makes up for the table of versions, and fails in both. -/
theorem lockstep_migrate_sameOrOpen : Lockstep SameOrOpen Access.migrate := by
  refine lockstep_sameOrOpen fun db db' h => ?_
  have hversions : db'.contents.createVersions.hasVersion .initial =
      db.contents.createVersions.hasVersion .initial := by
    simp only [Contents.hasVersion, Contents.createVersions, Option.getD_some, h.versions]
  have hafter : AlikeOpen ⟨db.contents.createVersions, db.committed⟩
      ⟨db'.contents.createVersions, db.committed⟩ :=
    ⟨h.opened, rfl, h.tables, h.rejected, h.versions⟩
  simp only [Access.migrate_eq, hversions, h.committed, if_pos h.opened]
  split
  · exact .ok (.inr hafter)
  · exact .error (.inr hafter)

/-- What was not committed is lost, so opening the database again leaves no difference. -/
theorem reopen_sameOrOpen (h : db.SameOrOpen db') : db.reopen.SameOrOpen db'.reopen := by
  obtain rfl | h := h
  · exact .inl rfl
  · obtain ⟨c, hc⟩ := Option.isSome_iff_exists.mp h.opened
    left
    rw [reopen, reopen, h.committed, hc]
    rfl

theorem SameOrOpen.replies (h : db.SameOrOpen db') (cs : List Call) :
    XmlHarvest.replies cs db' = XmlHarvest.replies cs db := by
  induction cs generalizing db db' with
  | nil => rfl
  | cons c cs ih =>
    obtain ⟨hreply, hafter⟩ := Call.alike callsLockstep_sameOrOpen c h
      (fun _ => lockstep_migrate_sameOrOpen) fun _ => reopen_sameOrOpen h
    rw [XmlHarvest.replies, XmlHarvest.replies, hreply, ih hafter]

/-! ### A transaction without tables -/

/-- Neither database has tables, and in the second a transaction is open.  Whether a migration would
have to be made there is known. -/
structure Stuck (migrated : Bool) (db db' : Database) : Prop where
  first : db.contents.tables = none
  second : db'.contents.tables = none
  opened : db'.committed.isSome = true
  version : db'.contents.hasVersion .initial = migrated

variable {migrated : Bool}

theorem Stuck.alter (h : Stuck migrated db db') (error : StoreError)
    (change : Contents → Tables → Except StoreError (α × Tables)) :
    SameOutcome (Stuck migrated) (Access.alter error change db)
      (Access.alter error change db') := by
  simp only [Access.alter, h.first, h.second]
  exact .error h

/-- Without tables every access fails, whether a transaction is open or not. -/
theorem callsLockstep_stuck : CallsLockstep (Stuck migrated) where
  look error view db db' h := by
    simp only [Access.look, h.first, h.second]
    exact .error h
  log w _ _ h := h.alter _ _
  store source ds entry := by
    rw [Access.store_eq_alter]
    exact fun _ _ h => h.alter _ _
  reset db db' h := by
    simp only [Access.reset, if_pos h.opened, h.first]
    split
    · exact .error h
    · exact .error ⟨h.first, h.second, h.opened, h.version⟩
  reject keys h := ⟨h.first, h.second, h.opened, h.version⟩

theorem Stuck.reply (h : Stuck migrated db db') {c : Call} (hc : c ≠ .reopen) :
    (c.reply db').1 = c.replyInside migrated db ∧ Stuck migrated db (c.reply db').2 := by
  by_cases hmigrate : c = .migrate
  · subst hmigrate
    have hversion : db'.contents.createVersions.hasVersion .initial = migrated := by
      rw [← h.version]
      simp [Contents.hasVersion, Contents.createVersions]
    have hafter : Stuck migrated db { db' with contents := db'.contents.createVersions } :=
      ⟨h.first, h.second, h.opened, hversion⟩
    simp only [Call.reply, Call.replyInside, Access.reply, Access.migrate_eq, hversion,
      if_pos h.opened]
    cases migrated with
    | true => exact ⟨rfl, hafter⟩
    | false => exact ⟨rfl, hafter⟩
  · obtain ⟨hreply, hafter⟩ := Call.alike callsLockstep_stuck c h (fun h => absurd h hmigrate)
      fun h => absurd h hc
    refine ⟨?_, h.first, hafter.second, hafter.opened, hafter.version⟩
    rw [← hreply]
    cases c with
    | migrate => exact absurd rfl hmigrate
    | _ => rfl

theorem Stuck.replies (h : Stuck migrated db db') {cs : List Call} (hcs : ∀ c ∈ cs, c ≠ .reopen) :
    XmlHarvest.replies cs db' = cs.map (Call.replyInside migrated db) := by
  induction cs generalizing db' with
  | nil => rfl
  | cons c cs ih =>
    obtain ⟨hc, hcs⟩ := List.forall_mem_cons.mp hcs
    obtain ⟨hreply, hafter⟩ := h.reply hc
    rw [XmlHarvest.replies, hreply, ih hafter hcs]
    rfl

end Database

/-! ### Migrating and clearing -/

/-- What is done to a database as a whole. -/
inductive Upkeep
  | migrate
  | reset

namespace Upkeep

def access : Upkeep → Access Unit
  | migrate => Access.migrate
  | reset => Access.reset

/-- The database was cleared: no document and no entry of the ledger is left, and ids count from one
again. -/
structure Cleared (db db' : Database) : Prop where
  eq : db' = { db with contents.tables := some .empty }
  ids : Access.ids.answer? db' = some []
  entries : Access.ledgerEntries.answer? db' = some []
  next : ∀ source d, (Access.save source [d]).answer? db' = some [1]

/-- A migration or a clearing failed.  Documents, ledger and ids are as they were, and so is what is
found when the database is opened again; but a transaction is open. -/
structure Failed (op : Upkeep) (db db' : Database) : Prop where
  tables : db'.contents.tables = db.contents.tables
  reopened : db'.reopen = db.reopen
  opened : db'.committed.isSome = true
  /-- If one was open before, no later call shows that anything was tried. -/
  unnoticed : db.committed.isSome = true → ∀ cs, replies cs db' = replies cs db
  /-- If not, a database without tables was to be cleared.  Until it is opened again, a migration is
  not made, which would have been made otherwise; all other calls fail as they would have. -/
  begun : db.committed = none → op = reset ∧ db.contents.tables = none ∧
    (Call.migrate.reply db).1 = ⟨.ok .done, []⟩ ∧
    ∀ cs, (∀ c ∈ cs, c ≠ .reopen) →
      replies cs db' = cs.map (Call.replyInside (db.contents.hasVersion .initial) db)

theorem cleared (db : Database) : Cleared db { db with contents.tables := some .empty } where
  eq := rfl
  ids := rfl
  entries := rfl
  next source d := by
    rw [Access.save_eq_alter]
    rfl

/-- A failed migration was to be made inside a transaction. -/
theorem failed_migrate {db db' : Database} {e : StoreError}
    (h : Access.migrate db = .error e db') : migrate.Failed db db' := by
  rw [Access.migrate_eq] at h
  simp only at h
  split at h
  · cases h
  · split at h
    · next hopened =>
      obtain ⟨-, rfl⟩ := EStateM.Result.error.inj h
      have hsame : db.SameOrOpen { db with contents := db.contents.createVersions } :=
        .inr ⟨hopened, rfl, rfl, rfl, rfl⟩
      refine ⟨rfl, ?_, hopened, fun _ cs => hsame.replies cs, fun hnone => ?_⟩
      · obtain ⟨c, hc⟩ := Option.isSome_iff_exists.mp hopened
        simp only [Database.reopen, hc, Option.getD_some]
      · rw [hnone] at hopened
        cases hopened
    · cases h

theorem failed_reset {db db' : Database} {e : StoreError}
    (h : Access.reset db = .error e db') : reset.Failed db db' := by
  unfold Access.reset at h
  split at h
  · next hopened =>
    obtain ⟨-, rfl⟩ := EStateM.Result.error.inj h
    refine ⟨rfl, rfl, hopened, fun _ _ => rfl, fun hnone => ?_⟩
    rw [hnone] at hopened
    cases hopened
  · next hclosed =>
    have hnone : db.committed = none := by simpa using hclosed
    cases ht : db.contents.tables with
    | some t =>
      rw [ht] at h
      cases h
    | none =>
      rw [ht] at h
      obtain ⟨-, rfl⟩ := EStateM.Result.error.inj h
      have hstuck : Database.Stuck (db.contents.hasVersion .initial) db
          { db with committed := some db.contents } := ⟨ht, ht, rfl, rfl⟩
      refine ⟨rfl, ?_, rfl, fun hopened => absurd hopened hclosed, fun _ =>
        ⟨rfl, ht, ?_, fun cs hcs => hstuck.replies hcs⟩⟩
      · simp only [Database.reopen, hnone, Option.getD_some, Option.getD_none]
      · simp only [Call.reply, Access.reply, Access.migrate_eq, hnone, Option.isSome_none,
          Bool.false_eq_true, if_false]
        cases db.contents.createVersions.hasVersion .initial <;> rfl

/-- A failure shows in later calls unless a transaction was open before. -/
theorem Failed.unnoticed_iff {op : Upkeep} {db db' : Database} (h : op.Failed db db')
    (hversion : db.contents.hasVersion .initial = false) :
    (∀ cs, replies cs db' = replies cs db) ↔ db.committed.isSome = true := by
  refine ⟨fun hsame => ?_, h.unnoticed⟩
  cases hcommitted : db.committed with
  | some c => rfl
  | none =>
    obtain ⟨-, -, hmade, hreplies⟩ := h.begun hcommitted
    have hnot := hreplies [.migrate] (by simp)
    rw [hsame, hversion, replies, hmade] at hnot
    cases hnot

/-- Migrating and clearing, whatever the database is.  A database that was cleared is as good as a
new one.  What failed has changed nothing that is stored, and it is as if it had not been tried if
and only if a transaction was open before: clearing a database without tables leaves one open, and
then no migration is made. -/
theorem cleared_or_opened (op : Upkeep) (db : Database) :
    match op.access db with
    | .ok _ db' => op = reset → Cleared db db'
    | .error _ db' => op.Failed db db' ∧ (db.contents.hasVersion .initial = false →
        ((∀ cs, replies cs db' = replies cs db) ↔ db.committed.isSome = true)) := by
  cases hmade : op.access db with
  | error e db' =>
    have hfailed : op.Failed db db' := by
      cases op with
      | migrate => exact failed_migrate hmade
      | reset => exact failed_reset hmade
    exact ⟨hfailed, hfailed.unnoticed_iff⟩
  | ok u db' =>
    rintro rfl
    have hreset : Access.reset db = .ok u db' := hmade
    unfold Access.reset at hreset
    split at hreset
    · cases hreset
    · cases ht : db.contents.tables with
      | none =>
        rw [ht] at hreset
        cases hreset
      | some t =>
        rw [ht] at hreset
        obtain ⟨-, rfl⟩ := EStateM.Result.ok.inj hreset
        exact cleared db

/-- A new database cannot be cleared, and after that it cannot be migrated either. -/
theorem replies_reset_fresh :
    replies [.reset, .migrate] .fresh =
        [⟨.error (.store .resetting), []⟩, ⟨.error (.store (.migrating .initial)), []⟩] ∧
      replies [.migrate] .fresh = [⟨.ok .done, []⟩] :=
  ⟨rfl, rfl⟩

end Upkeep

end XmlHarvest

/-
What a step of a run leads to, whether it ends or stops.

`Step.Ends x r Q E` says that the step `x`, begun in `r`, ends in `Q` or stops with an error in
`E`.  It passes through `>>=` (`Step.ends_bind`), so how a run ends is put together from how its
steps end.  On a database that shows a progress, an access that only reads yields what the progress
says, and a write either leads to the next progress or is refused: by a key to which writes fail, or
because the run is cut off.
-/
import XmlHarvest.Pipeline.Process
import XmlHarvest.Proofs.Pipeline.Progress
import XmlHarvest.Proofs.Store.Storing
import Mathlib.Algebra.Group.Nat.Defs

namespace XmlHarvest

open Checkpoint

variable {σ α β : Type}

/-! ### Steps -/

/-- Begun in `r`, the step ends in `Q` or stops in `E`. -/
def Step.Ends (x : Step σ α) (r : Run σ) (Q : α → Run σ → Prop) (E : RunError → Run σ → Prop) :
    Prop :=
  match x r with
  | .ok a r' => Q a r'
  | .error e r' => E e r'

namespace Step

variable {r : Run σ} {Q : α → Run σ → Prop} {E : RunError → Run σ → Prop}

theorem ends_pure {a : α} : Ends (pure a) r Q E ↔ Q a r := Iff.rfl

theorem ends_throw {e : RunError} : Ends (throw e) r Q E ↔ E e r := Iff.rfl

theorem ends_bind {x : Step σ β} {f : β → Step σ α} :
    Ends (x >>= f) r Q E ↔ Ends x r (fun b r' => Ends (f b) r' Q E) E := by
  simp only [Ends, bind, EStateM.bind]
  cases x r <;> rfl

theorem Ends.mono {x : Step σ α} {Q' : α → Run σ → Prop} {E' : RunError → Run σ → Prop}
    (h : Ends x r Q E) (hQ : ∀ a r', Q a r' → Q' a r') (hE : ∀ e r', E e r' → E' e r') :
    Ends x r Q' E' := by
  unfold Ends at h ⊢
  cases hx : x r with
  | ok a r' =>
    rw [hx] at h
    exact hQ a r' h
  | error e r' =>
    rw [hx] at h
    exact hE e r' h

theorem ends_consult {access : Access α} {a : α}
    (h : access r.database = .ok a r.database) : Ends (consult access) r Q E ↔ Q a r := by
  simp only [Ends, consult, h]

theorem ends_consult_error {access : Access α} {e : StoreError}
    (h : access r.database = .error e r.database) :
    Ends (consult access) r Q E ↔ E (.store e) r := by
  simp only [Ends, consult, h]

theorem ends_callParser {parser : Parser σ} {d : StoredDocument}
    {Q : Except String Unit → Run σ → Prop} :
    Ends (callParser parser d) r Q E ↔
      Q (parser d r.parser).1
        { r with
          parser := (parser d r.parser).2
          calls := r.calls ++ [(d.id, (parser d r.parser).1.isOk)] } := Iff.rfl

end Step

/-! ### Databases -/

/-- Of the numbers from one to `n` those above `m` are the last ones. -/
theorem filter_lt_range' (m n : Nat) :
    (List.range' 1 n).filter (fun k => m < k) = List.range' (m + 1) (n - m) := by
  induction n with
  | zero => simp
  | succ n ih =>
    rw [List.range'_1_concat, List.filter_append, ih]
    by_cases hlt : m < n + 1
    · have hsub : n + 1 - m = (n - m) + 1 := by omega
      have hlast : m + 1 + (n - m) = 1 + n := by omega
      rw [hsub, List.range'_1_concat, hlast]
      simp [Nat.add_comm 1 n, hlt]
    · have hsub : n + 1 - m = 0 ∧ n - m = 0 := by omega
      simp [hsub.1, hsub.2, Nat.add_comm 1 n, hlt]

/-- The database has no open transaction, and its tables hold what the progress says. -/
structure Database.Shows (db : Database) (p : Progress) : Prop where
  closed : db.committed = none
  tables : ∃ t, db.contents.tables = some t ∧ t.Shows p

namespace Database.Shows

variable {db : Database} {p : Progress}

theorem migrated : Database.migrated.Shows .none := ⟨rfl, .empty, rfl, .none⟩

theorem ledgerValue (h : db.Shows p) (key : String) :
    Access.ledgerValue key db = .ok ((p.text? key).getD "") db := by
  obtain ⟨t, ht, hp⟩ := h.tables
  simp only [Access.ledgerValue, Access.look, ht, hp.value]

theorem stageDone (h : db.Shows p) (s : Stage) :
    stageDone s db = .ok (decide (p.flag s = some true)) db := by
  obtain ⟨t, ht, hp⟩ := h.tables
  simp only [Checkpoint.stageDone, Functor.map, EStateM.map, Access.ledgerValue, Access.look, ht,
    hp.saysDone]

theorem fileRecorded (h : db.Shows p) {i : Nat} (hi : 0 < i) :
    fileRecorded i db = .ok (decide (i ≤ p.files.length)) db := by
  obtain ⟨t, ht, hp⟩ := h.tables
  simp only [Checkpoint.fileRecorded, Functor.map, EStateM.map, Access.ledgerValue, Access.look,
    ht, hp.contains_fileMark hi]

theorem ids (h : db.Shows p) : Access.ids db = .ok (List.range' 1 p.documents.length) db := by
  obtain ⟨t, ht, hp⟩ := h.tables
  simp only [Access.ids, Access.look, ht, hp.ids]

/-- The mark of the document parsed last is read back exactly when 64 bits hold it. -/
theorem latestParsed (h : db.Shows p) :
    Checkpoint.latestParsed db =
      if p.parsedCount < 2 ^ 63 then .ok (p.parsedCount : Int) db
      else .error (.badMark parsedKey (toString p.parsedCount)) db := by
  have hvalue := h.ledgerValue parsedKey
  rw [Progress.text?_parsedKey] at hvalue
  cases hm : p.parsed with
  | none =>
    have hcount : p.parsedCount = 0 := by simp [Progress.parsedCount, hm]
    simp only [Checkpoint.latestParsed, bind, EStateM.bind, hvalue, hm, hcount]
    rfl
  | some m =>
    have hcount : p.parsedCount = m := by simp [Progress.parsedCount, hm]
    have hfits : (Text.fitsSigned (m : Int) = true) ↔ m < 2 ^ 63 := by
      simp only [Text.fitsSigned, Bool.and_eq_true, decide_eq_true_eq]
      omega
    rw [hm] at hvalue
    have hmark : Access.ledgerValue parsedKey db = .ok (toString (m : Int)) db := hvalue
    rw [hcount, Checkpoint.latestParsed_of_value hmark]
    exact if_congr hfits rfl rfl

/-- The documents behind the mark are the last ones, in their order. -/
theorem pending (h : db.Shows p) :
    Pipeline.pending db =
      if p.parsedCount < 2 ^ 63 then
        .ok (List.range' (p.parsedCount + 1) (p.documents.length - p.parsedCount)) db
      else .error (.badMark parsedKey (toString p.parsedCount)) db := by
  by_cases hfits : p.parsedCount < 2 ^ 63
  · simp only [Pipeline.pending, bind, EStateM.bind, h.latestParsed, if_pos hfits, h.ids, pure,
      EStateM.pure, Int.ofNat_lt, filter_lt_range']
  · simp only [Pipeline.pending, bind, EStateM.bind, h.latestParsed, if_neg hfits]

/-- The document with an id is the one at this place, if its text can be read. -/
theorem document? (h : db.Shows p) {id : Nat} {name : String} {d : Document}
    (hd : p.documents[id]? = some (name, d)) :
    Access.document? ((id + 1 : Nat) : Int) db =
      match (Row.ofDocument name (id + 1) d).document? with
      | some s => .ok (some s) db
      | none => .error (.corrupt (id + 1)) db := by
  obtain ⟨t, ht, hp⟩ := h.tables
  simp only [Access.document?, Access.look, ht, hp.row? hd]
  cases (Row.ofDocument name (id + 1) d).document? <;> rfl

end Database.Shows

/-! ### Runs -/

/-- What may keep a run from writing. -/
structure Limits where
  /-- The keys of the ledger to which every write fails. -/
  rejected : List String
  /-- Whether the run is to be cut off at some write. -/
  cut : Bool

/-- The errors with which a write to the ledger may be refused. -/
inductive Limits.Refuses (l : Limits) (w : LedgerWrite) : RunError → Prop
  | cutOff (h : l.cut = true) : Refuses l w .cutOff
  | rejected (h : w.key ∈ l.rejected) : Refuses l w (.store (.writing w.mode w.key))

/-- The run stands at the progress and is under the limits. -/
structure Run.Shows (r : Run σ) (l : Limits) (p : Progress) : Prop where
  database : r.database.Shows p
  rejected : r.database.contents.rejected = l.rejected
  cut : r.writesLeft.isSome = l.cut

namespace Run.Shows

variable {r : Run σ} {l : Limits} {p p' : Progress} {E : RunError → Run σ → Prop}

/-- A change of the tables that is let through leads to the next progress, and one that is refused
leaves the run where it is. -/
theorem ends_alter (h : r.Shows l p) {w : LedgerWrite} {error : StoreError} {a : α}
    {change : Contents → Tables → Except StoreError (α × Tables)} {Q : α → Run σ → Prop}
    (hchange : ∀ t, t.Shows p →
      (change r.database.contents t = .error (.writing w.mode w.key) ∧ w.key ∈ l.rejected) ∨
        ∃ t', change r.database.contents t = .ok (a, t') ∧ t'.Shows p')
    (hQ : ∀ r', r'.Shows l p' → r'.calls = r.calls → Q a r')
    (hE : ∀ e, l.Refuses w e → E e r) :
    Step.Ends (commit (Access.alter error change)) r Q E := by
  obtain ⟨t, ht, hp⟩ := h.database.tables
  unfold Step.Ends commit
  by_cases hcut : r.writesLeft = some 0
  · rw [if_pos hcut]
    apply hE
    apply Limits.Refuses.cutOff
    rw [← h.cut, hcut]
    rfl
  · rw [if_neg hcut]
    rcases hchange t hp with ⟨hrefused, hkey⟩ | ⟨t', hdone, hp'⟩
    · simp only [Access.alter, ht, hrefused]
      exact hE _ (.rejected hkey)
    · simp only [Access.alter, ht, hdone]
      -- One write less is left, but whether the run is to be cut off stays the same.
      refine hQ _ ⟨⟨h.database.closed, t', rfl, hp'⟩, h.rejected, ?_⟩ rfl
      rw [← h.cut]
      cases r.writesLeft <;> rfl

theorem ends_log (h : r.Shows l p) {w : LedgerWrite} {Q : Unit → Run σ → Prop}
    (hw : ∀ t : Tables, t.Shows p → (t.log w).Shows p')
    (hQ : ∀ r', r'.Shows l p' → r'.calls = r.calls → Q () r')
    (hE : ∀ e, l.Refuses w e → E e r) :
    Step.Ends (commit (Access.log w)) r Q E := by
  refine h.ends_alter ?_ hQ hE
  intro t hp
  by_cases hkey : w.key ∈ l.rejected
  · left
    simp [Contents.rejects, h.rejected, hkey]
  · right
    refine ⟨t.log w, ?_, hw t hp⟩
    simp [Contents.rejects, h.rejected, hkey]

theorem ends_setStage (h : r.Shows l p) {s : Stage} {done : Bool} {Q : Unit → Run σ → Prop}
    (hQ : ∀ r', r'.Shows l (p.setFlag s done) → r'.calls = r.calls → Q () r')
    (hE : ∀ e, l.Refuses ⟨s.flagKey, flagText done, .replace⟩ e → E e r) :
    Step.Ends (commit (setStage s done)) r Q E :=
  h.ends_log (fun _ hp => hp.setFlag s done) hQ hE

theorem ends_setLatestParsed (h : r.Shows l p) {id : Nat} {Q : Unit → Run σ → Prop}
    (hQ : ∀ r', r'.Shows l (p.setParsed id) → r'.calls = r.calls → Q () r')
    (hE : ∀ e, l.Refuses ⟨parsedKey, toString (id : Int), .update⟩ e → E e r) :
    Step.Ends (commit (setLatestParsed id)) r Q E :=
  h.ends_log (fun _ hp => hp.setParsed id) hQ hE

/-- The file after those that are recorded is recorded. -/
theorem ends_recordFile (h : r.Shows l p) {name : String} {ds : List Document}
    {Q : List Nat → Run σ → Prop}
    (hQ : ∀ ids r', r'.Shows l (p.record name ds) → r'.calls = r.calls → Q ids r')
    (hE : ∀ e, l.Refuses ⟨recordedKey, fileMark (p.files.length + 1), .append⟩ e → E e r) :
    Step.Ends (commit (recordFile (p.files.length + 1) name ds)) r Q E := by
  rw [recordFile, Access.saveLogged_eq_alter]
  refine h.ends_alter ?_ (hQ (List.range' (p.documents.length + 1) ds.length)) hE
  intro t hp
  by_cases hkey : recordedKey ∈ l.rejected
  · left
    simp [Contents.rejects, h.rejected, hkey]
  · right
    refine ⟨_, ?_, hp.record name ds⟩
    simp [Contents.rejects, h.rejected, hkey, Tables.nextIds, hp.lastId]

end Run.Shows

end XmlHarvest

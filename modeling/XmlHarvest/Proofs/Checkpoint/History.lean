/-
The texts of the ledger as a store of flags, recorded files and a last id.

What was set since the last reset is what is read, however the changes follow one another and
whichever of them fail, and no change of one item bears on another.  This is said of the changes
that succeeded (`Change`, `Item.answer`), apart from the texts that hold them; `Tables.Tells` ties
the two together.  Main statement: `Checkpoint.answers_afterAll`.
-/
import XmlHarvest.Proofs.Checkpoint.Texts
import XmlHarvest.Proofs.Ledger
import XmlHarvest.Proofs.Store.Storing

namespace XmlHarvest

namespace Checkpoint

/-! ### Changes -/

/-- What may be done to the progress.  From outside it may change to which keys writes fail. -/
inductive Change
  | setStage (s : Stage) (done : Bool)
  | recordFile (index : UInt64) (source : String) (ds : List Document)
  | setLatestParsed (id : Int64)
  | reset
  | reject (keys : List String)

/-- The change as an access, without what it yields. -/
def Change.access : Change → Access Unit
  | setStage s done => Checkpoint.setStage s done
  | recordFile index source ds => do
    let _ ← Checkpoint.recordFile index.toNat source ds
  | setLatestParsed id => Checkpoint.setLatestParsed id.toInt
  | reset => Access.reset
  | reject keys => fun db => .ok () { db with contents.rejected := keys }

/-- The key that a change writes to, if it does. -/
def Change.key? : Change → Option String
  | setStage s _ => some s.flagKey
  | recordFile .. => some recordedKey
  | setLatestParsed _ => some parsedKey
  | reset | reject _ => none

/-- Make a change after others, of which those that succeeded are kept, the latest first. -/
def after (before : List Change × Database) (c : Change) : List Change × Database :=
  match c.access before.2 with
  | .ok _ db => (c :: before.1, db)
  | .error _ db => (before.1, db)

/-- Make some changes, one after the other. -/
def afterAll (db : Database) (cs : List Change) : List Change × Database := cs.foldl after ([], db)

/-! ### What is to be read -/

/-- Whether the change clears the progress. -/
def Change.isReset : Change → Bool
  | reset => true
  | _ => false

/-- Of changes, the latest first, those after the last reset. -/
def sinceReset (cs : List Change) : List Change := cs.takeWhile fun c => !c.isReset

/-- The value to which the change sets the flag of a stage. -/
def Change.flag? (s : Stage) : Change → Option Bool
  | setStage s' done => if s' = s then some done else none
  | _ => none

/-- The file that the change records. -/
def Change.file? : Change → Option UInt64
  | recordFile index _ _ => some index
  | _ => none

/-- The id to which the change sets the mark. -/
def Change.parsed? : Change → Option Int64
  | setLatestParsed id => some id
  | _ => none

/-- The value set last for the flag of a stage, if one was set since the last reset. -/
def lastFlag (s : Stage) (cs : List Change) : Option Bool := (sinceReset cs).findSome? (·.flag? s)

/-- The files recorded since the last reset, the latest first. -/
def filesRecorded (cs : List Change) : List UInt64 := (sinceReset cs).filterMap Change.file?

/-- The id set last, if one was set since the last reset. -/
def lastParsed (cs : List Change) : Option Int64 := (sinceReset cs).findSome? Change.parsed?

/-- What can be asked of the progress. -/
inductive Item
  | flag (s : Stage)
  | file (index : UInt64)
  | parsed

/-- The kind of answer: yes or no, or a number. -/
def Item.Answer : Item → Type
  | flag _ | file _ => Bool
  | parsed => Int

/-- Ask the database. -/
def Item.read : (i : Item) → Access i.Answer
  | flag s => stageDone s
  | file index => fileRecorded index.toNat
  | parsed => latestParsed

/-- The answer that the changes call for, of which the latest comes first. -/
def Item.answer (cs : List Change) : (i : Item) → i.Answer
  | flag s => (lastFlag s cs).getD false
  | file index => decide (index ∈ filesRecorded cs)
  | parsed => ((lastParsed cs).map Int64.toInt).getD 0

/-- Whether the change may bear on what is asked. -/
def Change.concerns : Change → Item → Bool
  | setStage s _, .flag s' => s = s'
  | recordFile index _ _, .file index' => index = index'
  | setLatestParsed _, .parsed => true
  | reset, _ => true
  | _, _ => false

/-! ### One more change -/

section

variable {c : Change} (cs : List Change)

theorem sinceReset_cons (h : c.isReset = false) : sinceReset (c :: cs) = c :: sinceReset cs := by
  rw [sinceReset, List.takeWhile_cons_of_pos (by rw [h]; rfl)]
  rfl

theorem lastFlag_cons (h : c.isReset = false) (s : Stage) :
    lastFlag s (c :: cs) = (c.flag? s).or (lastFlag s cs) := by
  rw [lastFlag, sinceReset_cons cs h, List.findSome?_cons]
  cases c.flag? s <;> rfl

theorem filesRecorded_cons (h : c.isReset = false) :
    filesRecorded (c :: cs) = c.file?.toList ++ filesRecorded cs := by
  rw [filesRecorded, sinceReset_cons cs h, List.filterMap_cons]
  cases c.file? <;> rfl

theorem lastParsed_cons (h : c.isReset = false) :
    lastParsed (c :: cs) = c.parsed?.or (lastParsed cs) := by
  rw [lastParsed, sinceReset_cons cs h, List.findSome?_cons]
  cases c.parsed? <;> rfl

/-- What does not bear on an item leaves its answer. -/
theorem Item.answer_cons {i : Item} (h : c.concerns i = false) :
    i.answer (c :: cs) = i.answer cs := by
  have hreset : c.isReset = false := by
    cases c with
    | reset => cases i <;> cases h
    | _ => rfl
  cases i with
  | flag s =>
    have hnone : c.flag? s = none := by
      cases c with
      | setStage s' done => exact if_neg (of_decide_eq_false h)
      | _ => rfl
    rw [answer, lastFlag_cons cs hreset, hnone, Option.none_or]
    rfl
  | file index =>
    have hnot : index ∉ c.file?.toList := by
      cases c with
      | recordFile index' source ds =>
        have hne : ¬ index' = index := of_decide_eq_false h
        rintro hmem
        exact hne (List.mem_singleton.mp hmem).symm
      | _ => exact List.not_mem_nil
    have hiff : index ∈ filesRecorded (c :: cs) ↔ index ∈ filesRecorded cs := by
      rw [filesRecorded_cons cs hreset, List.mem_append]
      exact or_iff_right hnot
    exact decide_eq_decide.mpr hiff
  | parsed =>
    have hnone : c.parsed? = none := by
      cases c with
      | setLatestParsed id => cases h
      | _ => rfl
    rw [answer, lastParsed_cons cs hreset, hnone, Option.none_or]
    rfl

end

end Checkpoint

/-! ### What the texts tell -/

open Checkpoint

/-- The texts of the ledger are those that the changes call for, of which the latest comes first. -/
structure Tables.Tells (t : Tables) (cs : List Change) : Prop where
  flag : ∀ s, t.ledger.get? s.flagKey = (lastFlag s cs).map flagText
  files : Ledger.value t.ledger recordedKey = marks ((filesRecorded cs).reverse.map UInt64.toNat)
  parsed : t.ledger.get? parsedKey = (lastParsed cs).map fun id => toString id.toInt

namespace Tables.Tells

variable {t : Tables} {cs : List Change}

/-- A change that writes nothing to the texts. -/
theorem cons (h : t.Tells cs) {c : Change} (hreset : c.isReset = false)
    (hflag : ∀ s, c.flag? s = none) (hfile : c.file? = none) (hparsed : c.parsed? = none) :
    t.Tells (c :: cs) := by
  refine ⟨?_, ?_, ?_⟩
  · intro s
    rw [h.flag, lastFlag_cons cs hreset, hflag, Option.none_or]
  · rw [h.files, filesRecorded_cons cs hreset, hfile]
    rfl
  · rw [h.parsed, lastParsed_cons cs hreset, hparsed, Option.none_or]

theorem setStage (h : t.Tells cs) (s : Stage) (done : Bool) :
    (t.log ⟨s.flagKey, flagText done, .replace⟩).Tells (.setStage s done :: cs) := by
  refine ⟨?_, ?_, ?_⟩
  · intro s'
    rw [Tables.log, Ledger.get?_write, h.flag, lastFlag_cons cs rfl]
    by_cases hs : s = s'
    · subst hs
      rw [if_pos rfl, Change.flag?, if_pos rfl]
      rfl
    · rw [if_neg fun hkey => hs (Stage.flagKey_injective hkey).symm, Change.flag?, if_neg hs,
        Option.none_or]
  · rw [Tables.log, Ledger.value_write_other _ _ s.flagKey_ne_recordedKey.symm, h.files]
    rfl
  · rw [Tables.log, Ledger.get?_write, if_neg s.flagKey_ne_parsedKey.symm, h.parsed]
    rfl

theorem recordFile (h : t.Tells cs) (index : UInt64) (source : String) (ds : List Document) :
    ((t.add source ds).log ⟨recordedKey, fileMark index.toNat, .append⟩).Tells
      (.recordFile index source ds :: cs) := by
  refine ⟨?_, ?_, ?_⟩
  · intro s
    show (Ledger.write t.ledger _).get? s.flagKey = _
    rw [Ledger.get?_write, if_neg s.flagKey_ne_recordedKey, h.flag]
    rfl
  · show Ledger.value (Ledger.write t.ledger _) recordedKey = _
    have hnew := Ledger.value_write_same t.ledger ⟨recordedKey, fileMark index.toNat, .append⟩
    rw [hnew, filesRecorded_cons cs rfl, h.files]
    simp [Change.file?, WriteMode.combine]
  · show (Ledger.write t.ledger _).get? parsedKey = _
    rw [Ledger.get?_write, if_neg recordedKey_ne_parsedKey.symm, h.parsed]
    rfl

theorem setLatestParsed (h : t.Tells cs) (id : Int64) :
    (t.log ⟨parsedKey, toString id.toInt, .update⟩).Tells (.setLatestParsed id :: cs) := by
  refine ⟨?_, ?_, ?_⟩
  · intro s
    rw [Tables.log, Ledger.get?_write, if_neg s.flagKey_ne_parsedKey, h.flag]
    rfl
  · rw [Tables.log, Ledger.value_write_other _ _ recordedKey_ne_parsedKey, h.files]
    rfl
  · rw [Tables.log, Ledger.get?_write, if_pos rfl, lastParsed_cons cs rfl]
    rfl

theorem reset : Tables.empty.Tells (.reset :: cs) := by
  refine ⟨?_, ?_, ?_⟩
  · exact fun _ => rfl
  · rfl
  · rfl

end Tables.Tells

/-- There is no open transaction, and the texts of the ledger are those that the changes call
for. -/
structure Database.Tells (db : Database) (cs : List Change) : Prop where
  closed : db.committed = none
  tables : ∃ t, db.contents.tables = some t ∧ t.Tells cs

namespace Database.Tells

variable {db : Database} {cs : List Change}

theorem ledgerValue {t : Tables} (ht : db.contents.tables = some t) (key : String) :
    Access.ledgerValue key db = .ok (Ledger.value t.ledger key) db := by
  simp only [Access.ledgerValue, Access.look, ht]

/-- What is read is what the changes call for. -/
theorem read (h : db.Tells cs) (i : Item) : i.read db = .ok (i.answer cs) db := by
  obtain ⟨t, ht, htells⟩ := h.tables
  cases i with
  | flag s =>
    have hsays : saysDone (Ledger.value t.ledger s.flagKey) = (lastFlag s cs).getD false := by
      rw [Ledger.value, htells.flag]
      cases lastFlag s cs with
      | none => rfl
      | some done => exact saysDone_flagText done
    show stageDone s db = .ok ((lastFlag s cs).getD false) db
    simp only [stageDone, Functor.map, EStateM.map, ledgerValue ht, hsays]
  | file index =>
    have hfound : Text.contains (Ledger.value t.ledger recordedKey) (fileMark index.toNat) =
        decide (index ∈ filesRecorded cs) := by
      rw [htells.files, Bool.eq_iff_iff, contains_marks_iff, decide_eq_true_eq]
      simp [UInt64.toNat_inj]
    show fileRecorded index.toNat db = .ok (decide (index ∈ filesRecorded cs)) db
    simp only [fileRecorded, Functor.map, EStateM.map, ledgerValue ht, hfound]
  | parsed =>
    have hvalue := ledgerValue ht parsedKey
    rw [Ledger.value, htells.parsed] at hvalue
    show latestParsed db = .ok (((lastParsed cs).map Int64.toInt).getD 0) db
    cases hlast : lastParsed cs with
    | none =>
      rw [hlast] at hvalue
      simp only [latestParsed, bind, EStateM.bind, hvalue]
      rfl
    | some id =>
      rw [hlast] at hvalue
      have hfits : Text.fitsSigned id.toInt = true := by
        have hlower := id.le_toInt
        have hupper := id.toInt_lt
        simp only [Text.fitsSigned, Bool.and_eq_true, decide_eq_true_eq]
        omega
      rw [latestParsed_of_value hvalue, if_pos hfits]
      rfl

/-- A change fails where the key that it writes to is refused, and then leaves the database as it
is. -/
inductive Refused (db : Database) (c : Change) : Prop
  | mk (e : StoreError) (failed : c.access db = .error e db) (key : String)
    (own : c.key? = some key) (refused : key ∈ db.contents.rejected)

/-- A change succeeds where the key that it writes to is not refused, and is told of then. -/
inductive Made (db : Database) (cs : List Change) (c : Change) : Prop
  | mk (db' : Database) (done : c.access db = .ok () db') (tells : db'.Tells (c :: cs))
    (free : ∀ key ∈ c.key?, key ∉ db.contents.rejected)

theorem made_or_refused (h : db.Tells cs) {c : Change} {w : LedgerWrite} {t' : Tables}
    (hkey : c.key? = some w.key)
    (haccess : c.access db = if db.contents.rejects w then .error (.writing w.mode w.key) db
      else .ok () { db with contents.tables := some t' })
    (ht' : t'.Tells (c :: cs)) : Refused db c ∨ Made db cs c := by
  by_cases hw : w.key ∈ db.contents.rejected
  · rw [if_pos (Contents.rejects_iff.mpr hw)] at haccess
    exact .inl ⟨_, haccess, w.key, hkey, hw⟩
  · rw [if_neg fun hrefused => hw (Contents.rejects_iff.mp hrefused)] at haccess
    refine .inr ⟨_, haccess, ⟨h.closed, t', rfl, ht'⟩, ?_⟩
    rintro key hown
    rw [hkey] at hown
    obtain rfl : w.key = key := Option.some.inj hown
    exact hw

/-- What a change can do. -/
theorem access (h : db.Tells cs) (c : Change) : Refused db c ∨ Made db cs c := by
  obtain ⟨t, ht, htells⟩ := h.tables
  cases c with
  | setStage s done =>
    exact h.made_or_refused rfl (Access.log_eq ht _) (htells.setStage s done)
  | recordFile index source ds =>
    let w : LedgerWrite := ⟨recordedKey, fileMark index.toNat, .append⟩
    have haccess : (Change.recordFile index source ds).access db =
        if db.contents.rejects w then .error (.writing w.mode w.key) db
        else .ok () { db with contents.tables := some ((t.add source ds).log w) } := by
      simp only [Change.access, Checkpoint.recordFile, bind, EStateM.bind, Access.saveLogged_eq ht]
      cases db.contents.rejects w <;> rfl
    exact h.made_or_refused rfl haccess (htells.recordFile index source ds)
  | setLatestParsed id =>
    exact h.made_or_refused rfl (Access.log_eq ht _) (htells.setLatestParsed id)
  | reset =>
    refine .inr ⟨{ db with contents.tables := some .empty }, ?_, ⟨h.closed, _, rfl, .reset⟩, nofun⟩
    simp only [Change.access, Access.reset, h.closed, ht, Option.isSome_none, Bool.false_eq_true,
      if_false]
  | reject keys =>
    refine .inr ⟨_, rfl, ⟨h.closed, t, ht, ?_⟩, nofun⟩
    exact htells.cons rfl (fun _ => rfl) rfl rfl

/-- A change that succeeds is added to those that the database tells of, and one that fails leaves
it as it is. -/
theorem after (h : db.Tells cs) (c : Change) :
    (Checkpoint.after (cs, db) c).2.Tells (Checkpoint.after (cs, db) c).1 := by
  rcases h.access c with ⟨e, hfailed, -⟩ | ⟨db', hdone, htells, -⟩
  · simp only [Checkpoint.after, hfailed]
    exact h
  · simp only [Checkpoint.after, hdone]
    exact htells

theorem afterAll (h : db.Tells cs) (later : List Change) :
    (later.foldl Checkpoint.after (cs, db)).2.Tells (later.foldl Checkpoint.after (cs, db)).1 := by
  induction later generalizing db cs with
  | nil => exact h
  | cons c later ih => exact ih (h.after c)

/-- A change that does not bear on an item leaves what is read of it. -/
theorem read_left (h : db.Tells cs) {c : Change} {i : Item} (hc : c.concerns i = false) :
    i.read (c.access.left db) = .ok (i.answer cs) (c.access.left db) := by
  rcases h.access c with ⟨e, hfailed, -⟩ | ⟨db', hdone, htells, -⟩
  · simp only [Access.left, hfailed]
    exact h.read i
  · simp only [Access.left, hdone]
    rw [← i.answer_cons cs hc]
    exact htells.read i

end Database.Tells

/-! ### Histories -/

/-- A database that can be used, in whose ledger nothing stands under the keys of the progress. -/
structure Database.Unmarked (db : Database) : Prop where
  closed : db.committed = none
  tables : ∃ t, db.contents.tables = some t ∧ ∀ key, t.ledger.get? key ≠ none →
    (∀ s : Stage, key ≠ s.flagKey) ∧ key ≠ recordedKey ∧ key ≠ parsedKey

theorem Database.Unmarked.tells {db : Database} (h : db.Unmarked) : db.Tells [] := by
  obtain ⟨t, ht, hfree⟩ := h.tables
  refine ⟨h.closed, t, ht, ?_, ?_, ?_⟩
  · intro s
    by_contra hne
    exact (hfree _ hne).1 s rfl
  · have hnone : t.ledger.get? recordedKey = none := by
      by_contra hne
      exact (hfree _ hne).2.1 rfl
    rw [Ledger.value, hnone]
    rfl
  · by_contra hne
    exact (hfree _ hne).2.2 rfl

namespace Checkpoint

/-- After changes of the progress, each item reads as those that succeeded call for.  A change that
is not of an item leaves what is read of it, and a change succeeds where its key is not refused. -/
theorem answers_afterAll {db : Database} (h : db.Unmarked) (cs : List Change) :
    let r := afterAll db cs
    (∀ i : Item, i.read r.2 = .ok (i.answer r.1) r.2) ∧
      (∀ (c : Change) (i : Item), c.concerns i = false →
        i.read (c.access.left r.2) = .ok (i.answer r.1) (c.access.left r.2)) ∧
      ∀ c : Change, (∃ db', c.access r.2 = .ok () db') ↔
        ∀ key ∈ c.key?, key ∉ r.2.contents.rejected := by
  intro r
  have htells : r.2.Tells r.1 := h.tells.afterAll cs
  refine ⟨htells.read, ?_, ?_⟩
  · intro c i hc
    exact htells.read_left hc
  · intro c
    rcases htells.access c with ⟨e, hfailed, key, hown, hrefused⟩ | ⟨db', hdone, -, hfree⟩
    · constructor
      · rintro ⟨db', hdone⟩
        rw [hfailed] at hdone
        cases hdone
      · intro hfree
        exact absurd hrefused (hfree key hown)
    · exact ⟨fun _ => hfree, fun _ => ⟨db', hdone⟩⟩

/-- A file recorded before the reset, one refused after it, and the others. -/
theorem answers_afterAll_resumed :
    let cs : List Change := [.recordFile 1 "a.xml" [], .reset, .recordFile 12 "b.xml" [],
      .setStage .textAndMetadata true, .setLatestParsed (-3), .reject [recordedKey],
      .recordFile 2 "c.xml" [], .setStage .textAndMetadata false]
    let db := (afterAll .migrated cs).2
    Database.migrated.Unmarked ∧ fileRecorded 1 db = .ok false db ∧
      fileRecorded 2 db = .ok false db ∧ fileRecorded 12 db = .ok true db ∧
      stageDone .textAndMetadata db = .ok false db ∧ latestParsed db = .ok (-3) db := by
  intro cs db
  have hunmarked : Database.migrated.Unmarked := by
    refine ⟨rfl, _, rfl, ?_⟩
    intro key hkey
    exact absurd rfl hkey
  have hread := (answers_afterAll hunmarked cs).1
  exact ⟨hunmarked, hread (.file 1), hread (.file 2), hread (.file 12),
    hread (.flag .textAndMetadata), hread .parsed⟩

end Checkpoint

end XmlHarvest

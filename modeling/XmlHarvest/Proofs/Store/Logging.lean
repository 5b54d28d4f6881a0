/-
The ledger as the fold of its writes.

A value is written to the ledger alone or in the transaction that stores documents; at times
everything is cleared, and any of this may fail.  What stands under a key then depends on the
changes that succeeded (`Ledger.held`): the writes to the key since everything was cleared last are
made one over the other, in their order.  This is said of the changes, apart from the tables; what
one change makes of a database (`Ledger.Change.outcome`) ties the two together, step by step.
Whether a write succeeds does not depend on what was written before, so writes to other keys might
as well not have been tried (`Ledger.history_filter`).
Main statement: `Ledger.foldsWrites_afterAll`.
-/
import XmlHarvest.Proofs.Store.Entries
import XmlHarvest.Proofs.Text.ByteOrder

namespace XmlHarvest

/-- What stands under a key once the value is written over what stood there: the value, or with
`append` what stood there, if anything did, with the value behind it. -/
def LedgerWrite.appliedTo (stored : Option String) (w : LedgerWrite) : Option String :=
  match w.mode with
  | .replace | .update => some w.value
  | .append => some (stored.getD "" ++ w.value)

/-- It is what the mode makes of both, and a value that is missing counts as empty. -/
theorem LedgerWrite.appliedTo_eq_combine (stored : Option String) (w : LedgerWrite) :
    w.appliedTo stored = some (w.mode.combine (stored.getD "") w.value) := by
  rw [appliedTo]
  cases w.mode <;> rfl

namespace Ledger

/-! ### Changes -/

/-- What may be done to the ledger.  From outside it may change to which keys writes fail. -/
inductive Change
  | log (w : LedgerWrite)
  | saveLogged (source : String) (ds : List Document) (w : LedgerWrite)
  | reset
  | reject (keys : List String)

namespace Change

/-- The change as an access, without what it yields. -/
def access : Change → Access Unit
  | log w => Access.log w
  | saveLogged source ds w => do
    let _ ← Access.saveLogged source ds w
  | reset => Access.reset
  | reject keys => fun db => .ok () { db with contents.rejected := keys }

/-- The write to the ledger that is part of the change. -/
def write? : Change → Option LedgerWrite
  | log w | saveLogged _ _ w => some w
  | reset | reject _ => none

/-- Whether the change clears everything. -/
def isReset : Change → Bool
  | reset => true
  | _ => false

/-- Whether the change is no write to another key. -/
def concerns (key : String) (c : Change) : Bool := c.write?.all fun w => w.key == key

/-- Whether the change can be made: a write to a key that is not refused, and clearing where no
transaction was left open. -/
def Permitted (db : Database) : Change → Prop
  | log w | saveLogged _ _ w => w.key ∉ db.contents.rejected
  | reset => db.committed = none
  | reject _ => True

end Change

/-- Make a change after others, of which those that succeeded are kept, the latest first. -/
def after (before : List Change × Database) (c : Change) : List Change × Database :=
  match c.access before.2 with
  | .ok _ db => (c :: before.1, db)
  | .error _ db => (before.1, db)

/-- Make some changes, one after the other. -/
def afterAll (db : Database) (cs : List Change) : List Change × Database := cs.foldl after ([], db)

/-! ### What is to be read -/

/-- Of changes, the latest first, those after everything was cleared last. -/
def sinceReset (cs : List Change) : List Change := cs.takeWhile fun c => !c.isReset

/-- The writes to a key since everything was cleared last, in the order in which they were made. -/
def writesTo (key : String) (cs : List Change) : List LedgerWrite :=
  (((sinceReset cs).filterMap Change.write?).filter fun w => w.key == key).reverse

/-- What stands under a key of a ledger after changes, of which the latest comes first: the writes
to the key, made over what stood there at the start as long as nothing was cleared, and over nothing
otherwise. -/
def held (start : Option String) (key : String) (cs : List Change) : Option String :=
  (writesTo key cs).foldl LedgerWrite.appliedTo (if cs.any Change.isReset then none else start)

/-- What the change makes of what stands under a key. -/
def Change.entryAfter (key : String) (stored : Option String) : Change → Option String
  | log w | saveLogged _ _ w => if w.key = key then w.appliedTo stored else stored
  | reset => none
  | reject _ => stored

/-! ### One more change -/

section

variable {start : Option String} {key : String} {w : LedgerWrite} {c : Change} {cs : List Change}

theorem Change.of_write (h : c.write? = some w) :
    c = .log w ∨ ∃ source ds, c = .saveLogged source ds w := by
  cases c with
  | log w' => exact .inl (congrArg log (Option.some.inj h))
  | saveLogged source ds w' =>
    exact .inr ⟨source, ds, congrArg (saveLogged source ds) (Option.some.inj h)⟩
  | reset => cases h
  | reject keys => cases h

theorem Change.entryAfter_of_write (h : c.write? = some w) (key : String)
    (stored : Option String) :
    c.entryAfter key stored = if w.key = key then w.appliedTo stored else stored := by
  rcases of_write h with rfl | ⟨source, ds, rfl⟩ <;> rfl

theorem sinceReset_cons (h : c.isReset = false) : sinceReset (c :: cs) = c :: sinceReset cs := by
  rw [sinceReset, List.takeWhile_cons_of_pos (by rw [h]; rfl)]
  rfl

theorem Change.isReset_of_write (h : c.write? = some w) : c.isReset = false := by
  rcases of_write h with rfl | ⟨source, ds, rfl⟩ <;> rfl

theorem writesTo_cons_of_write (h : c.write? = some w) (key : String) (cs : List Change) :
    writesTo key (c :: cs) = if w.key = key then writesTo key cs ++ [w] else writesTo key cs := by
  rw [writesTo, sinceReset_cons (Change.isReset_of_write h), List.filterMap_cons_some h,
    List.filter_cons]
  by_cases hkey : w.key = key
  · rw [if_pos (beq_iff_eq.mpr hkey), if_pos hkey, List.reverse_cons]
    rfl
  · rw [if_neg (by rwa [beq_iff_eq]), if_neg hkey]
    rfl

/-- One more write is made over what the writes before it come to. -/
theorem held_cons_of_write (h : c.write? = some w) :
    held start key (c :: cs) = c.entryAfter key (held start key cs) := by
  rw [Change.entryAfter_of_write h, held, writesTo_cons_of_write h, List.any_cons,
    Change.isReset_of_write h, Bool.false_or]
  by_cases hkey : w.key = key
  · rw [if_pos hkey, if_pos hkey, List.foldl_append]
    rfl
  · rw [if_neg hkey, if_neg hkey]
    rfl

theorem held_cons (start : Option String) (key : String) (c : Change) (cs : List Change) :
    held start key (c :: cs) = c.entryAfter key (held start key cs) := by
  cases c with
  | log w => exact held_cons_of_write rfl
  | saveLogged source ds w => exact held_cons_of_write rfl
  | reset => rfl
  | reject keys => rfl

/-- Writes to other keys do not count. -/
theorem held_filter (start : Option String) (key : String) (cs : List Change) :
    held start key (cs.filter (·.concerns key)) = held start key cs := by
  induction cs with
  | nil => rfl
  | cons c cs ih =>
    by_cases hc : c.concerns key = true
    · rw [List.filter_cons_of_pos hc, held_cons, held_cons, ih]
    · rw [List.filter_cons_of_neg hc, held_cons, ih]
      cases c with
      | log w => exact (if_neg fun hkey => hc (beq_iff_eq.mpr hkey)).symm
      | saveLogged source ds w => exact (if_neg fun hkey => hc (beq_iff_eq.mpr hkey)).symm
      | reset => exact absurd rfl hc
      | reject keys => exact absurd rfl hc

/-- Something stands under a key if it was written since everything was cleared last, or if it stood
there at the start and nothing was cleared. -/
theorem isSome_held_iff : (held start key cs).isSome ↔
    writesTo key cs ≠ [] ∨ cs.any Change.isReset = false ∧ start.isSome := by
  rw [held]
  rcases List.eq_nil_or_concat (writesTo key cs) with hnone | ⟨ws, w, hws⟩
  · rw [hnone]
    cases cs.any Change.isReset <;> simp
  · -- The last write leaves something, whatever stood there before.
    rw [hws, List.concat_eq_append, List.foldl_append]
    simp [LedgerWrite.appliedTo_eq_combine]

end

/-! ### One change of a database -/

variable {db db' : Database}

/-- The keys that are refused after a change. -/
def Change.rejectedAfter (keys : List String) : Change → List String
  | reject keys' => keys'
  | log _ | saveLogged .. | reset => keys

/-- What a change makes of a database when it succeeds. -/
structure Change.Makes (c : Change) (db db' : Database) : Prop where
  tables : db'.contents.tables.isSome
  entries : ∀ key, db'.logged? key = c.entryAfter key (db.logged? key)
  rejected : db'.contents.rejected = c.rejectedAfter db.contents.rejected
  committed : db'.committed = db.committed

namespace Change

/-- A change either fails and leaves the database as it is, or succeeds and makes what it is to
make. -/
inductive Outcome (c : Change) (db : Database) : Prop
  | failed (e : StoreError) (refused : ¬ c.Permitted db) (fails : c.access db = .error e db)
  | made (db' : Database) (permitted : c.Permitted db) (done : c.access db = .ok () db')
    (makes : c.Makes db db')

/-- A write, whatever is done to the documents before it: they do not bear on the ledger. -/
theorem outcome_of_write {c : Change} {w : LedgerWrite} {e : StoreError} {t u : Tables}
    (hw : c.write? = some w) (ht : db.contents.tables = some t) (hu : u.ledger = t.ledger)
    (haccess : c.access db = if db.contents.rejects w then .error e db
      else .ok () { db with contents.tables := some (u.log w) }) : c.Outcome db := by
  have hpermitted : c.Permitted db ↔ w.key ∉ db.contents.rejected := by
    rcases of_write hw with rfl | ⟨source, ds, rfl⟩ <;> exact Iff.rfl
  have hrejected : c.rejectedAfter db.contents.rejected = db.contents.rejected := by
    rcases of_write hw with rfl | ⟨source, ds, rfl⟩ <;> rfl
  by_cases hkey : w.key ∈ db.contents.rejected
  · rw [if_pos (Contents.rejects_iff.mpr hkey)] at haccess
    exact .failed e (fun h => hpermitted.mp h hkey) haccess
  · rw [if_neg fun hrefused => hkey (Contents.rejects_iff.mp hrefused)] at haccess
    refine .made _ (hpermitted.mpr hkey) haccess ⟨rfl, ?_, hrejected.symm, rfl⟩
    intro key
    show (Ledger.write u.ledger w).get? key = _
    rw [hu, Ledger.get?_write, entryAfter_of_write hw, LedgerWrite.appliedTo_eq_combine,
      Database.logged?_eq ht]
    by_cases hsame : w.key = key
    · rw [if_pos hsame, if_pos hsame.symm, hsame]
      rfl
    · rw [if_neg hsame, if_neg fun h => hsame h.symm]

/-- What a change can do where there are tables. -/
theorem outcome (h : db.contents.tables.isSome) (c : Change) : c.Outcome db := by
  obtain ⟨t, ht⟩ := Option.isSome_iff_exists.mp h
  cases c with
  | log w => exact outcome_of_write rfl ht rfl (Access.log_eq ht w)
  | saveLogged source ds w =>
    have haccess : (saveLogged source ds w).access db =
        if db.contents.rejects w then .error (.writing w.mode w.key) db
        else .ok () { db with contents.tables := some ((t.add source ds).log w) } := by
      simp only [access, bind, EStateM.bind, Access.saveLogged_eq ht]
      cases db.contents.rejects w <;> rfl
    have hledger : (t.add source ds).ledger = t.ledger := rfl
    exact outcome_of_write rfl ht hledger haccess
  | reset =>
    cases hc : db.committed with
    | none =>
      refine .made { db with contents.tables := some .empty } hc ?_ ⟨rfl, fun _ => rfl, rfl, rfl⟩
      simp only [access, Access.reset, hc, ht, Option.isSome_none, Bool.false_eq_true, if_false]
    | some c =>
      refine .failed .resetting (by simp [Permitted, hc]) ?_
      simp only [access, Access.reset, hc, Option.isSome_some, if_true]
  | reject keys => exact .made _ trivial rfl ⟨h, fun _ => rfl, rfl, rfl⟩

/-- Changes are permitted alike where the same keys are refused and the same transaction is open. -/
theorem Permitted.congr {c : Change} (hrejected : db'.contents.rejected = db.contents.rejected)
    (hcommitted : db'.committed = db.committed) : c.Permitted db' ↔ c.Permitted db := by
  cases c <;> simp only [Permitted, hrejected, hcommitted]

end Change

/-! ### Changes one after the other -/

/-- There are tables, and the entries of the ledger are those that the changes call for. -/
structure Folds (start : String → Option String) (r : List Change × Database) : Prop where
  tables : r.2.contents.tables.isSome
  entries : ∀ key, r.2.logged? key = held (start key) key r.1

section

variable {start : String → Option String} {r r' : List Change × Database}

theorem after_eq_of_error {c : Change} {e : StoreError} (h : c.access r.2 = .error e r.2) :
    after r c = r := by
  rw [after, h]

theorem after_eq_of_ok {c : Change} (h : c.access r.2 = .ok () db') :
    after r c = (c :: r.1, db') := by
  rw [after, h]

theorem Folds.after (h : Folds start r) (c : Change) : Folds start (after r c) := by
  cases c.outcome h.tables with
  | failed e _ hfailed =>
    rw [after_eq_of_error hfailed]
    exact h
  | made db' _ hdone hmakes =>
    rw [after_eq_of_ok hdone]
    refine ⟨hmakes.tables, ?_⟩
    intro key
    rw [hmakes.entries, h.entries, held_cons]

theorem Folds.afterAll (h : Folds start r) (cs : List Change) :
    Folds start (cs.foldl Ledger.after r) := by
  induction cs generalizing r with
  | nil => exact h
  | cons c cs ih => exact ih (h.after c)

/-! ### Writes to other keys left out -/

/-- The same changes succeeded, but for writes to other keys, and the same can be made. -/
structure Beside (key : String) (r r' : List Change × Database) : Prop where
  tables : r.2.contents.tables.isSome
  tables' : r'.2.contents.tables.isSome
  history : r'.1 = r.1.filter (·.concerns key)
  rejected : r'.2.contents.rejected = r.2.contents.rejected
  committed : r'.2.committed = r.2.committed

variable {key : String}

/-- A change that is no write to another key does the same on both sides. -/
theorem Beside.after (h : Beside key r r') {c : Change} (hc : c.concerns key = true) :
    Beside key (after r c) (after r' c) := by
  -- So the change succeeds on both sides or on neither.
  have hsame : c.Permitted r'.2 ↔ c.Permitted r.2 := Change.Permitted.congr h.rejected h.committed
  cases c.outcome h.tables with
  | failed e hrefused hfailed =>
    cases c.outcome h.tables' with
    | failed e' _ hfailed' =>
      rw [after_eq_of_error hfailed, after_eq_of_error hfailed']
      exact h
    | made _ hpermitted' => exact absurd (hsame.mp hpermitted') hrefused
  | made db hpermitted hdone hmakes =>
    cases c.outcome h.tables' with
    | failed e' hrefused' => exact absurd (hsame.mpr hpermitted) hrefused'
    | made db' _ hdone' hmakes' =>
      rw [after_eq_of_ok hdone, after_eq_of_ok hdone']
      refine ⟨hmakes.tables, hmakes'.tables, ?_, ?_, ?_⟩
      · rw [List.filter_cons_of_pos hc, h.history]
      · rw [hmakes'.rejected, hmakes.rejected, h.rejected]
      · rw [hmakes'.committed, hmakes.committed, h.committed]

/-- A write to another key may be made on one side only, for it does not change what else can be
made. -/
theorem Beside.after_left (h : Beside key r r') {c : Change} (hc : ¬ c.concerns key = true) :
    Beside key (Ledger.after r c) r' := by
  cases c.outcome h.tables with
  | failed e _ hfailed =>
    rw [after_eq_of_error hfailed]
    exact h
  | made db _ hdone hmakes =>
    have hrejected : c.rejectedAfter r.2.contents.rejected = r.2.contents.rejected := by
      cases c with
      | reject keys => exact absurd rfl hc
      | _ => rfl
    rw [after_eq_of_ok hdone]
    refine ⟨hmakes.tables, h.tables', ?_, ?_, ?_⟩
    · rw [List.filter_cons_of_neg hc, h.history]
    · rw [hmakes.rejected, hrejected, h.rejected]
    · rw [hmakes.committed, h.committed]

theorem Beside.afterAll (h : Beside key r r') (cs : List Change) :
    Beside key (cs.foldl Ledger.after r) ((cs.filter (·.concerns key)).foldl Ledger.after r') := by
  induction cs generalizing r r' with
  | nil => exact h
  | cons c cs ih =>
    by_cases hc : c.concerns key = true
    · rw [List.filter_cons_of_pos hc]
      exact ih (h.after hc)
    · rw [List.filter_cons_of_neg hc]
      exact ih (h.after_left hc)

/-- Where writes to other keys are not tried, the other changes succeed as they do with them. -/
theorem history_filter (h : db.contents.tables.isSome) (key : String) (cs : List Change) :
    (afterAll db (cs.filter (·.concerns key))).1 =
      (afterAll db cs).1.filter (·.concerns key) := by
  have hbeside : Beside key (([] : List Change), db) ([], db) := ⟨h, h, rfl, rfl, rfl⟩
  exact (hbeside.afterAll cs).history

end

/-! ### What is read -/

namespace Folds

variable {start : String → Option String} {r : List Change × Database}

theorem ledgerValue (h : Folds start r) (key : String) :
    Access.ledgerValue key r.2 = .ok ((held (start key) key r.1).getD "") r.2 := by
  obtain ⟨t, ht⟩ := Option.isSome_iff_exists.mp h.tables
  rw [Database.ledgerValue_eq ht, h.entries]

/-- The listing of the ledger has a pair for each key under which something stands, in the order of
the bytes of the keys. -/
theorem ledgerEntries (h : Folds start r) : ∃ es, Access.ledgerEntries r.2 = .ok es r.2 ∧
    es.Pairwise (fun a b => Text.bytes a.1 < Text.bytes b.1) ∧
    ∀ key value, (key, value) ∈ es ↔ held (start key) key r.1 = some value := by
  obtain ⟨t, ht⟩ := Option.isSome_iff_exists.mp h.tables
  refine ⟨t.ledger.entries, by simp only [Access.ledgerEntries, Access.look, ht], ?_, ?_⟩
  · exact t.ledger.sorted.imp Text.bytes_lt_bytes_iff.mpr
  · intro key value
    rw [Keyed.mem_entries_iff, ← Database.logged?_eq ht, h.entries]

end Folds

/-- After changes of a database with tables, whichever of them failed, what is read under a key is
the fold of the writes to it that succeeded since everything was cleared last, and empty if there
were none; what the ledger held at the start counts until everything is cleared.  The same is read
where the writes to other keys are not tried.  The listing has just the keys that were written,
each of them once, in strictly increasing order of their bytes, with these values.  A further write
succeeds unless its key is refused, and clearing unless a transaction was left open. -/
theorem foldsWrites_afterAll {db : Database} (h : db.contents.tables.isSome) (cs : List Change) :
    let r := afterAll db cs
    let value := fun key => held (db.logged? key) key r.1
    (∀ key, Access.ledgerValue key r.2 = .ok ((value key).getD "") r.2) ∧
      (∀ key, let r' := afterAll db (cs.filter (·.concerns key))
        Access.ledgerValue key r'.2 = .ok ((value key).getD "") r'.2) ∧
      (∃ es, Access.ledgerEntries r.2 = .ok es r.2 ∧
        es.Pairwise (fun a b => Text.bytes a.1 < Text.bytes b.1) ∧
        (∀ key text, (key, text) ∈ es ↔ value key = some text) ∧
        ∀ key, key ∈ es.map Prod.fst ↔ writesTo key r.1 ≠ [] ∨
          r.1.any Change.isReset = false ∧ (db.logged? key).isSome) ∧
      ∀ c : Change, (∃ db', c.access r.2 = .ok () db') ↔ c.Permitted r.2 := by
  intro r value
  have hstart : Folds db.logged? (([] : List Change), db) := ⟨h, fun _ => rfl⟩
  have hfolds : ∀ cs, Folds db.logged? (afterAll db cs) := fun cs => hstart.afterAll cs
  obtain ⟨es, hes, hsorted, hmem⟩ := (hfolds cs).ledgerEntries
  refine ⟨(hfolds cs).ledgerValue, ?_, ⟨es, hes, hsorted, hmem, ?_⟩, ?_⟩
  · intro key r'
    have hvalue := (hfolds (cs.filter (·.concerns key))).ledgerValue key
    rwa [history_filter h, held_filter] at hvalue
  · intro key
    rw [← isSome_held_iff, Option.isSome_iff_exists, List.mem_map]
    constructor
    · rintro ⟨e, he, rfl⟩
      exact ⟨e.2, (hmem e.1 e.2).mp he⟩
    · rintro ⟨text, htext⟩
      exact ⟨(key, text), (hmem key text).mpr htext, rfl⟩
  · intro c
    cases c.outcome (hfolds cs).tables with
    | failed e hrefused hfailed =>
      refine iff_of_false ?_ hrefused
      rintro ⟨db', hdone⟩
      rw [hfailed] at hdone
      cases hdone
    | made db' hpermitted hdone => exact iff_of_true ⟨db', hdone⟩ hpermitted

/-- Marks from before the database was cleared, one that was rolled back with its document, and an
empty value that is not a missing one. -/
theorem foldsWrites_afterAll_refused :
    let d : Document := ⟨"d", ⟨"d", [], [], [⟨"x", []⟩]⟩⟩
    let cs : List Change := [.log ⟨"é", "[0]", .append⟩, .log ⟨"gone", "x", .replace⟩, .reset,
      .log ⟨"é", "[1]", .append⟩, .saveLogged "a.xml" [d] ⟨"z", "", .update⟩, .reject ["é"],
      .saveLogged "b.xml" [d] ⟨"é", "[2]", .append⟩, .reject [],
      .saveLogged "b.xml" [d] ⟨"é", "[3]", .append⟩]
    let r := afterAll .migrated cs
    Database.migrated.contents.tables.isSome ∧
      writesTo "é" r.1 = [⟨"é", "[1]", .append⟩, ⟨"é", "[3]", .append⟩] ∧
      Access.ledgerValue "é" r.2 = .ok "[1][3]" r.2 ∧ Access.ledgerValue "z" r.2 = .ok "" r.2 ∧
      Access.ledgerValue "gone" r.2 = .ok "" r.2 ∧
      ∃ es, Access.ledgerEntries r.2 = .ok es r.2 ∧ ("é", "[1][3]") ∈ es ∧ ("z", "") ∈ es ∧
        "gone" ∉ es.map Prod.fst := by
  intro d cs r
  have htables : Database.migrated.contents.tables.isSome := rfl
  have hmarks : writesTo "é" r.1 = [⟨"é", "[1]", .append⟩, ⟨"é", "[3]", .append⟩] := by
    decide +kernel
  have hempty : writesTo "z" r.1 = [⟨"z", "", .update⟩] := by decide +kernel
  have hgone : writesTo "gone" r.1 = [] := by decide +kernel
  have hcleared : r.1.any Change.isReset = true := by decide +kernel
  have hjoined : held none "é" r.1 = some "[1][3]" := by
    rw [held, hmarks, hcleared]
    decide
  have hblank : held none "z" r.1 = some "" := by
    rw [held, hempty, hcleared]
    decide
  have hnone : held none "gone" r.1 = none := by
    rw [held, hgone, hcleared]
    decide
  obtain ⟨hvalue, -, ⟨es, hes, -, hmem, hkeys⟩, -⟩ := foldsWrites_afterAll htables cs
  have hread : ∀ key stored, held none key r.1 = stored →
      Access.ledgerValue key r.2 = .ok (stored.getD "") r.2 := by
    rintro key _ rfl
    exact hvalue key
  refine ⟨htables, hmarks, hread _ _ hjoined, hread _ _ hblank, hread _ _ hnone, es, hes,
    (hmem _ _).mpr hjoined, (hmem _ _).mpr hblank, ?_⟩
  rw [hkeys, hgone, hcleared]
  decide

end Ledger

end XmlHarvest

/-
What becomes of stored documents.

Whatever operations a database has gone through, its rows have distinct ids, none of which is above
the last id that was given (`Database.Numbered`), and until everything is cleared a row stays as it
is.  So a document that was stored is found under its id, and whether it can be read back depends on
its text alone.
-/
import XmlHarvest.Proofs.Harvest.Nesting
import XmlHarvest.Proofs.Pipeline.Ends
import XmlHarvest.Proofs.Store.Storing
import Mathlib.Logic.Relation

namespace XmlHarvest

open Relation

variable {α σ : Type}

/-! ### Rows -/

namespace Tables

/-- The ids increase from row to row up to the last one that was given. -/
structure Numbered (t : Tables) : Prop where
  increasing : t.ids.Pairwise (· < ·)
  given : ∀ id ∈ t.ids, id ≤ t.lastId

theorem Numbered.empty : Tables.empty.Numbered := ⟨.nil, fun _ h => nomatch h⟩

theorem ids_add (t : Tables) (source : String) (ds : List Document) :
    (t.add source ds).ids = t.ids ++ List.range' (t.lastId + 1) ds.length := by
  rw [ids, add, List.map_append, nextIds, zipWith_range', List.map_map,
    ← List.zipIdx_map_snd (t.lastId + 1) ds]
  rfl

/-- Documents that are stored get ids above all others. -/
theorem Numbered.add {t : Tables} (h : t.Numbered) (source : String) (ds : List Document) :
    (t.add source ds).Numbered := by
  refine ⟨?_, ?_⟩
  · rw [ids_add, List.pairwise_append]
    refine ⟨h.increasing, List.pairwise_lt_range', ?_⟩
    intro i hi j hj
    have := h.given i hi
    have := (List.mem_range'_1.mp hj).1
    omega
  · intro i hi
    show i ≤ t.lastId + ds.length
    rw [ids_add, List.mem_append] at hi
    rcases hi with hi | hi
    · have := h.given i hi
      omega
    · have := (List.mem_range'_1.mp hi).2
      omega

theorem Numbered.log {t : Tables} (h : t.Numbered) (w : LedgerWrite) : (t.log w).Numbered :=
  ⟨h.increasing, h.given⟩

/-- A row is found under its id. -/
theorem Numbered.row?_of_mem {t : Tables} (h : t.Numbered) {r : Row} (hr : r ∈ t.rows) :
    t.row? (r.id : Int) = some r := by
  obtain ⟨before, after, hrows⟩ := List.append_of_mem hr
  have hincreasing := h.increasing
  rw [ids, hrows, List.map_append, List.map_cons, List.pairwise_append] at hincreasing
  rw [row?, hrows, List.find?_append, List.find?_eq_none.mpr, Option.none_or,
    List.find?_cons_of_pos (by simp)]
  -- The rows before it have smaller ids.
  intro s hs
  have hlt := hincreasing.2.2 s.id (List.mem_map_of_mem hs) r.id (by simp)
  simp only [beq_iff_eq, Int.natCast_inj]
  omega

end Tables

/-! ### Operations -/

namespace Database

/-- One operation that removes nothing, from the library or from outside. -/
inductive Grows : Database → Database → Prop
  | migrate (db : Database) : Grows db (Access.migrate.left db)
  | save (db : Database) (source : String) (ds : List Document) :
      Grows db ((Access.save source ds).left db)
  | saveLogged (db : Database) (source : String) (ds : List Document) (w : LedgerWrite) :
      Grows db ((Access.saveLogged source ds w).left db)
  | log (db : Database) (w : LedgerWrite) : Grows db ((Access.log w).left db)
  | reject (db : Database) (keys : List String) : Grows db { db with contents.rejected := keys }
  | reopen (db : Database) : Grows db db.reopen

/-- A database that operations have brought about. -/
inductive Reached : Database → Prop
  | fresh : Reached .fresh
  | grows {db db' : Database} (h : Reached db) (op : Grows db db') : Reached db'
  | reset {db : Database} (h : Reached db) : Reached (Access.reset.left db)

/-- The rows are numbered, and as long as a transaction is left open there are no tables. -/
structure Numbered (db : Database) : Prop where
  tables : ∀ t, db.contents.tables = some t → t.Numbered
  opened : ∀ c, db.committed = some c → db.contents.tables = none ∧ c.tables = none

/-- The rows of the one database are the first rows of the other. -/
def KeepsRows (db db' : Database) : Prop :=
  ∀ t, db.contents.tables = some t → ∃ t', db'.contents.tables = some t' ∧ t.rows <+: t'.rows

variable {db db' : Database}

theorem KeepsRows.refl (db : Database) : db.KeepsRows db :=
  fun t ht => ⟨t, ht, List.prefix_refl t.rows⟩

/-- A change of the tables that keeps their rows and their numbers does so in the database. -/
theorem Numbered.alter (h : db.Numbered) {error : StoreError}
    {change : Contents → Tables → Except StoreError (α × Tables)}
    (hchange : ∀ c t a t', change c t = .ok (a, t') → t.Numbered →
      t'.Numbered ∧ t.rows <+: t'.rows) :
    ((Access.alter error change).left db).Numbered ∧
      db.KeepsRows ((Access.alter error change).left db) := by
  rcases Access.left_alter error change db with hleft | ⟨t, a, t', ht, hdone, hleft⟩
  · rw [hleft]
    exact ⟨h, .refl db⟩
  · obtain ⟨hnumbered, hrows⟩ := hchange _ _ _ _ hdone (h.tables t ht)
    rw [hleft]
    refine ⟨⟨?_, ?_⟩, ?_⟩
    · intro t'' ht''
      obtain rfl : t' = t'' := Option.some.inj ht''
      exact hnumbered
    · -- No transaction is open, as there are tables.
      intro c hc
      cases ht.symm.trans (h.opened c hc).1
    · intro t'' ht''
      obtain rfl : t = t'' := Option.some.inj (ht.symm.trans ht'')
      exact ⟨t', rfl, hrows⟩

/-- A migration leaves the tables, or creates them where there are none. -/
theorem Numbered.migrate (h : db.Numbered) :
    (Access.migrate.left db).Numbered ∧ db.KeepsRows (Access.migrate.left db) := by
  rcases Access.left_migrate db with hleft | ⟨hclosed, hleft⟩
  · rw [hleft]
    exact ⟨⟨h.tables, h.opened⟩, .refl db⟩
  · rw [hleft]
    refine ⟨⟨?_, ?_⟩, ?_⟩
    · intro t ht
      obtain rfl : db.contents.tables.getD .empty = t := Option.some.inj ht
      cases htables : db.contents.tables with
      | none => exact .empty
      | some t => exact h.tables t htables
    · intro c hc
      cases hclosed.symm.trans hc
    · intro t ht
      refine ⟨db.contents.tables.getD .empty, rfl, ?_⟩
      rw [ht]
      exact List.prefix_refl t.rows

theorem Numbered.reopen (h : db.Numbered) : db.reopen.Numbered ∧ db.KeepsRows db.reopen := by
  unfold Database.reopen
  cases hc : db.committed with
  | none => exact ⟨⟨h.tables, fun _ h => nomatch h⟩, .refl db⟩
  | some c =>
    -- The transaction that is lost was begun where there were no tables.
    obtain ⟨hnone, hnone'⟩ := h.opened c hc
    refine ⟨⟨?_, fun _ h => nomatch h⟩, ?_⟩
    · intro t ht
      cases hnone'.symm.trans ht
    · intro t ht
      cases hnone.symm.trans ht

theorem Numbered.reset (h : db.Numbered) : (Access.reset.left db).Numbered := by
  rcases Access.left_reset db with ⟨-, hleft⟩ | ⟨-, ht, hleft⟩ | ⟨hclosed, -, hleft⟩
  · rwa [hleft]
  · -- Without tables the transaction fails in the middle and stays open.
    rw [hleft]
    refine ⟨h.tables, fun c hc => ?_⟩
    obtain rfl : db.contents = c := Option.some.inj hc
    exact ⟨ht, ht⟩
  · rw [hleft]
    refine ⟨fun t ht => ?_, fun c hc => ?_⟩
    · obtain rfl : Tables.empty = t := Option.some.inj ht
      exact .empty
    · cases hclosed.symm.trans hc

theorem Numbered.store (h : db.Numbered) (source : String) (ds : List Document)
    (entry : Option LedgerWrite) : ((Access.store source ds entry).left db).Numbered ∧
      db.KeepsRows ((Access.store source ds entry).left db) := by
  rw [Access.store_eq_alter]
  refine h.alter ?_
  rintro c t ids t' hdone ht
  cases entry with
  | none =>
    obtain ⟨-, rfl⟩ : _ ∧ t.add source ds = t' := by simpa using hdone
    exact ⟨ht.add source ds, List.prefix_append _ _⟩
  | some w =>
    simp only at hdone
    split at hdone
    · cases hdone
    · obtain ⟨-, rfl⟩ : _ ∧ (t.add source ds).log w = t' := by simpa using hdone
      exact ⟨(ht.add source ds).log w, List.prefix_append _ _⟩

theorem Numbered.save (h : db.Numbered) (source : String) (ds : List Document) :
    ((Access.save source ds).left db).Numbered ∧ db.KeepsRows ((Access.save source ds).left db) :=
  h.store source ds none

theorem Numbered.saveLogged (h : db.Numbered) (source : String) (ds : List Document)
    (w : LedgerWrite) : ((Access.saveLogged source ds w).left db).Numbered ∧
      db.KeepsRows ((Access.saveLogged source ds w).left db) :=
  h.store source ds (some w)

theorem Numbered.log (h : db.Numbered) (w : LedgerWrite) :
    ((Access.log w).left db).Numbered ∧ db.KeepsRows ((Access.log w).left db) := by
  refine h.alter ?_
  rintro c t ⟨⟩ t' hdone ht
  split at hdone
  · cases hdone
  · obtain rfl : t.log w = t' := by simpa using hdone
    exact ⟨ht.log w, List.prefix_refl _⟩

theorem Numbered.grows (h : db.Numbered) (op : Grows db db') :
    db'.Numbered ∧ db.KeepsRows db' := by
  cases op with
  | migrate => exact h.migrate
  | save source ds => exact h.save source ds
  | saveLogged source ds w => exact h.saveLogged source ds w
  | log w => exact h.log w
  | reject keys => exact ⟨⟨h.tables, h.opened⟩, .refl db⟩
  | reopen => exact h.reopen

theorem Reached.numbered (h : Reached db) : db.Numbered := by
  induction h with
  | fresh => exact ⟨fun _ ht => (nomatch ht), fun _ hc => (nomatch hc)⟩
  | grows _ op ih => exact (ih.grows op).1
  | reset _ ih => exact ih.reset

theorem Numbered.grows_all (h : db.Numbered) (ops : ReflTransGen Grows db db') :
    db'.Numbered ∧ db.KeepsRows db' := by
  induction ops with
  | refl => exact ⟨h, .refl db⟩
  | tail _ op ih =>
    obtain ⟨hnumbered, hkept⟩ := ih
    obtain ⟨hnumbered', hkept'⟩ := hnumbered.grows op
    refine ⟨hnumbered', ?_⟩
    intro t ht
    obtain ⟨t', ht', hrows⟩ := hkept t ht
    obtain ⟨t'', ht'', hrows'⟩ := hkept' t' ht'
    exact ⟨t'', ht'', hrows.trans hrows'⟩

/-! ### Reading documents back -/

/-- The document is read back as it was stored. -/
def ReadsBack (db : Database) (id : Nat) (source : String) (d : Document) : Prop :=
  ∃ s, Access.document? id db = .ok (some s) db ∧ s.id = id ∧ s.source = source ∧
    s.title = d.title ∧ s.body.values = d.body

theorem Numbered.document? (h : db.Numbered) {t : Tables} (ht : db.contents.tables = some t)
    {source : String} {id : Nat} {d : Document} (hr : Row.ofDocument source id d ∈ t.rows) :
    Access.document? id db =
      match (Row.ofDocument source id d).document? with
      | some s => .ok (some s) db
      | none => .error (.corrupt id) db := by
  have hrow : t.row? (id : Int) = some (Row.ofDocument source id d) := (h.tables t ht).row?_of_mem hr
  simp only [Access.document?, Access.look, ht, hrow]
  cases (Row.ofDocument source id d).document? <;> rfl

/-- The document is read back, or its arrays and objects nest deeper than they may. -/
theorem Numbered.document?_cases (h : db.Numbered) {t : Tables}
    (ht : db.contents.tables = some t) {source : String} {id : Nat} {d : Document}
    (hr : Row.ofDocument source id d ∈ t.rows) :
    (Json.maxDepth < d.body.toJson.depth ∧
      Access.document? id db = .error (.corrupt id) db) ∨
    Access.document? id db = .ok (some ⟨id, source, d.title, (d.body.apart 0).share, none⟩) db := by
  have hrow : (Row.ofDocument source id d).document? =
      (if d.body.toJson.depth ≤ Json.maxDepth then some d else none).map fun d =>
        ⟨id, source, d.title, (d.body.apart 0).share, none⟩ := by
    rw [← Document.read?_write]
    rfl
  rw [h.document? ht hr, hrow]
  by_cases hdepth : d.body.toJson.depth ≤ Json.maxDepth
  · rw [if_pos hdepth]
    exact .inr rfl
  · rw [if_neg hdepth]
    exact .inl ⟨by omega, rfl⟩

/-- A document whose text can be read is read back. -/
theorem Numbered.readsBack (h : db.Numbered) {t : Tables} (ht : db.contents.tables = some t)
    {source : String} {id : Nat} {d : Document} (hr : Row.ofDocument source id d ∈ t.rows)
    (hread : Document.read? d.write = some d) : db.ReadsBack id source d := by
  have hrow : (Row.ofDocument source id d).document? =
      some ⟨id, source, d.title, (d.body.apart 0).share, none⟩ := by
    show (Document.read? d.write).map _ = _
    rw [hread]
    rfl
  refine ⟨⟨id, source, d.title, (d.body.apart 0).share, none⟩, ?_, rfl, rfl, rfl,
    d.body.values_share_apart⟩
  rw [h.document? ht hr, hrow]

/-- Where documents were stored, with a write to the ledger or without one, the rows behind the
others are theirs. -/
theorem rows_of_saved {db db' : Database} {source : String} {ds : List Document} {ids : List Nat}
    (hsave : Access.save source ds db = .ok ids db' ∨
      ∃ w, Access.saveLogged source ds w db = .ok ids db') :
    ids.length = ds.length ∧ ∃ t', db'.contents.tables = some t' ∧
      ∀ (j : Nat) id d, ids[j]? = some id → ds[j]? = some d →
        Row.ofDocument source id d ∈ t'.rows := by
  obtain ⟨t, hids, t', ht', hrows⟩ : ∃ t : Tables, t.nextIds ds.length = ids ∧
      ∃ t' : Tables, db'.contents.tables = some t' ∧ t'.rows = (t.add source ds).rows := by
    rcases hsave with hsave | ⟨w, hsave⟩
    · rw [Access.save_eq_alter] at hsave
      obtain ⟨t, t', -, hdone, rfl⟩ := Access.alter_eq_ok hsave
      obtain ⟨hids, rfl⟩ : t.nextIds ds.length = ids ∧ t.add source ds = t' := by
        simpa using hdone
      exact ⟨t, hids, t.add source ds, rfl, rfl⟩
    · rw [Access.saveLogged_eq_alter] at hsave
      obtain ⟨t, t', -, hdone, rfl⟩ := Access.alter_eq_ok hsave
      split at hdone
      · cases hdone
      · obtain ⟨hids, rfl⟩ : t.nextIds ds.length = ids ∧ (t.add source ds).log w = t' := by
          simpa using hdone
        exact ⟨t, hids, (t.add source ds).log w, rfl, rfl⟩
  -- Ids and documents are paired in their order.
  subst hids
  refine ⟨by simp [Tables.nextIds], t', ht', ?_⟩
  intro j id d hid hd
  rw [hrows, Tables.add]
  refine List.mem_append_right _ (List.mem_of_getElem? (i := j) ?_)
  rw [List.getElem?_zipWith, hid, hd]

/-- The rows of documents that were stored stay, whatever is done later short of clearing. -/
theorem rows_of_saved_later {db db' db'' : Database} {source : String} {ds : List Document}
    {ids : List Nat} (hdb : db.Reached)
    (hsave : Access.save source ds db = .ok ids db' ∨
      ∃ w, Access.saveLogged source ds w db = .ok ids db')
    (hlater : ReflTransGen Grows db' db'') :
    ids.length = ds.length ∧ db''.Numbered ∧ ∃ t, db''.contents.tables = some t ∧
      ∀ (j : Nat) id d, ids[j]? = some id → ds[j]? = some d →
        Row.ofDocument source id d ∈ t.rows := by
  have hnumbered : db'.Numbered := by
    rcases hsave with hsave | ⟨w, hsave⟩
    · have h := (hdb.numbered.save source ds).1
      rwa [Access.left, hsave] at h
    · have h := (hdb.numbered.saveLogged source ds w).1
      rwa [Access.left, hsave] at h
  obtain ⟨hlength, t', ht', hrows⟩ := rows_of_saved hsave
  obtain ⟨hnumbered', hkept⟩ := hnumbered.grows_all hlater
  obtain ⟨t, ht, hbegins⟩ := hkept t' ht'
  exact ⟨hlength, hnumbered', t, ht, fun j id d hid hd => hbegins.subset (hrows j id d hid hd)⟩

end Database

/-! ### Parsing stored documents -/

namespace Pipeline

/-- The error is not that a document cannot be read. -/
def Readable (e : RunError) : Prop := ∀ id, e ≠ .store (.corrupt id)

theorem ends_parseWithin {parser : Parser σ} {d : StoredDocument} (retries : Nat) {r : Run σ} :
    Step.Ends (parseWithin parser d retries) r (fun _ _ => True) fun e _ => Readable e := by
  induction retries generalizing r with
  | zero =>
    unfold parseWithin
    rw [Step.ends_bind, Step.ends_callParser]
    cases (parser d r.parser).1 with
    | ok _ => trivial
    | error reason => exact fun id h => nomatch h
  | succ retries ih =>
    unfold parseWithin
    rw [Step.ends_bind, Step.ends_callParser]
    cases (parser d r.parser).1 with
    | ok _ => trivial
    | error reason => exact ih

theorem ends_setLatestParsed (id : Nat) (r : Run σ) :
    Step.Ends (commit (Checkpoint.setLatestParsed id)) r (fun _ _ => True) fun e _ => Readable e := by
  unfold Step.Ends commit Checkpoint.setLatestParsed Access.log Access.alter
  by_cases hcut : r.writesLeft = some 0
  · rw [if_pos hcut]
    exact fun id h => nomatch h
  · rw [if_neg hcut]
    cases r.database.contents.tables with
    | none => exact fun id h => nomatch h
    | some t =>
      by_cases hreject : r.database.contents.rejects
          ⟨Checkpoint.parsedKey, toString (id : Int), .update⟩ = true
      · simp only [if_pos hreject]
        exact fun id h => nomatch h
      · simp only [if_neg hreject]

/-- Parsing a stored document that can be read does not stop at its text. -/
theorem ends_parseOne {p : Pipeline σ} {r : Run σ} {id : Nat} {s : StoredDocument}
    (h : Access.document? id r.database = .ok (some s) r.database) :
    Step.Ends (p.parseOne id) r (fun _ _ => True) fun e _ => Readable e := by
  unfold parseOne
  rw [Step.ends_bind, Step.ends_consult h]
  simp only
  rw [Step.ends_bind]
  refine (ends_parseWithin p.config.parserRetries).mono ?_ (fun _ _ he => he)
  intro _ r' _
  exact ends_setLatestParsed id r'

/-- Parsing a stored document that cannot be read stops there. -/
theorem parseOne_corrupt {p : Pipeline σ} {r : Run σ} {id : Nat}
    (h : Access.document? id r.database = .error (.corrupt id) r.database) :
    p.parseOne id r = .error (.store (.corrupt id)) r := by
  unfold parseOne
  simp only [bind, EStateM.bind, consult, h]

end Pipeline

/-! ### Documents of a grammar -/

/-- However deep the rules of a grammar nest, the documents that it yields are read back from every
database that has stored them since it was cleared last, and parsing does not stop at their text,
unless texts are not cut and a unit that is nested 62 deep has sentences: then they are not, and
parsing stops. -/
theorem Extractor.readsBack_iff {text xml source : String} {x : Extractor} {ds : List Document}
    {db db' db'' : Database} {ids : List Nat} (hgrammar : Rule.read text = .ok x.grammar)
    (hrun : x.extract xml = .ok ds) (hdb : db.Reached)
    (hsave : Access.save source ds db = .ok ids db' ∨
      ∃ w, Access.saveLogged source ds w db = .ok ids db')
    (hlater : ReflTransGen Database.Grows db' db'') :
    ids.length = ds.length ∧ ∀ (j : Nat) id d, ids[j]? = some id → ds[j]? = some d →
      (db''.ReadsBack id source d ↔ d.body.heldAtDepth 62 = []) ∧
      (Access.document? id db'' = .error (.corrupt id) db'' ↔ d.body.heldAtDepth 62 ≠ []) ∧
      (x.tokenize = true → d.body.heldAtDepth 62 = []) ∧
      ∀ {σ : Type} (p : Pipeline σ) (r : Run σ), r.database = db'' →
        ((∃ i r', p.parseOne id r = .error (.store (.corrupt i)) r') ↔
          d.body.heldAtDepth 62 ≠ []) := by
  obtain ⟨hlength, hnumbered', t, ht, hrows⟩ := Database.rows_of_saved_later hdb hsave hlater
  refine ⟨hlength, ?_⟩
  intro j id d hid hd
  have hrow : Row.ofDocument source id d ∈ t.rows := hrows j id d hid hd
  have hread := read?_write_of_extract hgrammar hrun (List.mem_of_getElem? hd)
  by_cases hheld : d.body.heldAtDepth 62 = []
  · rw [if_pos hheld] at hread
    -- The document fits, so it is read back and parsing comes past it.
    have hback : db''.ReadsBack id source d := hnumbered'.readsBack ht hrow hread
    have ⟨s, hs, _⟩ := hback
    refine ⟨iff_of_true hback hheld, iff_of_false ?_ (not_not_intro hheld), fun _ => hheld, ?_⟩
    · rw [hs]
      exact fun h => nomatch h
    · rintro σ p r rfl
      refine iff_of_false ?_ (not_not_intro hheld)
      rintro ⟨i, r', hstop⟩
      have hends := Pipeline.ends_parseOne (p := p) hs
      rw [Step.Ends, hstop] at hends
      exact hends i rfl
  · rw [if_neg hheld] at hread
    -- It does not fit, so its row cannot be read and parsing stops at it.
    have hcorrupt : Access.document? id db'' = .error (.corrupt id) db'' := by
      rw [hnumbered'.document? ht hrow]
      have hnone : (Row.ofDocument source id d).document? = none := by
        show (Document.read? d.write).map _ = none
        rw [hread]
        rfl
      rw [hnone]
    refine ⟨iff_of_false ?_ hheld, iff_of_true hcorrupt hheld, ?_, ?_⟩
    · rintro ⟨s, hs, -⟩
      cases hcorrupt.symm.trans hs
    · intro hcut
      exact heldAtDepth_of_tokenize hgrammar hrun (List.mem_of_getElem? hd) hcut
    · rintro σ p r rfl
      exact iff_of_true ⟨id, r, Pipeline.parseOne_corrupt hcorrupt⟩ hheld

/-- The deepest grammar makes of a single element a document that is stored and cannot be read
back, when texts are not cut. -/
theorem Extractor.readsBack_chain :
    ∃ (ds : List Document) (d : Document) (ids : List Nat) (db : Database),
      Rule.read (Rule.chainValue 63).compact = .ok (Rule.chain 63) ∧
      Extractor.extract ⟨Rule.chain 63, .punctuation, false⟩ "<a/>" = .ok ds ∧ ds[0]? = some d ∧
      Access.save "a.xml" ds .migrated = .ok ids db ∧ ids[0]? = some 1 ∧
      ¬ db.ReadsBack 1 "a.xml" d ∧ Access.document? 1 db = .error (.corrupt 1) db := by
  -- The one document has a sentence in the unit that is nested 62 deep.
  have hdeep : ((Extractor.extract ⟨Rule.chain 63, .punctuation, false⟩ "<a/>").toOption.map
      fun ds => ds.map fun d => d.body.heldAtDepth 62 == []) = some [false] := by decide +kernel
  cases hrun : Extractor.extract ⟨Rule.chain 63, .punctuation, false⟩ "<a/>" with
  | error e =>
    rw [hrun] at hdeep
    cases hdeep
  | ok ds =>
    rw [hrun] at hdeep
    obtain ⟨d, rfl, hd⟩ := List.map_eq_singleton_iff.mp (Option.some.inj hdeep)
    have hheld : d.body.heldAtDepth 62 ≠ [] := by simpa using hd
    have hdb : Database.migrated.Reached := .grows .fresh (.migrate .fresh)
    have hgrammar : Rule.read (Rule.chainValue 63).compact = .ok (Rule.chain 63) :=
      Rule.read_chain (by decide)
    obtain ⟨-, hback⟩ := Extractor.readsBack_iff hgrammar hrun hdb (.inl rfl) .refl
    obtain ⟨hread, hcorrupt, -⟩ := hback 0 1 d rfl rfl
    exact ⟨[d], d, _, _, hgrammar, rfl, rfl, rfl, rfl, fun h => hheld (hread.mp h),
      hcorrupt.mpr hheld⟩

end XmlHarvest

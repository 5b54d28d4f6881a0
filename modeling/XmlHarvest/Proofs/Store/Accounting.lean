/-
What the listings and the counts of a database say of its documents.

Operations are made on a migrated database: documents are stored, the ledger is written to,
everything is cleared, pipelines run, and any of this may fail or be cut off.  All changes that
they make are changes of a few kinds, so what these keep, all operations keep
(`Database.Operated.induct`).  Hence there is always a list of the documents that are stored, and
the listings and counts are those of this list (`Database.Operated.accounts_agree`).
-/
import XmlHarvest.Proofs.Pipeline.Lockstep
import XmlHarvest.Proofs.Pipeline.Operations
import XmlHarvest.Proofs.Store.Retrieval

namespace XmlHarvest

variable {α σ : Type}

/-! ### Operations -/

namespace Database

/-- A migrated database after operations, those that failed and runs of pipelines included. -/
inductive Operated : Database → Prop
  | migrated : Operated .migrated
  | grows {db db' : Database} (h : Operated db) (op : Grows db db') : Operated db'
  | reset {db : Database} (h : Operated db) : Operated (Access.reset.left db)
  | use {db : Database} (h : Operated db) (u : Use) : Operated (u.after db)

variable {I : Database → Prop} {db : Database}

/-- A property of the database that growing keeps is kept by the accesses of a run. -/
theorem accessesLockstep_of_grows (hgrows : ∀ db db', I db → Grows db db' → I db') :
    AccessesLockstep (SameWith I) where
  ledgerValue _ _ := lockstep_of_keeps (Access.keeps_look _ _)
  log w _ := lockstep_of_keeps fun db h => hgrows _ _ h (.log db w)
  saveLogged source ds w _ := lockstep_of_keeps fun db h => hgrows _ _ h (.saveLogged db source ds w)
  ids := lockstep_of_keeps (Access.keeps_look _ _)
  document? _ := lockstep_of_keeps (Access.keeps_look _ _)

theorem keeps_step (hgrows : ∀ db db', I db → Grows db db' → I db')
    (hreset : Access.Keeps I Access.reset) (pl : Pipeline σ) (o : Operation) :
    Step.Keeps I (o.step pl) := by
  have haccesses := accessesLockstep_of_grows hgrows
  cases o with
  | process scratch =>
    refine lockstep_bind ?_ fun _ => lockstep_pure _
    cases scratch with
    | false => exact Pipeline.lockstep_process haccesses
    | true =>
      rw [Pipeline.process_scratch]
      exact lockstep_bind (lockstep_commit (lockstep_of_keeps hreset)) fun _ =>
        Pipeline.lockstep_process haccesses
  | extractRecord =>
    exact lockstep_bind (Pipeline.lockstep_extractRecord haccesses) fun _ => lockstep_pure _
  | parseDocuments =>
    refine lockstep_bind ?_ fun _ => lockstep_pure _
    exact Pipeline.lockstep_parseDocuments haccesses.pending (haccesses.setStage _ _)
      (fun id => haccesses.document? id) fun id => haccesses.setLatestParsed id
  | finishParsing =>
    exact Pipeline.lockstep_finishParsing haccesses.pending (haccesses.setStage _ _)

/-- What a migrated database has, and what growing and clearing keep, every database has that
operations have brought about. -/
theorem Operated.induct (hmigrated : I .migrated)
    (hgrows : ∀ db db', I db → Grows db db' → I db')
    (hreset : Access.Keeps I Access.reset) (h : Operated db) : I db := by
  induction h with
  | migrated => exact hmigrated
  | grows _ op ih => exact hgrows _ _ ih op
  | reset _ ih => exact hreset _ ih
  | @use db _ u ih =>
    have hstart := hgrows db _ ih (.reject db u.attempt.rejected)
    have hkeeps := keeps_step hgrows hreset u.attempt.pipeline u.operation
    exact (hkeeps.ends (r := u.attempt.start db) hstart).last

theorem Operated.reached (h : Operated db) : Reached db :=
  h.induct (.grows .fresh (.migrate .fresh)) (fun _ _ h op => h.grows op) fun _ h => h.reset

end Database

/-! ### Deposits -/

/-- A document that is stored: its id and the file that it comes from. -/
structure Deposit where
  id : Nat
  source : String
  document : Document

namespace Deposit

/-- The row of the document. -/
def row (d : Deposit) : Row := Row.ofDocument d.source d.id d.document

/-- How many sentences the documents have. -/
def sentences (ds : List Deposit) : Nat :=
  ds.foldr (fun d n => d.document.body.leaves.length + n) 0

/-- The smallest id with the one source is below all ids with the other. -/
def Precedes (ds : List Deposit) (source source' : String) : Prop :=
  ∃ d ∈ ds, d.source = source ∧ ∀ d' ∈ ds, d'.source = source' → d.id < d'.id

variable {ds : List Deposit}

theorem map_id_rows (ds : List Deposit) : (ds.map row).map Row.id = ds.map id := by
  rw [List.map_map]
  rfl

theorem map_source_rows (ds : List Deposit) : (ds.map row).map Row.source = ds.map source := by
  rw [List.map_map]
  rfl

theorem sentenceCount_rows (ds : List Deposit) :
    (ds.map row).foldr (fun r n => r.sentenceCount + n) 0 = sentences ds := by
  rw [List.foldr_map]
  rfl

/-- Documents of one source that are stored behind others. -/
theorem rows_add (t : Tables) (source : String) (documents : List Document) :
    ∃ more, (t.add source documents).rows = t.rows ++ List.map row more := by
  refine ⟨List.zipWith (fun id d => ⟨id, source, d⟩) (t.nextIds documents.length) documents, ?_⟩
  rw [Tables.add, List.map_zipWith]
  rfl

/-- An order among some of the documents is one among all if none of those with the later source
is left out. -/
theorem Precedes.of_filter {keep : Deposit → Bool} {s s' : String}
    (h : Precedes (ds.filter keep) s s') (hkeep : ∀ d, d.source = s' → keep d = true) :
    Precedes ds s s' := by
  obtain ⟨d, hd, hsource, hbefore⟩ := h
  refine ⟨d, (List.mem_filter.mp hd).1, hsource, ?_⟩
  intro d' hd' hsource'
  exact hbefore d' (List.mem_filter.mpr ⟨hd', hkeep d' hsource'⟩) hsource'

/-- Where ids increase, sources in the order of their first documents are in the order of their
smallest ids. -/
theorem pairwise_sources (hds : (ds.map id).Pairwise (· < ·)) :
    (ds.map source).eraseDups.Pairwise (Precedes ds) := by
  -- The sources behind the first are those of the documents with another source.
  induction hlength : ds.length using Nat.strongRecOn generalizing ds with
  | _ n ih =>
    cases ds with
    | nil => exact .nil
    | cons first others =>
      let differs : Deposit → Bool := fun d => !d.source == first.source
      have hrest : (first :: others).filter differs = others.filter differs :=
        List.filter_cons_of_neg (by simp [differs])
      have hsources : (others.map source).filter (fun s => !s == first.source) =
          (others.filter differs).map source := by
        rw [List.filter_map]
        rfl
      have hshorter : (others.filter differs).length < n := by
        have := List.length_filter_le differs others
        rw [← hlength, List.length_cons]
        omega
      have hdiffers : ∀ s ∈ ((others.filter differs).map source).eraseDups, ∀ d : Deposit,
          d.source = s → differs d = true := by
        intro s hs d hd
        rw [List.mem_eraseDups, List.mem_map] at hs
        obtain ⟨d', hd', rfl⟩ := hs
        have hother := (List.mem_filter.mp hd').2
        simp only [differs] at hother ⊢
        rwa [hd]
      rw [List.map_cons, List.pairwise_cons] at hds
      obtain ⟨hfirst, hothers⟩ := hds
      rw [List.map_cons, List.eraseDups_cons, hsources, List.pairwise_cons]
      refine ⟨?_, ?_⟩
      · intro s hs
        refine ⟨first, List.mem_cons_self, rfl, ?_⟩
        intro d hd hsource
        have hin : d ∈ (first :: others).filter differs :=
          List.mem_filter.mpr ⟨hd, hdiffers s hs d hsource⟩
        rw [hrest] at hin
        exact hfirst _ (List.mem_map_of_mem (List.mem_filter.mp hin).1)
      · have hincreasing := hothers.sublist ((List.filter_sublist (p := differs)).map id)
        refine (ih _ hshorter hincreasing rfl).imp_of_mem ?_
        intro s s' _ hs' hprecedes
        rw [← hrest] at hprecedes
        exact hprecedes.of_filter (hdiffers s' hs')

end Deposit

namespace Database

variable {db : Database} {ds : List Deposit}

/-- The database is open to all accesses, and its rows are those of the documents. -/
structure Holds (db : Database) (ds : List Deposit) : Prop where
  closed : db.committed = none
  tables : ∃ t, db.contents.tables = some t ∧ t.rows = ds.map Deposit.row

namespace Holds

theorem alter (h : db.Holds ds) {error : StoreError}
    {change : Contents → Tables → Except StoreError (α × Tables)}
    (hchange : ∀ c t a t', change c t = .ok (a, t') →
      ∃ more, t'.rows = t.rows ++ List.map Deposit.row more) :
    ∃ ds', ((Access.alter error change).left db).Holds ds' := by
  obtain ⟨t, ht, hrows⟩ := h.tables
  rcases Access.left_alter error change db with hleft | ⟨t, a, t', ht', hdone, hleft⟩
  · rw [hleft]
    exact ⟨ds, h⟩
  · obtain rfl := Option.some.inj (ht.symm.trans ht')
    obtain ⟨more, hmore⟩ := hchange _ _ _ _ hdone
    rw [hleft]
    refine ⟨ds ++ more, h.closed, t', rfl, ?_⟩
    rw [hmore, hrows, List.map_append]

theorem store (h : db.Holds ds) (source : String) (documents : List Document)
    (entry : Option LedgerWrite) :
    ∃ ds', ((Access.store source documents entry).left db).Holds ds' := by
  rw [Access.store_eq_alter]
  refine h.alter ?_
  intro c t ids t' hdone
  cases entry with
  | none =>
    obtain ⟨-, rfl⟩ : _ ∧ t.add source documents = t' := by simpa using hdone
    exact Deposit.rows_add t source documents
  | some w =>
    simp only at hdone
    split at hdone
    · cases hdone
    · obtain ⟨-, rfl⟩ : _ ∧ (t.add source documents).log w = t' := by simpa using hdone
      exact Deposit.rows_add t source documents

/-- Where there are tables, a migration leaves them. -/
theorem migrate (h : db.Holds ds) : (Access.migrate.left db).Holds ds := by
  obtain ⟨t, ht, hrows⟩ := h.tables
  rcases Access.left_migrate db with hleft | ⟨-, hleft⟩
  · rw [hleft]
    exact ⟨h.closed, t, ht, hrows⟩
  · rw [hleft]
    refine ⟨h.closed, t, ?_, hrows⟩
    show some (db.contents.tables.getD .empty) = some t
    rw [ht, Option.getD_some]

theorem reset (h : db.Holds ds) : (Access.reset.left db).Holds [] := by
  obtain ⟨t, ht, -⟩ := h.tables
  unfold Access.left Access.reset
  simp only [h.closed, ht]
  exact ⟨rfl, .empty, rfl, rfl⟩

theorem grows {db' : Database} (h : db.Holds ds) (op : Grows db db') : ∃ ds', db'.Holds ds' := by
  cases op with
  | migrate => exact ⟨ds, h.migrate⟩
  | save source documents => exact h.store source documents none
  | saveLogged source documents w => exact h.store source documents (some w)
  | log w =>
    refine h.alter ?_
    rintro c t ⟨⟩ t' hdone
    split at hdone
    · cases hdone
    · obtain rfl : t.log w = t' := by simpa using hdone
      exact ⟨[], (List.append_nil _).symm⟩
  | reject keys => exact ⟨ds, h.closed, h.tables⟩
  | reopen =>
    rw [Database.reopen, h.closed]
    exact ⟨ds, rfl, h.tables⟩

end Holds

theorem Operated.holds (h : Operated db) : ∃ ds, db.Holds ds :=
  h.induct (I := fun db => ∃ ds, db.Holds ds) ⟨[], rfl, .empty, rfl, rfl⟩
    (fun _ _ ⟨_, h⟩ op => h.grows op) fun _ ⟨_, h⟩ => ⟨[], h.reset⟩

/-! ### Listings and counts -/

/-- After whatever operations, there are documents that are stored, and the listings and counts are
theirs.  Their ids increase, and a row is found under these ids only; the documents are counted, and
their sentences together; every source of one of them is listed once, in the order of the smallest
ids. -/
theorem Operated.accounts_agree (h : Operated db) :
    ∃ ds : List Deposit, db.Holds ds ∧
      Access.ids db = .ok (ds.map Deposit.id) db ∧ (ds.map Deposit.id).Pairwise (· < ·) ∧
      (∀ id : Int, Access.document? id db = .ok none db ↔ ∀ d ∈ ds, (d.id : Int) ≠ id) ∧
      (∀ d ∈ ds, db.ReadsBack d.id d.source d.document ∨
        (Json.maxDepth < d.document.body.toJson.depth ∧
          Access.document? d.id db = .error (.corrupt d.id) db)) ∧
      Access.documentCount db = .ok ds.length db ∧
      Access.sentenceCount db = .ok (Deposit.sentences ds) db ∧
      ∃ ss, Access.sources db = .ok ss db ∧ ss.Nodup ∧
        (∀ s, s ∈ ss ↔ ∃ d ∈ ds, d.source = s) ∧ ss.Pairwise (Deposit.Precedes ds) := by
  obtain ⟨ds, hds⟩ := h.holds
  obtain ⟨t, ht, hrows⟩ := hds.tables
  have hnumbered := h.reached.numbered
  have hincreasing : (ds.map Deposit.id).Pairwise (· < ·) := by
    rw [← Deposit.map_id_rows, ← hrows]
    exact (hnumbered.tables t ht).increasing
  have hfound : ∀ d ∈ ds, db.ReadsBack d.id d.source d.document ∨
      (Json.maxDepth < d.document.body.toJson.depth ∧
        Access.document? d.id db = .error (.corrupt d.id) db) := by
    intro d hd
    have hrow : d.row ∈ t.rows := hrows ▸ List.mem_map_of_mem hd
    rcases hnumbered.document?_cases ht hrow with hcorrupt | hread
    · exact .inr hcorrupt
    · exact .inl ⟨_, hread, rfl, rfl, rfl, d.document.body.values_share_apart⟩
  have hprecedes := Deposit.pairwise_sources hincreasing
  have hsources : (t.rows.map Row.source).eraseDups = (ds.map Deposit.source).eraseDups := by
    rw [hrows, Deposit.map_source_rows]
  refine ⟨ds, hds, ?_, hincreasing, ?_, hfound, ?_, ?_, _, ?_, ?_, ?_, hprecedes⟩
  · simp only [Access.ids, Access.look, ht, Tables.ids, hrows, Deposit.map_id_rows]
  · intro id
    refine ⟨?_, ?_⟩
    · rintro hnone d hd rfl
      rcases hfound d hd with ⟨s, hs, -⟩ | ⟨-, hcorrupt⟩
      · cases hnone.symm.trans hs
      · cases hnone.symm.trans hcorrupt
    · intro hother
      have hnone : t.row? id = none := by
        rw [Tables.row?, hrows, List.find?_eq_none]
        intro r hr
        obtain ⟨d, hd, rfl⟩ := List.mem_map.mp hr
        show ¬((d.id : Int) == id) = true
        rw [beq_iff_eq]
        exact hother d hd
      simp only [Access.document?, Access.look, ht, hnone]
  · simp only [Access.documentCount, Access.look, ht, hrows, List.length_map]
  · simp only [Access.sentenceCount, Access.look, ht, Tables.sentenceCount, hrows,
      Deposit.sentenceCount_rows]
  · simp only [Access.sources, Access.look, ht, Tables.sources, hsources]
  · -- No source precedes itself.
    refine hprecedes.imp ?_
    rintro s _ ⟨d, hd, hsource, hbefore⟩ rfl
    exact Nat.lt_irrefl _ (hbefore d hd hsource)
  · intro s
    rw [List.mem_eraseDups, List.mem_map]

/-- Documents of two files in turn, after clearing, with storing that failed and a run between
them. -/
theorem Operated.accounts_agree_mixed :
    let d : Document := ⟨"d", ⟨"d", [], [⟨"u", [], [], [⟨"x", []⟩]⟩], [⟨"y", []⟩]⟩⟩
    let cleared := Access.reset.left ((Access.save "old.xml" [d]).left .migrated)
    let stored := (Access.save "b.xml" [d, d]).left cleared
    let refused := (Access.saveLogged "c.xml" [d] ⟨"k", "v", .append⟩).left
      { stored with contents.rejected := ["k"] }
    let db := Use.after ⟨.single "b.xml" (some "<text/>"), .process false⟩
      ((Access.save "a.xml" [d]).left refused)
    db.Operated ∧ ∃ ds, db.Holds ds ∧ ds.map Deposit.id = [1, 2, 3, 4] ∧
      Access.documentCount db = .ok 4 db ∧ Access.sentenceCount db = .ok 6 db ∧
      Access.sources db = .ok ["b.xml", "a.xml"] db ∧ Deposit.Precedes ds "b.xml" "a.xml" := by
  intro d cleared stored refused db
  have hcleared : cleared.Operated := .reset (.grows .migrated (.save _ _ _))
  have hstored : stored.Operated := .grows hcleared (.save _ _ _)
  have hrefused : refused.Operated := .grows (.grows hstored (.reject _ _)) (.saveLogged _ _ _ _)
  have hdb : db.Operated := .use (.grows hrefused (.save _ _ _)) _
  have hids : Access.ids.answer? db = some [1, 2, 3, 4] := by decide +kernel
  have hsentences : Access.sentenceCount.answer? db = some 6 := by decide +kernel
  have hsources : Access.sources.answer? db = some ["b.xml", "a.xml"] := by decide +kernel
  obtain ⟨ds, hds, hids', -, -, -, hcount, hsentences', ss, hsources', -, -, hprecedes⟩ :=
    hdb.accounts_agree
  rw [Access.answer?, hids'] at hids
  rw [Access.answer?, hsentences'] at hsentences
  rw [Access.answer?, hsources'] at hsources
  obtain rfl := Option.some.inj hsources
  have hlength : ds.length = 4 := by
    rw [← List.length_map, Option.some.inj hids]
    rfl
  rw [hlength] at hcount
  rw [Option.some.inj hsentences] at hsentences'
  rw [List.pairwise_pair] at hprecedes
  exact ⟨hdb, ds, hds, Option.some.inj hids, hcount, hsentences', hsources', hprecedes⟩

end Database

end XmlHarvest

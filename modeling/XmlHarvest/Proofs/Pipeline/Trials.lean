/-
How often the parser is called, with which documents, and what is kept of it.

The parser has a state of its own, so it may say something else of a document at every call.
`Parser.Answers` is the talk that some calls make, and a `Trial` is the part of it that is about one
document.  A document is tried until the parser takes it, or has refused it as often as it may
(`Pipeline.tries_parseWithin`); the mark follows the documents that are taken
(`Pipeline.tries_parseEach`).  Main statement: `Pipeline.parseDocuments_trials`.
-/
import XmlHarvest.Proofs.Pipeline.Ends
import XmlHarvest.Proofs.Store.Entries

namespace XmlHarvest

open Checkpoint

variable {σ α : Type}

/-! ### Calls -/

/-- Called with these documents one after the other, the parser says what stands beside them, and
its state goes from the first to the last. -/
inductive Parser.Answers (parser : Parser σ) :
    σ → List (StoredDocument × Except String Unit) → σ → Prop
  | nil (s : σ) : Answers parser s [] s
  | cons {s s' : σ} {calls : List (StoredDocument × Except String Unit)} (d : StoredDocument)
      (later : Answers parser (parser d s).2 calls s') :
      Answers parser s ((d, (parser d s).1) :: calls) s'

theorem Parser.Answers.append {parser : Parser σ} {s s' s'' : σ}
    {calls later : List (StoredDocument × Except String Unit)} (h : parser.Answers s calls s')
    (hlater : parser.Answers s' later s'') : parser.Answers s (calls ++ later) s'' := by
  induction h with
  | nil => exact hlater
  | cons d _ ih => exact .cons d (ih hlater)

/-- How a document fared: the reasons for which the parser refused it, call by call, and whether it
took it then. -/
structure Trial where
  document : StoredDocument
  refusals : List String
  taken : Bool

namespace Trial

def id (t : Trial) : Nat := t.document.id

/-- The calls with the document, and what the parser said. -/
def calls (t : Trial) : List (StoredDocument × Except String Unit) :=
  t.refusals.map (fun reason => (t.document, .error reason)) ++
    if t.taken then [(t.document, .ok ())] else []

/-- The parser took the document before it had refused it too often. -/
structure Passed (retries : Nat) (t : Trial) : Prop where
  taken : t.taken = true
  within : t.refusals.length ≤ retries

/-- The parser refused the document at every call, and gave this reason last. -/
structure Failed (retries : Nat) (reason : String) (t : Trial) : Prop where
  refused : t.taken = false
  all : t.refusals.length = retries + 1
  last : t.refusals.getLast? = some reason

/-- The same trial after one more refusal. -/
def again (reason : String) (t : Trial) : Trial := { t with refusals := reason :: t.refusals }

theorem calls_again (reason : String) (t : Trial) :
    (t.again reason).calls = (t.document, .error reason) :: t.calls := rfl

theorem Passed.again {retries : Nat} {t : Trial} (h : t.Passed retries) (reason : String) :
    (t.again reason).Passed (retries + 1) :=
  ⟨h.taken, Nat.succ_le_succ h.within⟩

theorem Failed.again {retries : Nat} {last : String} {t : Trial} (h : t.Failed retries last)
    (reason : String) : (t.again reason).Failed (retries + 1) last where
  refused := h.refused
  all := congrArg Nat.succ h.all
  last := by
    rw [Trial.again, List.getLast?_cons, h.last]
    rfl

end Trial

/-! ### Runs -/

/-- Between the two runs the parser was called, and nothing else was done. -/
structure Run.Talks (parser : Parser σ) (calls : List (StoredDocument × Except String Unit))
    (r r' : Run σ) : Prop where
  answers : parser.Answers r.parser calls r'.parser
  calls : r'.calls = r.calls ++ calls.map fun c => (c.1.id, c.2.isOk)
  database : r'.database = r.database
  writesLeft : r'.writesLeft = r.writesLeft

/-- The run in which the parser has been called once more. -/
def Run.afterCall (parser : Parser σ) (d : StoredDocument) (r : Run σ) : Run σ :=
  { r with
    parser := (parser d r.parser).2
    calls := r.calls ++ [(d.id, (parser d r.parser).1.isOk)] }

namespace Run.Talks

variable {parser : Parser σ} {d : StoredDocument} {r r' : Run σ}

theorem nil (parser : Parser σ) (r : Run σ) : Talks parser [] r r :=
  ⟨.nil r.parser, (List.append_nil _).symm, rfl, rfl⟩

/-- One more call comes first. -/
theorem cons {calls : List (StoredDocument × Except String Unit)}
    (h : Talks parser calls (r.afterCall parser d) r') :
    Talks parser ((d, (parser d r.parser).1) :: calls) r r' where
  answers := .cons d h.answers
  calls := by
    rw [h.calls, Run.afterCall, List.append_assoc]
    rfl
  database := h.database
  writesLeft := h.writesLeft

/-- The parser takes the document at once. -/
theorem taken (hsaid : (parser d r.parser).1 = .ok ()) :
    Talks parser (Trial.calls ⟨d, [], true⟩) r (r.afterCall parser d) := by
  have hcall := cons (nil parser (r.afterCall parser d))
  rwa [hsaid] at hcall

/-- The parser refuses the document once more. -/
theorem again {t : Trial} {reason : String}
    (hsaid : (parser t.document r.parser).1 = .error reason)
    (h : Talks parser t.calls (r.afterCall parser t.document) r') :
    Talks parser (t.again reason).calls r r' := by
  have hcall := h.cons
  rwa [hsaid, ← Trial.calls_again] at hcall

end Run.Talks

/-- Between the two runs the parser was called for these trials and for nothing else, with the
documents that are stored under their ids. -/
structure Run.Tries (parser : Parser σ) (trials : List Trial) (r r' : Run σ) : Prop where
  documents : ∀ trial ∈ trials,
    Access.document? trial.id r.database = .ok (some trial.document) r.database
  answers : parser.Answers r.parser (trials.flatMap Trial.calls) r'.parser
  calls : r'.calls =
    r.calls ++ (trials.flatMap Trial.calls).map fun c => (c.1.id, c.2.isOk)

/-- Nothing keeps a run from trying the documents with these ids and moving the mark. -/
structure Run.Unhindered (ids : List Nat) (r : Run σ) : Prop where
  uncut : r.writesLeft = none
  free : parsedKey ∉ r.database.contents.rejected
  readable : ∀ id ∈ ids, ∃ d, Access.document? id r.database = .ok (some d) r.database

/-- Nor from trying some of them later. -/
theorem Run.Unhindered.later {ids ids' : List Nat} {r r' : Run σ} (h : r.Unhindered ids)
    (hids : ids' ⊆ ids) (hdb : r.database.Relogged r'.database) (huncut : r'.writesLeft = none) :
    r'.Unhindered ids' where
  uncut := huncut
  free := by
    rw [hdb.rejected]
    exact h.free
  readable id hid := by
    obtain ⟨d, hd⟩ := h.readable id (hids hid)
    exact ⟨d, hdb.document? hd⟩

namespace Run.Tries

variable {parser : Parser σ} {r r' r'' : Run σ} {trials : List Trial}

/-- While the parser is not called, the run may change the database. -/
theorem nil (parser : Parser σ) (hparser : r'.parser = r.parser) (hcalls : r'.calls = r.calls) :
    Tries parser [] r r' where
  documents _ h := nomatch h
  answers := by
    rw [hparser]
    exact .nil r.parser
  calls := by
    rw [hcalls]
    exact (List.append_nil _).symm

theorem append {later : List Trial} (h : Tries parser trials r r')
    (hdb : r.database.Relogged r'.database) (hlater : Tries parser later r' r'') :
    Tries parser (trials ++ later) r r'' where
  documents := by
    refine List.forall_mem_append.mpr ⟨h.documents, fun t ht => ?_⟩
    exact hdb.symm.document? (hlater.documents t ht)
  answers := by
    rw [List.flatMap_append]
    exact h.answers.append hlater.answers
  calls := by
    rw [hlater.calls, h.calls, List.flatMap_append, List.map_append, List.append_assoc]

end Run.Tries

/-! ### The mark and the flag -/

namespace Database

/-- The mark was set to these ids one after the other, and nothing else was changed. -/
structure Marked (ids : List Nat) (db db' : Database) : Prop where
  relogged : db.Relogged db'
  entry : ∀ key, db'.logged? key =
    if key = parsedKey then (ids.getLast?.map toString).or (db.logged? key) else db.logged? key

/-- What parsing documents leaves in the ledger: the mark stands at the one that was taken last, and
the flag of the stage is taken back if one was pending.  Nothing else was changed. -/
structure Parsed (pending taken : List Nat) (db db' : Database) : Prop where
  relogged : db.Relogged db'
  mark : db'.logged? parsedKey = (taken.getLast?.map toString).or (db.logged? parsedKey)
  flag : db'.logged? Stage.grammaticalProcessing.flagKey =
    if pending = [] then db.logged? Stage.grammaticalProcessing.flagKey else some (flagText false)
  others : ∀ key, key ≠ parsedKey → key ≠ Stage.grammaticalProcessing.flagKey →
    db'.logged? key = db.logged? key

variable {db db' db'' : Database} {ids taken pending : List Nat}

theorem Marked.nil (db : Database) : Marked [] db db where
  relogged := .refl db
  entry key := by simp

theorem Marked.cons {id : Nat} (h : db.Writes ⟨parsedKey, toString (id : Int), .update⟩ db')
    (hlater : Marked ids db' db'') : Marked (id :: ids) db db'' where
  relogged := h.relogged.trans hlater.relogged
  entry key := by
    rw [hlater.entry, h.entry]
    by_cases hkey : key = parsedKey
    · rw [if_pos hkey, if_pos hkey, if_pos hkey, List.getLast?_cons]
      cases ids.getLast? <;> rfl
    · rw [if_neg hkey, if_neg hkey, if_neg hkey]

theorem Parsed.refl (db : Database) : Parsed [] [] db db :=
  ⟨.refl db, rfl, (if_pos rfl).symm, fun _ _ _ => rfl⟩

/-- The flag is taken back before the mark is moved. -/
theorem Parsed.of_marked
    (h : db.Writes ⟨Stage.grammaticalProcessing.flagKey, flagText false, .replace⟩ db')
    (hpending : pending ≠ []) (hmarked : Marked taken db' db'') :
    Parsed pending taken db db'' where
  relogged := h.relogged.trans hmarked.relogged
  mark := by
    rw [hmarked.entry, if_pos rfl, h.entry, if_neg (Stage.flagKey_ne_parsedKey _).symm]
  flag := by
    rw [hmarked.entry, if_neg (Stage.flagKey_ne_parsedKey _), h.entry, if_pos rfl,
      if_neg hpending]
    rfl
  others key hmark hflag := by rw [hmarked.entry, if_neg hmark, h.entry, if_neg hflag]

end Database

/-! ### One document -/

namespace Step

variable {r : Run σ} {Q : α → Run σ → Prop} {E : RunError → Run σ → Prop}

/-- Whatever a look yields, the run stays where it is. -/
theorem ends_look {error : StoreError} {view : Tables → Except StoreError α}
    (hQ : ∀ a, Access.look error view r.database = .ok a r.database → Q a r)
    (hE : ∀ e, Access.look error view r.database = .error e r.database → E (.store e) r) :
    Ends (consult (Access.look error view)) r Q E := by
  have hleft := Access.left_look error view r.database
  unfold Access.left at hleft
  cases h : Access.look error view r.database with
  | ok a db =>
    rw [h] at hleft
    obtain rfl : db = r.database := hleft
    exact (ends_consult h).mpr (hQ a h)
  | error e db =>
    rw [h] at hleft
    obtain rfl : db = r.database := hleft
    exact (ends_consult_error h).mpr (hE e h)

/-- A write to the ledger is made, or the run is cut off, or there are no tables, or the write is
refused. -/
theorem ends_log {w : LedgerWrite} {Q : Unit → Run σ → Prop}
    (hQ : ∀ db, r.database.Writes w db →
      Q () { r with database := db, writesLeft := r.writesLeft.map (· - 1) })
    (hE : ∀ e, (r.writesLeft = none → w.key ∉ r.database.contents.rejected →
      r.database.contents.tables = none) → E e r) :
    Ends (commit (Access.log w)) r Q E := by
  unfold Ends commit
  by_cases hcut : r.writesLeft = some 0
  · rw [if_pos hcut]
    refine hE _ fun huncut => ?_
    rw [hcut] at huncut
    cases huncut
  · rw [if_neg hcut]
    cases ht : r.database.contents.tables with
    | none =>
      simp only [Access.log, Access.alter, ht]
      exact hE _ fun _ _ => ht
    | some t =>
      rw [Access.log_eq ht]
      cases hrefused : r.database.contents.rejects w with
      | true =>
        simp only [if_true]
        refine hE _ fun _ hfree => ?_
        exact absurd (Contents.rejects_iff.mp hrefused) hfree
      | false =>
        simp only [Bool.false_eq_true, if_false]
        exact hQ _ (Database.writes_log ht w)

end Step

theorem Access.id_of_document? {id : Nat} {d : StoredDocument} {db db' : Database}
    (h : Access.document? id db = .ok (some d) db') : d.id = id := by
  unfold Access.document? Access.look at h
  cases ht : db.contents.tables with
  | none =>
    rw [ht] at h
    cases h
  | some t =>
    simp only [ht] at h
    cases hrow : t.row? id with
    | none =>
      simp only [hrow] at h
      cases h
    | some row =>
      cases hd : row.document? with
      | none =>
        simp only [hrow, hd] at h
        cases h
      | some d' =>
        simp only [hrow, hd] at h
        obtain ⟨heq, -⟩ := EStateM.Result.ok.inj h
        obtain rfl : d' = d := Option.some.inj heq
        obtain ⟨_, -, rfl⟩ := Option.map_eq_some_iff.mp hd
        have hid := List.find?_some hrow
        exact Int.natCast_inj.mp (beq_iff_eq.mp hid)

namespace Pipeline

open Step

variable {pl : Pipeline σ}

/-- A document is tried until the parser takes it, or has refused it once more than it is to be
tried again.  The induction is on how often it still is. -/
theorem tries_parseWithin (parser : Parser σ) (d : StoredDocument) (retries : Nat) (r : Run σ) :
    Ends (parseWithin parser d retries) r
      (fun _ r' => ∃ trial : Trial, trial.document = d ∧ trial.Passed retries ∧
        Run.Talks parser trial.calls r r')
      (fun e r' => ∃ (trial : Trial) (reason : String), trial.document = d ∧
        trial.Failed retries reason ∧ e = .parsing d.id reason ∧
        Run.Talks parser trial.calls r r') := by
  induction retries generalizing r with
  | zero =>
    unfold parseWithin
    rw [ends_bind, ends_callParser, ← Run.afterCall]
    cases hsaid : (parser d r.parser).1 with
    | ok u => exact ⟨⟨d, [], true⟩, rfl, ⟨rfl, Nat.le_refl _⟩, .taken hsaid⟩
    | error reason =>
      refine ⟨⟨d, [reason], false⟩, reason, rfl, ⟨rfl, rfl, rfl⟩, rfl, ?_⟩
      exact .again (t := ⟨d, [], false⟩) hsaid (.nil parser _)
  | succ retries ih =>
    unfold parseWithin
    rw [ends_bind, ends_callParser, ← Run.afterCall]
    cases hsaid : (parser d r.parser).1 with
    | ok u => exact ⟨⟨d, [], true⟩, rfl, ⟨rfl, Nat.zero_le _⟩, .taken hsaid⟩
    | error reason =>
      refine (ih (r.afterCall parser d)).mono ?_ ?_
      · rintro _ r' ⟨trial, rfl, hpassed, htalks⟩
        exact ⟨trial.again reason, rfl, hpassed.again reason, htalks.again hsaid⟩
      · rintro e r' ⟨trial, last, rfl, hfailed, rfl, htalks⟩
        exact ⟨trial.again reason, last, rfl, hfailed.again reason, rfl, htalks.again hsaid⟩

/-- What was said of one document that is stored. -/
theorem tries_of_talks {parser : Parser σ} {trial : Trial} {r r' : Run σ}
    (hstored : Access.document? trial.id r.database = .ok (some trial.document) r.database)
    (h : Run.Talks parser trial.calls r r') : Run.Tries parser [trial] r r' where
  documents := by simpa using hstored
  answers := by
    rw [List.flatMap_singleton]
    exact h.answers
  calls := by
    rw [List.flatMap_singleton]
    exact h.calls

/-- A document that is taken gets the mark. -/
theorem tries_parseOne (pl : Pipeline σ) (id : Nat) (r : Run σ) :
    Ends (pl.parseOne id) r
      (fun _ r' => ∃ trial : Trial, trial.id = id ∧ trial.Passed pl.config.parserRetries ∧
        Run.Tries pl.parser [trial] r r' ∧
        r.database.Writes ⟨parsedKey, toString (id : Int), .update⟩ r'.database ∧
        (r.writesLeft = none → r'.writesLeft = none))
      (fun e r' => r.Unhindered [id] → ∃ (trial : Trial) (reason : String), trial.id = id ∧
        trial.Failed pl.config.parserRetries reason ∧ e = .parsing id reason ∧
        Run.Tries pl.parser [trial] r r' ∧ r'.database = r.database) := by
  unfold parseOne
  rw [ends_bind]
  refine ends_look ?_ ?_
  · intro found hfound
    cases found with
    | none =>
      rintro ⟨-, -, hreadable⟩
      obtain ⟨d, hd⟩ := hreadable id List.mem_cons_self
      cases hfound.symm.trans hd
    | some d =>
      obtain rfl : d.id = id := Access.id_of_document? hfound
      show Ends (parseWithin pl.parser d pl.config.parserRetries >>= fun _ =>
        commit (setLatestParsed d.id)) r _ _
      rw [ends_bind]
      refine (tries_parseWithin pl.parser d pl.config.parserRetries r).mono ?_ ?_
      · rintro _ r' ⟨trial, rfl, hpassed, htalks⟩
        rw [setLatestParsed]
        refine ends_log ?_ ?_
        · intro db hwrites
          rw [htalks.database] at hwrites
          obtain ⟨hstored, hanswers, hcalls⟩ := tries_of_talks hfound htalks
          refine ⟨trial, rfl, hpassed, ⟨hstored, hanswers, hcalls⟩, hwrites, fun huncut => ?_⟩
          simp [htalks.writesLeft, huncut]
        · rintro e hrefused ⟨huncut, hfree, -⟩
          rw [htalks.database, htalks.writesLeft] at hrefused
          have hnone := hrefused huncut hfree
          simp only [Access.look, hnone] at hfound
          cases hfound
      · rintro e r' ⟨trial, reason, rfl, hfailed, rfl, htalks⟩ -
        exact ⟨trial, reason, rfl, hfailed, rfl, tries_of_talks hfound htalks, htalks.database⟩
  · rintro e hfailed ⟨-, -, hreadable⟩
    obtain ⟨d, hd⟩ := hreadable id List.mem_cons_self
    cases hfailed.symm.trans hd

/-! ### All documents -/

section Outcomes

variable (pl : Pipeline σ) (ids : List Nat) (leaves : List Nat → Database → Database → Prop)

/-- The documents with these ids were tried one after the other, and all were taken. -/
def Took (r r' : Run σ) : Prop :=
  ∃ trials : List Trial, trials.map Trial.id = ids ∧
    (∀ trial ∈ trials, trial.Passed pl.config.parserRetries) ∧
    Run.Tries pl.parser trials r r' ∧ leaves ids r.database r'.database

/-- The documents with these ids were tried one after the other up to one that failed; those before
it were taken.  What is left is what taking them leaves. -/
def Halted (e : RunError) (r r' : Run σ) : Prop :=
  ∃ (trials : List Trial) (last : Trial) (reason : String),
    (trials ++ [last]).map Trial.id <+: ids ∧
      (∀ trial ∈ trials, trial.Passed pl.config.parserRetries) ∧
      last.Failed pl.config.parserRetries reason ∧ e = .parsing last.id reason ∧
      Run.Tries pl.parser (trials ++ [last]) r r' ∧
      leaves (trials.map Trial.id) r.database r'.database

end Outcomes

theorem tries_parseEach (pl : Pipeline σ) (ids : List Nat) (r : Run σ) :
    Ends (pl.parseEach ids) r (fun _ r' => pl.Took ids Database.Marked r r')
      (fun e r' => r.Unhindered ids → pl.Halted ids Database.Marked e r r') := by
  induction ids generalizing r with
  | nil => exact ⟨[], rfl, fun _ h => (nomatch h), .nil pl.parser rfl rfl, .nil r.database⟩
  | cons id ids ih =>
    unfold parseEach
    rw [ends_bind]
    refine (tries_parseOne pl id r).mono ?_ ?_
    · rintro _ r₁ ⟨trial, rfl, hpassed, htried, hwrites, huncut⟩
      refine (ih r₁).mono ?_ ?_
      · rintro _ r' ⟨trials, rfl, hall, hlater, hmarked⟩
        exact ⟨trial :: trials, rfl, List.forall_mem_cons.mpr ⟨hpassed, hall⟩,
          htried.append hwrites.relogged hlater, .cons hwrites hmarked⟩
      · intro e r' hhalted hr
        have hr₁ : r₁.Unhindered ids :=
          hr.later (List.subset_cons_self trial.id ids) hwrites.relogged (huncut hr.uncut)
        obtain ⟨trials, last, reason, hids, hall, hfailed, rfl, hlater, hmarked⟩ := hhalted hr₁
        exact ⟨trial :: trials, last, reason, List.cons_prefix_cons.mpr ⟨rfl, hids⟩,
          List.forall_mem_cons.mpr ⟨hpassed, hall⟩, hfailed, rfl,
          htried.append hwrites.relogged hlater, .cons hwrites hmarked⟩
    · intro e r' hstopped hr
      have hid : r.Unhindered [id] := hr.later (by simp) (.refl r.database) hr.uncut
      obtain ⟨trial, reason, rfl, hfailed, rfl, htried, hdb⟩ := hstopped hid
      refine ⟨[], trial, reason, List.cons_prefix_cons.mpr ⟨rfl, List.nil_prefix⟩,
        fun _ h => (nomatch h), hfailed, rfl, htried, ?_⟩
      rw [hdb]
      exact .nil r.database

/-- The ids of the documents behind the mark. -/
def behind (t : Tables) (mark : Int) : List Nat := t.ids.filter fun (id : Nat) => mark < (id : Int)

theorem pending_eq {db : Database} {t : Tables} (ht : db.contents.tables = some t) {mark : Int}
    (hmark : latestParsed db = .ok mark db) : pending db = .ok (behind t mark) db := by
  simp only [pending, bind, EStateM.bind, hmark, Access.ids, Access.look, ht]
  rfl

theorem pending_error {db : Database} {e : StoreError} (hmark : latestParsed db = .error e db) :
    pending db = .error e db := by
  simp only [pending, bind, EStateM.bind, hmark]

/-- The documents behind the mark are tried; nothing is done where the mark cannot be read.  What is
said of a run that stops is said of one that nothing hinders. -/
theorem tries_parseDocuments (pl : Pipeline σ) {r : Run σ} {t : Tables} {mark : Int}
    (ht : r.database.contents.tables = some t)
    (hmark : latestParsed r.database = .ok mark r.database) :
    Ends pl.parseDocuments r
      (fun n r' => n = (behind t mark).length ∧
        pl.Took (behind t mark) (Database.Parsed (behind t mark)) r r')
      (fun e r' => r.Unhindered (behind t mark) →
        Stage.grammaticalProcessing.flagKey ∉ r.database.contents.rejected →
          pl.Halted (behind t mark) (Database.Parsed (behind t mark)) e r r') := by
  unfold parseDocuments
  rw [ends_bind, ends_consult (pending_eq ht hmark)]
  cases hpending : behind t mark with
  | nil =>
    exact ⟨rfl, [], rfl, fun _ h => (nomatch h), .nil pl.parser rfl rfl, .refl r.database⟩
  | cons id ids =>
    show Ends (commit (setStage .grammaticalProcessing false) >>= fun _ =>
      pl.parseEach (id :: ids) >>= fun _ => pure (id :: ids).length) r _ _
    rw [ends_bind, setStage]
    refine ends_log ?_ ?_
    · intro db hwrites
      have hopened : Run.Tries pl.parser [] r
          { r with database := db, writesLeft := r.writesLeft.map (· - 1) } :=
        .nil pl.parser rfl rfl
      rw [ends_bind]
      refine (tries_parseEach pl (id :: ids) _).mono ?_ ?_
      · rintro _ r' ⟨trials, hids, hall, htried, hmarked⟩
        exact ⟨rfl, trials, hids, hall, hopened.append hwrites.relogged htried,
          .of_marked hwrites (List.cons_ne_nil id ids) hmarked⟩
      · intro e r' hhalted hr _
        have hr' : Run.Unhindered (id :: ids)
            { r with database := db, writesLeft := r.writesLeft.map (· - 1) } :=
          hr.later (List.Subset.refl _) hwrites.relogged (by simp [hr.uncut])
        obtain ⟨trials, last, reason, hids, hall, hfailed, rfl, htried, hmarked⟩ := hhalted hr'
        exact ⟨trials, last, reason, hids, hall, hfailed, rfl,
          hopened.append hwrites.relogged htried,
          .of_marked hwrites (List.cons_ne_nil id ids) hmarked⟩
    · intro e hrefused hr hfree
      cases ht.symm.trans (hrefused hr.uncut hfree)

/-- Where all documents can be read, so can each one that is stored under some id. -/
theorem document?_of_readable {db : Database} {t : Tables} (ht : db.contents.tables = some t)
    (hreadable : ∀ row ∈ t.rows, row.document?.isSome) {id : Nat} (hid : id ∈ t.ids) :
    ∃ d, Access.document? id db = .ok (some d) db := by
  obtain ⟨row, hrow, rfl⟩ := List.mem_map.mp hid
  have hfound : (t.row? row.id).isSome := by
    rw [Tables.row?, List.find?_isSome]
    exact ⟨row, hrow, beq_self_eq_true _⟩
  obtain ⟨found, hfound⟩ := Option.isSome_iff_exists.mp hfound
  obtain ⟨d, hd⟩ := Option.isSome_iff_exists.mp (hreadable found (List.mem_of_find?_eq_some hfound))
  exact ⟨d, by simp only [Access.document?, Access.look, ht, hfound, hd]⟩

/-- Parsing documents, whatever the parser says at its calls.  It is called with the documents
behind the mark in the order of their ids, with each until it takes the document, at most once more
than the settings say.  If it takes them all, their number is what is yielded; if not, parsing stops
with the last reason that it gave, and no further document is tried.  The mark stands at the last
document that was taken.  Where the mark cannot be read, nothing is done.  The rows stand in the
order of their ids, as always (`Tables.Numbered`). -/
theorem parseDocuments_trials (pl : Pipeline σ) {r : Run σ} {t : Tables}
    (ht : r.database.contents.tables = some t) (hids : t.ids.Pairwise (· < ·))
    (hreadable : ∀ row ∈ t.rows, row.document?.isSome) (huncut : r.writesLeft = none)
    (hmark : parsedKey ∉ r.database.contents.rejected)
    (hflag : Stage.grammaticalProcessing.flagKey ∉ r.database.contents.rejected) :
    match latestParsed r.database with
    | .error e _ => pl.parseDocuments r = .error (.store e) r
    | .ok mark _ => ∃ pending : List Nat, pending.Pairwise (· < ·) ∧
      (∀ id, id ∈ pending ↔ id ∈ t.ids ∧ mark < (id : Int)) ∧
      match pl.parseDocuments r with
      | .ok n r' => n = pending.length ∧ pl.Took pending (Database.Parsed pending) r r'
      | .error e r' => pl.Halted pending (Database.Parsed pending) e r r' := by
  obtain ⟨mark, hread⟩ | ⟨e, hread⟩ := Database.latestParsed_cases r.database
  · have hmem : ∀ id, id ∈ behind t mark ↔ id ∈ t.ids ∧ mark < (id : Int) := by
      simp [behind]
    have hr : r.Unhindered (behind t mark) :=
      ⟨huncut, hmark, fun id hid => document?_of_readable ht hreadable ((hmem id).mp hid).1⟩
    have hends := tries_parseDocuments pl ht hread
    rw [hread]
    refine ⟨behind t mark, hids.sublist List.filter_sublist, hmem, ?_⟩
    unfold Ends at hends
    cases hrun : pl.parseDocuments r with
    | ok n r' =>
      rw [hrun] at hends
      exact hends
    | error e r' =>
      rw [hrun] at hends
      exact hends hr hflag
  · rw [hread]
    simp only [parseDocuments, bind, EStateM.bind, consult, pending_error hread]

/-- A parser that says what stands next in a list: why it refuses the document, or that it takes
it. -/
def recited : Parser (List (Option String)) := fun _ answers =>
  match answers with
  | [] => (.ok (), [])
  | none :: later => (.ok (), later)
  | some reason :: later => (.error reason, later)

/-- Three documents, of which the first is parsed. -/
def oneParsed : Tables :=
  let d : Document := ⟨"text", ⟨"text", [], [], [⟨"One.", []⟩]⟩⟩
  (Tables.empty.add "a.xml" [d, d, d]).log ⟨parsedKey, "1", .update⟩

/-- The second document is taken when it is tried again, the third is not. -/
theorem parseDocuments_trials_recited :
    let pl : Pipeline (List (Option String)) :=
      ⟨{ Config.default with parserRetries := 1 },
        ⟨.nested ⟨"text", ["text"], []⟩ [], .punctuation, true⟩, ⟨"texts", none⟩, recited⟩
    let r : Run (List (Option String)) :=
      .start (.ofContents ⟨some [.initial], some oneParsed, []⟩)
        [some "a", none, some "b", some "c", none]
    ∃ pending r', pl.parseDocuments r = .error (.parsing 3 "c") r' ∧
      r'.calls = [(2, false), (2, true), (3, false), (3, false)] ∧
      pl.Halted pending (Database.Parsed pending) (.parsing 3 "c") r r' := by
  intro pl r
  have hids : oneParsed.ids = [1, 2, 3] := rfl
  have hread : (match latestParsed r.database with | .ok mark _ => mark | .error _ _ => 0) = 1 := by
    decide +kernel
  -- Reading the documents is slow, so it is done once for both.
  obtain ⟨hreadable, hrun⟩ : (∀ row ∈ oneParsed.rows, row.document?.isSome) ∧
      (match pl.parseDocuments r with
        | .ok _ _ => none
        | .error e r' => some (e, r'.calls)) =
        some (.parsing 3 "c", [(2, false), (2, true), (3, false), (3, false)]) := by
    decide +kernel
  have htrials := parseDocuments_trials pl (r := r) (t := oneParsed) rfl (by simp [hids])
    hreadable rfl (by decide) (by decide)
  -- From here on it does not matter what the pipeline and the run are.
  clear_value pl r
  cases hmark : latestParsed r.database with
  | error e db =>
    rw [hmark] at hread
    cases hread
  | ok mark db =>
    rw [hmark] at htrials
    obtain ⟨pending, -, -, hhalted⟩ := htrials
    cases hresult : pl.parseDocuments r with
    | ok n r' =>
      rw [hresult] at hrun
      cases hrun
    | error e r' =>
      rw [hresult] at hrun hhalted
      obtain ⟨rfl, hcalls⟩ := Prod.mk.inj (Option.some.inj hrun)
      exact ⟨pending, r', rfl, hcalls, hhalted⟩

end Pipeline

end XmlHarvest

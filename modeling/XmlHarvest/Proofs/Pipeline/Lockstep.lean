/-
Two runs side by side.

A computation goes in lockstep along a relation between its states if, begun in two related states,
it ends with the same value or stops with the same error, and in related states again (`Lockstep`).
This passes through `>>=`, so it is enough to look at the accesses that a run makes: where they go
in lockstep along a relation between databases, two runs of a pipeline do, which then also call the
parser with the same documents (`Pipeline.lockstep_process`).  A run goes in lockstep with itself
where its accesses keep a property of the database, and then the run keeps it (`Step.Keeps.ends`).
-/
import XmlHarvest.Proofs.Pipeline.Ends

namespace XmlHarvest

open Checkpoint

/-! ### Computations -/

section Computations

variable {ε σ α β : Type} {R : σ → σ → Prop}

/-- The same value or the same error, in states that are related. -/
inductive SameOutcome (R : σ → σ → Prop) : EStateM.Result ε σ α → EStateM.Result ε σ α → Prop
  | ok {a : α} {s s' : σ} (related : R s s') : SameOutcome R (.ok a s) (.ok a s')
  | error {e : ε} {s s' : σ} (related : R s s') : SameOutcome R (.error e s) (.error e s')

/-- Begun in related states, the computation comes to the same. -/
def Lockstep (R : σ → σ → Prop) (x : EStateM ε σ α) : Prop :=
  ∀ ⦃s s'⦄, R s s' → SameOutcome R (x s) (x s')

theorem lockstep_pure (a : α) : Lockstep R (pure a : EStateM ε σ α) := fun _ _ h => .ok h

theorem lockstep_throw (e : ε) : Lockstep R (throw e : EStateM ε σ α) := fun _ _ h => .error h

theorem lockstep_bind {x : EStateM ε σ α} {f : α → EStateM ε σ β} (hx : Lockstep R x)
    (hf : ∀ a, Lockstep R (f a)) : Lockstep R (x >>= f) := by
  intro s s' h
  have hsame := hx h
  simp only [bind, EStateM.bind]
  generalize x s = result at hsame ⊢
  generalize x s' = result' at hsame ⊢
  cases hsame with
  | ok related => exact hf _ related
  | error related => exact .error related

theorem lockstep_map {x : EStateM ε σ α} (hx : Lockstep R x) (f : α → β) :
    Lockstep R (f <$> x) :=
  lockstep_bind hx fun a => lockstep_pure (f a)

end Computations

/-! ### Accesses of a run -/

/-- One and the same database, and it has a property. -/
def Database.SameWith (I : Database → Prop) (db db' : Database) : Prop := db = db' ∧ I db

/-- An access that keeps a property of the database goes in lockstep with itself. -/
theorem lockstep_of_keeps {α : Type} {I : Database → Prop} {access : Access α}
    (h : Access.Keeps I access) : Lockstep (Database.SameWith I) access := by
  rintro db _ ⟨rfl, hdb⟩
  have hleft := h db hdb
  unfold Access.left at hleft
  cases hresult : access db with
  | ok a db' =>
    rw [hresult] at hleft
    exact .ok ⟨rfl, hleft⟩
  | error e db' =>
    rw [hresult] at hleft
    exact .error ⟨rfl, hleft⟩

/-- The keys of the ledger that a run reads and writes. -/
def Checkpoint.ownKeys : List String := recordedKey :: parsedKey :: Stage.all.map Stage.flagKey

theorem Stage.flagKey_mem_ownKeys (s : Stage) : s.flagKey ∈ ownKeys := by
  cases s <;> simp [ownKeys, Stage.all]

section Reading

variable {R : Database → Database → Prop}

theorem lockstep_stageDone (h : ∀ key ∈ ownKeys, Lockstep R (Access.ledgerValue key)) (s : Stage) :
    Lockstep R (stageDone s) :=
  lockstep_map (h _ s.flagKey_mem_ownKeys) _

theorem lockstep_pending (h : ∀ key ∈ ownKeys, Lockstep R (Access.ledgerValue key))
    (hids : Lockstep R Access.ids) : Lockstep R Pipeline.pending := by
  refine lockstep_bind ?_ fun _ => lockstep_bind hids fun _ => lockstep_pure _
  refine lockstep_bind (h _ (by simp [ownKeys])) fun text => ?_
  dsimp only
  split
  · exact lockstep_pure _
  · split
    · exact lockstep_pure _
    · exact lockstep_throw _

end Reading

/-- The accesses that a run makes go in lockstep along a relation between databases. -/
structure AccessesLockstep (R : Database → Database → Prop) : Prop where
  ledgerValue : ∀ key ∈ ownKeys, Lockstep R (Access.ledgerValue key)
  log : ∀ w : LedgerWrite, w.key ∈ ownKeys → Lockstep R (Access.log w)
  saveLogged : ∀ source ds, ∀ w : LedgerWrite, w.key ∈ ownKeys →
    Lockstep R (Access.saveLogged source ds w)
  ids : Lockstep R Access.ids
  document? : ∀ id, Lockstep R (Access.document? id)

namespace AccessesLockstep

variable {R : Database → Database → Prop}

theorem stageDone (h : AccessesLockstep R) (s : Stage) : Lockstep R (stageDone s) :=
  lockstep_stageDone h.ledgerValue s

theorem setStage (h : AccessesLockstep R) (s : Stage) (done : Bool) :
    Lockstep R (setStage s done) :=
  h.log _ s.flagKey_mem_ownKeys

theorem fileRecorded (h : AccessesLockstep R) (index : Nat) : Lockstep R (fileRecorded index) :=
  lockstep_map (h.ledgerValue _ (by simp [ownKeys])) _

theorem recordFile (h : AccessesLockstep R) (index : Nat) (name : String) (ds : List Document) :
    Lockstep R (recordFile index name ds) :=
  h.saveLogged name ds _ (by simp [ownKeys])

theorem setLatestParsed (h : AccessesLockstep R) (id : Int) : Lockstep R (setLatestParsed id) :=
  h.log _ (by simp [ownKeys])

theorem pending (h : AccessesLockstep R) : Lockstep R Pipeline.pending :=
  lockstep_pending h.ledgerValue h.ids

end AccessesLockstep

/-! ### Steps of a run -/

section Steps

variable {σ α : Type} {R : Database → Database → Prop}

/-- The databases of two runs are related, and the runs have called the parser with the same ids to
the same effect, left it in the same state, and have as many writes left.  A parser may keep in its
state all that it is called with, so they have called it with the same documents, too. -/
structure Run.Beside (R : Database → Database → Prop) (r r' : Run σ) : Prop where
  database : R r.database r'.database
  parser : r.parser = r'.parser
  calls : r.calls = r'.calls
  writesLeft : r.writesLeft = r'.writesLeft

theorem lockstep_consult {access : Access α} (h : Lockstep R access) :
    Lockstep (Run.Beside (σ := σ) R) (consult access) := by
  intro r r' hr
  have hsame := h hr.database
  unfold consult
  generalize access r.database = result at hsame ⊢
  generalize access r'.database = result' at hsame ⊢
  cases hsame with
  | ok related => exact .ok ⟨related, hr.parser, hr.calls, hr.writesLeft⟩
  | error related => exact .error ⟨related, hr.parser, hr.calls, hr.writesLeft⟩

theorem lockstep_commit {access : Access α} (h : Lockstep R access) :
    Lockstep (Run.Beside (σ := σ) R) (commit access) := by
  intro r r' hr
  have hsame := h hr.database
  unfold commit
  rw [← hr.writesLeft]
  split
  · exact .error hr
  · generalize access r.database = result at hsame ⊢
    generalize access r'.database = result' at hsame ⊢
    cases hsame with
    | ok related => exact .ok ⟨related, hr.parser, hr.calls, rfl⟩
    | error related => exact .error ⟨related, hr.parser, hr.calls, rfl⟩

theorem lockstep_callParser (parser : Parser σ) (d : StoredDocument) :
    Lockstep (Run.Beside R) (callParser parser d) := by
  intro r r' hr
  unfold callParser
  rw [← hr.parser, ← hr.calls]
  exact .ok ⟨hr.database, rfl, rfl, hr.writesLeft⟩

/-- The step keeps a property of the database: where this has it, two runs go in lockstep on it. -/
def Step.Keeps (I : Database → Prop) (x : Step σ α) : Prop :=
  Lockstep (Run.Beside (Database.SameWith I)) x

theorem Step.Keeps.ends {I : Database → Prop} {x : Step σ α} (h : Step.Keeps I x) {r : Run σ}
    (hr : I r.database) :
    Step.Ends x r (fun _ r' => I r'.database) fun _ r' => I r'.database := by
  have hsame := h (s := r) ⟨⟨rfl, hr⟩, rfl, rfl, rfl⟩
  unfold Step.Ends
  generalize x r = result at hsame ⊢
  cases hsame with
  | ok related => exact related.database.2
  | error related => exact related.database.2

end Steps

/-! ### Runs -/

namespace Pipeline

variable {σ α : Type} {R : Database → Database → Prop} {pl : Pipeline σ}

theorem lockstep_recordOne (h : AccessesLockstep R) (index : Nat) (name : String)
    (content : Option String) : Lockstep (Run.Beside R) (pl.recordOne index name content) := by
  refine lockstep_bind (lockstep_commit (h.setStage _ _)) fun _ => ?_
  split
  · exact lockstep_throw _
  · exact lockstep_bind (lockstep_commit (h.recordFile _ _ _)) fun _ => lockstep_pure _

theorem lockstep_recordFrom (h : AccessesLockstep R) (files : List (String × Option String)) :
    ∀ index, Lockstep (Run.Beside R) (pl.recordFrom index files) := by
  induction files with
  | nil => exact fun _ => lockstep_pure _
  | cons file files ih =>
    intro index
    refine lockstep_bind (lockstep_consult (h.fileRecorded index)) fun recorded => ?_
    split
    · exact ih (index + 1)
    · refine lockstep_bind (lockstep_recordOne h _ _ _) fun _ => ?_
      exact lockstep_bind (ih (index + 1)) fun _ => lockstep_pure _

theorem lockstep_extractRecord (h : AccessesLockstep R) :
    Lockstep (Run.Beside R) pl.extractRecord := by
  unfold extractRecord
  split
  · exact lockstep_throw _
  · next files _ =>
    refine lockstep_bind (lockstep_recordFrom h files 1) fun _ => ?_
    exact lockstep_bind (lockstep_commit (h.setStage _ _)) fun _ => lockstep_pure _

theorem lockstep_parseWithin (parser : Parser σ) (d : StoredDocument) (retries : Nat) :
    Lockstep (Run.Beside R) (parseWithin parser d retries) := by
  induction retries with
  | zero =>
    refine lockstep_bind (lockstep_callParser parser d) fun verdict => ?_
    cases verdict with
    | ok => exact lockstep_pure _
    | error reason => exact lockstep_throw _
  | succ retries ih =>
    refine lockstep_bind (lockstep_callParser parser d) fun verdict => ?_
    cases verdict with
    | ok => exact lockstep_pure _
    | error reason => exact ih

theorem lockstep_parseOne {id : Nat} (hdocument : Lockstep R (Access.document? id))
    (hmark : Lockstep R (setLatestParsed id)) : Lockstep (Run.Beside R) (pl.parseOne id) := by
  refine lockstep_bind (lockstep_consult hdocument) fun found => ?_
  cases found with
  | none => exact lockstep_throw _
  | some d =>
    exact lockstep_bind (lockstep_parseWithin _ d _) fun _ => lockstep_commit hmark

theorem lockstep_parseEach (hdocument : ∀ id, Lockstep R (Access.document? id))
    (hmark : ∀ id, Lockstep R (setLatestParsed id)) (ids : List Nat) :
    Lockstep (Run.Beside R) (pl.parseEach ids) := by
  induction ids with
  | nil => exact lockstep_pure _
  | cons id ids ih =>
    exact lockstep_bind (lockstep_parseOne (hdocument id) (hmark id)) fun _ => ih

theorem lockstep_parseDocuments (hpending : Lockstep R pending)
    (hopen : Lockstep R (setStage .grammaticalProcessing false))
    (hdocument : ∀ id, Lockstep R (Access.document? id))
    (hmark : ∀ id, Lockstep R (setLatestParsed id)) :
    Lockstep (Run.Beside R) pl.parseDocuments := by
  refine lockstep_bind (lockstep_consult hpending) fun ids => ?_
  split
  · exact lockstep_pure _
  · refine lockstep_bind (lockstep_commit hopen) fun _ => ?_
    exact lockstep_bind (lockstep_parseEach hdocument hmark ids) fun _ => lockstep_pure _

theorem lockstep_finishParsing (hpending : Lockstep R pending)
    (hclose : Lockstep R (setStage .grammaticalProcessing true)) :
    Lockstep (Run.Beside (σ := σ) R) finishParsing := by
  refine lockstep_bind (lockstep_consult hpending) fun ids => ?_
  split
  · exact lockstep_commit hclose
  · exact lockstep_throw _

theorem lockstep_unlessDone {s : Stage} {work : Step σ α} (hdone : Lockstep R (stageDone s))
    (hwork : Lockstep (Run.Beside R) work) : Lockstep (Run.Beside R) (unlessDone s work) := by
  refine lockstep_bind (lockstep_consult hdone) fun done => ?_
  split
  · exact lockstep_pure _
  · exact lockstep_bind hwork fun _ => lockstep_pure _

theorem lockstep_flagOnly {s : Stage} (hdone : Lockstep R (stageDone s))
    (hset : Lockstep R (setStage s true)) : Lockstep (Run.Beside (σ := σ) R) (flagOnly s) :=
  lockstep_unlessDone hdone (lockstep_commit hset)

theorem lockstep_ifAsked {asked : Bool} {work : Step σ (Option α)}
    (hwork : Lockstep (Run.Beside R) work) : Lockstep (Run.Beside R) (ifAsked asked work) := by
  unfold ifAsked
  split
  · exact hwork
  · exact lockstep_pure _

/-- Where the accesses of a run go in lockstep, the run does. -/
theorem lockstep_process (h : AccessesLockstep R) :
    Lockstep (Run.Beside R) (pl.process false) := by
  have hflag : ∀ stage, Lockstep (Run.Beside (σ := σ) R) (flagOnly stage) := fun stage =>
    lockstep_flagOnly (h.stageDone stage) (h.setStage stage true)
  have hparsing : Lockstep (Run.Beside R) (do
      let count ← pl.parseDocuments
      finishParsing
      return count) :=
    lockstep_bind (lockstep_parseDocuments h.pending (h.setStage _ _) (fun id => h.document? id)
      fun id => h.setLatestParsed id) fun _ =>
        lockstep_bind (lockstep_finishParsing h.pending (h.setStage _ _)) fun _ => lockstep_pure _
  refine lockstep_bind (lockstep_unlessDone (h.stageDone _) (lockstep_extractRecord h)) fun _ => ?_
  refine lockstep_bind (lockstep_ifAsked (lockstep_unlessDone (h.stageDone _) hparsing)) fun _ => ?_
  refine lockstep_bind (hflag .wordCounts) fun _ => ?_
  refine lockstep_bind (hflag .tfidf) fun _ => ?_
  refine lockstep_bind (lockstep_ifAsked (hflag .wordSimilarity)) fun _ => ?_
  exact lockstep_pure _

end Pipeline

end XmlHarvest

/-
What a run that ends leaves for the next one.

A run that ends leaves every stage done that its settings ask for, whatever the ledger said before
(`Pipeline.leaves_process`): each stage sets its own flag at its end, or finds it set, and no stage
takes back the flag of another.  So the next run with these settings has nothing to do, whatever it
would extract, and from whatever files (`Pipeline.process_finished`).
-/
import XmlHarvest.Proofs.Checkpoint.Texts
import XmlHarvest.Proofs.Pipeline.Lockstep
import XmlHarvest.Proofs.Pipeline.Operations

namespace XmlHarvest

open Checkpoint

variable {σ τ α β : Type}

/-! ### Stages that are done -/

/-- The stages that a run with these settings goes through. -/
def Config.asks (c : Config) : Stage → Bool
  | .textAndMetadata | .wordCounts | .tfidf => true
  | .grammaticalProcessing => c.needsParsing
  | .wordSimilarity => c.wordToWordSimilarity

namespace Database

/-- The ledger says that the stage is done. -/
def Done (db : Database) (s : Stage) : Prop := stageDone s db = .ok true db

/-- All stages are done that the settings ask for. -/
def Finished (db : Database) (c : Config) : Prop := ∀ s, c.asks s = true → db.Done s

variable {db db' : Database} {s : Stage}

theorem stageDone_eq {t : Tables} (ht : db.contents.tables = some t) (s : Stage) :
    stageDone s db = .ok (saysDone (Ledger.value t.ledger s.flagKey)) db := by
  simp only [stageDone, Functor.map, EStateM.map, Access.ledgerValue, Access.look, ht]

theorem done_iff : db.Done s ↔ ∃ t, db.contents.tables = some t ∧
    saysDone (Ledger.value t.ledger s.flagKey) = true := by
  unfold Done
  cases ht : db.contents.tables with
  | none =>
    simp [stageDone, Functor.map, EStateM.map, Access.ledgerValue, Access.look, ht]
  | some t =>
    rw [stageDone_eq ht]
    simp

theorem done_of_stageDone (h : stageDone s db = .ok true db') : db'.Done s := by
  cases ht : db.contents.tables with
  | none =>
    simp [stageDone, Functor.map, EStateM.map, Access.ledgerValue, Access.look, ht] at h
  | some t =>
    obtain ⟨-, rfl⟩ := EStateM.Result.ok.inj ((stageDone_eq ht s).symm.trans h)
    exact h

/-- Whether a stage is done depends on the tables only. -/
theorem Done.congr (h : db.Done s) (htables : db'.contents.tables = db.contents.tables) :
    db'.Done s := by
  rw [done_iff] at h ⊢
  rwa [htables]

/-! ### Writes -/

theorem saysDone_write_setStage (l : Ledger) (s : Stage) :
    saysDone (Ledger.value (Ledger.write l ⟨s.flagKey, flagText true, .replace⟩) s.flagKey) =
      true := by
  have hvalue := Ledger.value_write_same l ⟨s.flagKey, flagText true, .replace⟩
  rw [hvalue, WriteMode.combine, saysDone_flagText]

/-- A stage whose flag has been set is done. -/
theorem done_of_setStage (h : setStage s true db = .ok () db') : db'.Done s := by
  rw [setStage, Access.log] at h
  obtain ⟨t, t', -, hdone, rfl⟩ := Access.alter_eq_ok h
  split at hdone
  · cases hdone
  · obtain rfl : t.log ⟨s.flagKey, flagText true, .replace⟩ = t' := by simpa using hdone
    exact done_iff.mpr ⟨_, rfl, saysDone_write_setStage t.ledger s⟩

/-- A write to the ledger that leaves a flag set leaves the stage done. -/
theorem keeps_log {w : LedgerWrite}
    (hw : ∀ l : Ledger, saysDone (Ledger.value l s.flagKey) = true →
      saysDone (Ledger.value (Ledger.write l w) s.flagKey) = true) :
    Access.Keeps (fun db => db.Done s) (Access.log w) := by
  intro db h
  obtain ⟨t, ht, hdone⟩ := done_iff.mp h
  unfold Access.left
  rw [Access.log_eq ht]
  cases db.contents.rejects w with
  | true => exact h
  | false => exact done_iff.mpr ⟨t.log w, rfl, hw t.ledger hdone⟩

theorem keeps_log_other {w : LedgerWrite} (hkey : s.flagKey ≠ w.key) :
    Access.Keeps (fun db => db.Done s) (Access.log w) := by
  refine keeps_log fun l hl => ?_
  rwa [Ledger.value_write_other l w hkey]

/-- Setting any flag leaves a stage done. -/
theorem keeps_setStage_true (s s' : Stage) :
    Access.Keeps (fun db => db.Done s) (setStage s' true) := by
  by_cases hs : s = s'
  · subst hs
    exact keeps_log fun l _ => saysDone_write_setStage l s
  · exact keeps_log_other fun hkey => hs (Stage.flagKey_injective hkey)

/-- Taking back the flag of another stage leaves a stage done. -/
theorem keeps_setStage_false {s' : Stage} (hs : s ≠ s') :
    Access.Keeps (fun db => db.Done s) (setStage s' false) :=
  keeps_log_other fun hkey => hs (Stage.flagKey_injective hkey)

theorem keeps_setLatestParsed (s : Stage) (id : Int) :
    Access.Keeps (fun db => db.Done s) (setLatestParsed id) :=
  keeps_log_other s.flagKey_ne_parsedKey

end Database

/-! ### Steps -/

namespace Step

variable {I : Database → Prop} {r : Run σ}

theorem bind_eq_of_ok {x : Step σ β} {f : β → Step σ α} {b : β} {r' : Run σ} (h : x r = .ok b r') :
    (x >>= f) r = f b r' := by
  simp only [bind, EStateM.bind, h]

/-- If the step ends, the database that it leaves has the property. -/
def Leaves (x : Step σ α) (r : Run σ) (I : Database → Prop) : Prop :=
  Ends x r (fun _ r' => I r'.database) fun _ _ => True

theorem Keeps.leaves {x : Step σ α} (h : Keeps I x) (hr : I r.database) : Leaves x r I :=
  (h.ends hr).mono (fun _ _ h => h) fun _ _ _ => trivial

theorem leaves_pure {a : α} (h : I r.database) : Leaves (pure a) r I := h

theorem Leaves.bind {J : Database → Prop} {x : Step σ β} {f : β → Step σ α} (hx : Leaves x r J)
    (hf : ∀ b r', J r'.database → Leaves (f b) r' I) : Leaves (x >>= f) r I :=
  ends_bind.mpr (hx.mono hf fun _ _ h => h)

/-- What a step leaves that comes last. -/
theorem leaves_bind {x : Step σ β} {f : β → Step σ α} (hf : ∀ b r', Leaves (f b) r' I) :
    Leaves (x >>= f) r I := by
  have hx : Leaves x r fun _ => True := by
    unfold Leaves Ends
    cases x r <;> trivial
  exact hx.bind fun b r' _ => hf b r'

theorem leaves_commit {access : Access α} (h : ∀ a db, access r.database = .ok a db → I db) :
    Leaves (commit access) r I := by
  unfold Leaves Ends commit
  by_cases hcut : r.writesLeft = some 0
  · rw [if_pos hcut]
    trivial
  · rw [if_neg hcut]
    cases hresult : access r.database with
    | ok a db => exact h a db hresult
    | error e db => trivial

end Step

/-! ### Stages -/

namespace Pipeline

open Step

variable {pl : Pipeline σ} {I : Database → Prop} {s : Stage} {r : Run σ}

/-- Looking a stage up changes nothing. -/
theorem stageDone_sameWith (I : Database → Prop) (s : Stage) :
    Lockstep (Database.SameWith I) (stageDone s) :=
  lockstep_stageDone (fun _ _ => lockstep_of_keeps (Access.keeps_look _ _)) s

/-- Nor does looking for the pending documents. -/
theorem pending_sameWith (I : Database → Prop) : Lockstep (Database.SameWith I) pending :=
  lockstep_pending (fun _ _ => lockstep_of_keeps (Access.keeps_look _ _))
    (lockstep_of_keeps (Access.keeps_look _ _))

/-- The work of the parsing stage. -/
def parsing (pl : Pipeline σ) : Step σ Nat :=
  pl.parseDocuments >>= fun count => finishParsing >>= fun _ => pure count

/-- Parsing takes back the flag of its own stage only. -/
theorem keeps_parsing (hs : s ≠ .grammaticalProcessing) :
    Keeps (fun db => db.Done s) pl.parsing := by
  have hpending := pending_sameWith fun db => db.Done s
  have hopen := lockstep_of_keeps (Database.keeps_setStage_false hs)
  have hclose := lockstep_of_keeps (Database.keeps_setStage_true s .grammaticalProcessing)
  refine lockstep_bind (lockstep_parseDocuments hpending hopen ?_ ?_) fun _ => ?_
  · exact fun _ => lockstep_of_keeps (Access.keeps_look _ _)
  · exact fun id => lockstep_of_keeps (Database.keeps_setLatestParsed s id)
  · exact lockstep_bind (lockstep_finishParsing hpending hclose) fun _ => lockstep_pure _

theorem keeps_unlessDone {work : Step σ α} (hwork : Keeps I work) : Keeps I (unlessDone s work) :=
  lockstep_unlessDone (stageDone_sameWith I s) hwork

theorem keeps_flagOnly (s s' : Stage) : Keeps (σ := σ) (fun db => db.Done s') (flagOnly s) :=
  lockstep_flagOnly (stageDone_sameWith _ s)
    (lockstep_of_keeps (Database.keeps_setStage_true s' s))

theorem leaves_setStage (s : Stage) (r : Run σ) :
    Leaves (commit (setStage s true)) r fun db => db.Done s :=
  leaves_commit fun _ _ h => Database.done_of_setStage h

theorem leaves_extractRecord (r : Run σ) :
    Leaves pl.extractRecord r fun db => db.Done .textAndMetadata := by
  unfold extractRecord
  split
  · trivial
  · refine leaves_bind fun _ r' => ?_
    exact (leaves_setStage _ r').bind fun _ _ h => leaves_pure h

theorem leaves_finishParsing (r : Run σ) :
    Leaves finishParsing r fun db => db.Done .grammaticalProcessing := by
  refine leaves_bind fun ids r' => ?_
  split
  · exact leaves_setStage _ r'
  · trivial

/-- A stage is done when it is over, whether it had to be done or was. -/
theorem leaves_unlessDone {work : Step σ α} (hwork : ∀ r, Leaves work r fun db => db.Done s)
    (r : Run σ) : Leaves (unlessDone s work) r fun db => db.Done s := by
  have hlooked : Ends (consult (stageDone s)) r
      (fun done r' => done = true → r'.database.Done s) fun _ _ => True := by
    unfold Ends consult
    cases hresult : stageDone s r.database with
    | error e db => trivial
    | ok done db =>
      rintro rfl
      exact Database.done_of_stageDone hresult
  refine ends_bind.mpr (hlooked.mono ?_ fun _ _ h => h)
  intro done r' hdone
  cases done with
  | true => exact hdone rfl
  | false =>
    show Leaves (work >>= fun a => pure (some a)) r' fun db => db.Done s
    refine Leaves.bind (hwork r') ?_
    intro a r'' h
    exact leaves_pure h

/-- The stages of a list that a run is to go through are done. -/
def DoneAmong (c : Config) (stages : List Stage) (db : Database) : Prop :=
  ∀ s ∈ stages, c.asks s = true → db.Done s

/-- A stage is done after those that were done before it, where it is asked for. -/
theorem leaves_stage {c : Config} {stages : List Stage} {work : Step σ (Option α)}
    (hwork : ∀ r, Leaves work r fun db => db.Done s)
    (hkeeps : ∀ s' ∈ stages, Keeps (fun db => db.Done s') work)
    (hr : DoneAmong c stages r.database) :
    Leaves (ifAsked (c.asks s) work) r (DoneAmong c (s :: stages)) := by
  unfold ifAsked
  cases hasked : c.asks s with
  | false =>
    refine List.forall_mem_cons.mpr ⟨fun h => ?_, hr⟩
    rw [hasked] at h
    cases h
  | true =>
    have hself := hwork r
    have hothers : ∀ s' ∈ stages, c.asks s' = true → Leaves work r fun db => db.Done s' :=
      fun s' hs' h => (hkeeps s' hs').leaves (hr s' hs' h)
    simp only [if_true, Leaves, Ends] at hself hothers ⊢
    cases hresult : work r with
    | error e r' => trivial
    | ok a r' =>
      rw [hresult] at hself
      refine List.forall_mem_cons.mpr ⟨fun _ => hself, fun s' hs' h => ?_⟩
      have hother := hothers s' hs' h
      rwa [hresult] at hother

theorem leaves_parsing (r : Run σ) :
    Leaves pl.parsing r fun db => db.Done .grammaticalProcessing := by
  refine leaves_bind fun count r' => Leaves.bind (leaves_finishParsing r') ?_
  intro _ r'' h
  exact leaves_pure h

theorem leaves_flagOnly (s : Stage) (r : Run σ) : Leaves (flagOnly s) r fun db => db.Done s :=
  leaves_unlessDone (leaves_setStage s) r

/-- A run that ends leaves all stages done that its settings ask for, whatever the ledger said
before. -/
theorem leaves_process_false (pl : Pipeline σ) (r : Run σ) :
    Leaves (pl.process false) r fun db => db.Finished pl.config := by
  have htext : Leaves (ifAsked (pl.config.asks .textAndMetadata)
      (unlessDone .textAndMetadata pl.extractRecord)) r
      (DoneAmong pl.config [.textAndMetadata]) :=
    leaves_stage (leaves_unlessDone leaves_extractRecord) (fun _ h => nomatch h) fun _ h => nomatch h
  refine Leaves.bind htext fun recorded r h => ?_
  have hparsing : Leaves (ifAsked (pl.config.asks .grammaticalProcessing)
      (unlessDone .grammaticalProcessing pl.parsing)) r
      (DoneAmong pl.config [.grammaticalProcessing, .textAndMetadata]) := by
    refine leaves_stage (leaves_unlessDone leaves_parsing) ?_ h
    rw [List.forall_mem_singleton]
    exact keeps_unlessDone (keeps_parsing (by decide))
  refine Leaves.bind hparsing fun parsed r h => ?_
  have hcounts := leaves_stage (leaves_flagOnly .wordCounts) (fun s _ => keeps_flagOnly _ s) h
  refine Leaves.bind hcounts fun counts r h => ?_
  have htfidf := leaves_stage (leaves_flagOnly .tfidf) (fun s _ => keeps_flagOnly _ s) h
  refine Leaves.bind htfidf fun tfidf r h => ?_
  have hsimilarity := leaves_stage (leaves_flagOnly .wordSimilarity)
    (fun s _ => keeps_flagOnly _ s) h
  refine Leaves.bind hsimilarity fun similarity r h => ?_
  refine leaves_pure fun s => h s ?_
  cases s <;> simp

theorem leaves_process (pl : Pipeline σ) (scratch : Bool) (r : Run σ) :
    Leaves (pl.process scratch) r fun db => db.Finished pl.config := by
  cases scratch with
  | false => exact leaves_process_false pl r
  | true =>
    rw [process_scratch]
    exact leaves_bind fun _ r' => leaves_process_false pl r'

/-! ### The next run -/

/-- A stage that is done, or that is not asked for, is left out. -/
theorem ifAsked_finished {c : Config} (h : r.database.Finished c) (s : Stage) (work : Step σ α) :
    ifAsked (c.asks s) (unlessDone s work) r = .ok none r := by
  unfold ifAsked
  cases hasked : c.asks s with
  | false => rfl
  | true =>
    have hdone : stageDone s r.database = .ok true r.database := h s hasked
    simp only [if_true, unlessDone, bind, EStateM.bind, consult, hdone]
    rfl

/-- A run that finds all stages done does nothing. -/
theorem process_of_finished (h : r.database.Finished pl.config) :
    pl.process false r = .ok ⟨0, 0, 0, []⟩ r := by
  have htext : unlessDone .textAndMetadata pl.extractRecord r = .ok none r :=
    ifAsked_finished h .textAndMetadata _
  have hparsing : ifAsked pl.config.needsParsing (unlessDone .grammaticalProcessing pl.parsing) r =
      .ok none r := ifAsked_finished h .grammaticalProcessing _
  have hcounts : flagOnly .wordCounts r = .ok none r := ifAsked_finished h .wordCounts _
  have htfidf : flagOnly .tfidf r = .ok none r := ifAsked_finished h .tfidf _
  have hsimilarity : ifAsked pl.config.wordToWordSimilarity (flagOnly .wordSimilarity) r =
      .ok none r := ifAsked_finished h .wordSimilarity _
  refine (bind_eq_of_ok htext).trans ?_
  refine (bind_eq_of_ok hparsing).trans ?_
  refine (bind_eq_of_ok hcounts).trans ?_
  refine (bind_eq_of_ok htfidf).trans ?_
  refine (bind_eq_of_ok hsimilarity).trans ?_
  rfl

/-- A run that ends has left nothing to the next one with its settings.  Whatever this would
extract, from whatever files, and whatever parser it has, it does nothing: it calls the parser with
no document, and the database stays as it is. -/
theorem process_finished {pl' : Pipeline τ} {scratch : Bool} {s : Summary} {r' : Run σ}
    {r'' : Run τ} (hends : pl.process scratch r = .ok s r') (hconfig : pl'.config = pl.config)
    (htables : r''.database.contents.tables = r'.database.contents.tables) :
    pl'.process false r'' = .ok ⟨0, 0, 0, []⟩ r'' := by
  have hfinished : r'.database.Finished pl.config := by
    have hleaves := leaves_process pl scratch r
    rwa [Leaves, Ends, hends] at hleaves
  refine process_of_finished fun stage hasked => ?_
  rw [hconfig] at hasked
  exact (hfinished stage hasked).congr htables

/-- After a run that found one flag set in capital letters, the directory is gone, the grammar has
changed and the parser refuses everything. -/
theorem process_finished_gone :
    let db := (Access.log ⟨Stage.wordCounts.flagKey, "TRUE!", .append⟩).left .migrated
    let pl : Pipeline Unit :=
      ⟨{ Config.default with grammaticalProcessing := true, wordToWordSimilarity := true },
        ⟨.nested ⟨"text", ["text"], []⟩ [], .punctuation, true⟩,
        ⟨"texts", some [(.text "a.xml", .file (some "<text/>"))]⟩, Parser.idle⟩
    let pl' : Pipeline Bool :=
      ⟨pl.config, ⟨.terminal ⟨"sentence", ["("], []⟩, .punctuation, false⟩, ⟨"gone", none⟩,
        fun _ second => (.error "no", !second)⟩
    ∃ r, pl.process false (.start db ()) =
        .ok ⟨1, 1, 1, [.textAndMetadata, .grammaticalProcessing, .tfidf, .wordSimilarity]⟩ r ∧
      Access.ids.answer? r.database = some [1] ∧
      pl'.process false (.start r.database false) =
        .ok ⟨0, 0, 0, []⟩ (.start r.database false) := by
  intro db pl pl'
  have hends : (pl.process false).run' (.start db ()) =
      some ⟨1, 1, 1, [.textAndMetadata, .grammaticalProcessing, .tfidf, .wordSimilarity]⟩ := by
    decide +kernel
  have hids : Access.ids.answer? (Run.last (pl.process false (.start db ()))).database =
      some [1] := by decide +kernel
  unfold EStateM.run' EStateM.run at hends
  cases hrun : pl.process false (.start db ()) with
  | error e r =>
    rw [hrun] at hends
    cases hends
  | ok s r =>
    rw [hrun] at hends hids
    obtain rfl := Option.some.inj hends
    exact ⟨r, rfl, hids, process_finished hrun rfl rfl⟩

end Pipeline

end XmlHarvest

/-
The moves that a run makes, one committed write after the other.

`Pipeline.Move` lists the changes of the progress that the runs of a pipeline can bring about when
its collection holds some files, each with what has to hold before it.  Whatever a run does, whether
it ends or stops, it has taken the progress along such moves (`Pipeline.leads_process`); if it ends,
every stage that is asked for is done, and if it stops, `Pipeline.Fault` names the reason.  So what
the moves preserve holds however runs are interrupted.
-/
import XmlHarvest.Proofs.Pipeline.Ends
import Mathlib.Logic.Relation

namespace XmlHarvest

open Checkpoint Relation

variable {σ α β : Type}

namespace Pipeline

/-! ### Moves and faults -/

/-- The changes of the progress that a run of the pipeline brings about when the collection holds
the files `fs`. -/
inductive Move (pl : Pipeline σ) (fs : List (String × Option String)) :
    Progress → Progress → Prop
  /-- A file is left, so the first stage is not done. -/
  | reopen {p : Progress} (left : p.files.length < fs.length) :
      Move pl fs p (p.setFlag .textAndMetadata false)
  /-- The first of the files that are left is recorded. -/
  | record {p : Progress} {name : String} {content : Option String} {ds : List Document}
      (next : fs[p.files.length]? = some (name, content))
      (extracted : pl.extractor.extractFile content = .ok ds)
      (opened : p.flag .textAndMetadata = some false) :
      Move pl fs p (p.record name ds)
  /-- No file is left. -/
  | recorded {p : Progress} (all : fs.length ≤ p.files.length) :
      Move pl fs p (p.setFlag .textAndMetadata true)
  /-- A document is left to be parsed, so the second stage is not done. -/
  | reparse {p : Progress} (asked : pl.config.needsParsing = true)
      (text : p.flag .textAndMetadata = some true) (left : p.parsedCount < p.documents.length) :
      Move pl fs p (p.setFlag .grammaticalProcessing false)
  /-- The first of the documents that are left is parsed. -/
  | parse {p : Progress} {name : String} {d : Document} (asked : pl.config.needsParsing = true)
      (text : p.flag .textAndMetadata = some true)
      (opened : p.flag .grammaticalProcessing = some false)
      (next : p.documents[p.parsedCount]? = some (name, d))
      (readable : Document.read? d.write ≠ none) :
      Move pl fs p (p.setParsed (p.parsedCount + 1))
  /-- No document is left. -/
  | parsed {p : Progress} (asked : pl.config.needsParsing = true)
      (text : p.flag .textAndMetadata = some true) (all : p.documents.length ≤ p.parsedCount)
      (fits : p.parsedCount < 2 ^ 63) :
      Move pl fs p (p.setFlag .grammaticalProcessing true)
  /-- A stage without work of its own is done. -/
  | flagged {p : Progress} {s : Stage} (text : p.flag .textAndMetadata = some true)
      (parsed : pl.config.needsParsing = true → p.flag .grammaticalProcessing = some true)
      (stage : s = .wordCounts ∨ s = .tfidf ∨
        s = .wordSimilarity ∧ pl.config.wordToWordSimilarity = true) :
      Move pl fs p (p.setFlag s true)

/-- Why a run stops at a progress. -/
inductive Fault (pl : Pipeline σ) (fs : List (String × Option String)) (l : Limits)
    (p : Progress) : RunError → Prop
  | refused {w : LedgerWrite} {e : RunError} (h : l.Refuses w e) : Fault pl fs l p e
  | extracting {name : String} {content : Option String} {e : ExtractionError}
      (next : fs[p.files.length]? = some (name, content))
      (failed : pl.extractor.extractFile content = .error e) : Fault pl fs l p (.extracting name e)
  | badMark (asked : pl.config.needsParsing = true) (big : ¬ p.parsedCount < 2 ^ 63) :
      Fault pl fs l p (.store (.badMark parsedKey (toString p.parsedCount)))
  | corrupt {id : Nat} {name : String} {d : Document} (asked : pl.config.needsParsing = true)
      (stored : p.documents[id]? = some (name, d)) (unread : Document.read? d.write = none) :
      Fault pl fs l p (.store (.corrupt (id + 1)))
  | parsing {d : StoredDocument} {s : σ} {reason : String} (asked : pl.config.needsParsing = true)
      (failed : (pl.parser d s).1 = .error reason) : Fault pl fs l p (.parsing d.id reason)

/-- Every stage that is asked for is done. -/
structure Complete (pl : Pipeline σ) (p : Progress) : Prop where
  text : p.flag .textAndMetadata = some true
  parsed : pl.config.needsParsing = true → p.flag .grammaticalProcessing = some true
  counts : p.flag .wordCounts = some true
  tfidf : p.flag .tfidf = some true
  similarity : pl.config.wordToWordSimilarity = true → p.flag .wordSimilarity = some true

/-- From a run that stands at `p` the step makes moves, to a progress with `post` if it ends and to
one with a fault if it stops. -/
def Leads (pl : Pipeline σ) (fs : List (String × Option String)) (l : Limits) (p : Progress)
    (x : Step σ α) (post : α → Progress → Prop) : Prop :=
  ∀ r : Run σ, r.Shows l p → Step.Ends x r
    (fun a r' => ∃ p', r'.Shows l p' ∧ ReflTransGen (pl.Move fs) p p' ∧ post a p')
    (fun e r' => ∃ p', r'.Shows l p' ∧ ReflTransGen (pl.Move fs) p p' ∧ pl.Fault fs l p' e)

variable {pl : Pipeline σ} {fs : List (String × Option String)} {l : Limits} {p : Progress}

/-! ### Steps in general -/

theorem leads_pure {a : α} {post : α → Progress → Prop} (h : post a p) :
    pl.Leads fs l p (pure a) post := by
  intro r hr
  rw [Step.ends_pure]
  exact ⟨p, hr, .refl, h⟩

theorem leads_throw {e : RunError} {post : α → Progress → Prop} (h : pl.Fault fs l p e) :
    pl.Leads fs l p (throw e) post := by
  intro r hr
  rw [Step.ends_throw]
  exact ⟨p, hr, .refl, h⟩

theorem leads_bind {x : Step σ β} {f : β → Step σ α} {m : β → Progress → Prop}
    {post : α → Progress → Prop} (hx : pl.Leads fs l p x m)
    (hf : ∀ b p', m b p' → pl.Leads fs l p' (f b) post) : pl.Leads fs l p (x >>= f) post := by
  intro r hr
  rw [Step.ends_bind]
  refine (hx r hr).mono ?_ (fun _ _ h => h)
  rintro b r' ⟨p', hr', hreach, hm⟩
  refine (hf b p' hm r' hr').mono ?_ ?_
  · rintro a r'' ⟨p'', hr'', hreach', hpost⟩
    exact ⟨p'', hr'', hreach.trans hreach', hpost⟩
  · rintro e r'' ⟨p'', hr'', hreach', hfault⟩
    exact ⟨p'', hr'', hreach.trans hreach', hfault⟩

theorem Leads.mono {x : Step σ α} {post post' : α → Progress → Prop}
    (h : pl.Leads fs l p x post) (hpost : ∀ a p', post a p' → post' a p') :
    pl.Leads fs l p x post' := by
  intro r hr
  refine (h r hr).mono ?_ (fun _ _ h => h)
  rintro a r' ⟨p', hr', hreach, hp'⟩
  exact ⟨p', hr', hreach, hpost a p' hp'⟩

theorem leads_consult {access : Access α} {a : α}
    (h : ∀ db : Database, db.Shows p → access db = .ok a db) :
    pl.Leads fs l p (consult access) fun b p' => a = b ∧ p = p' := by
  intro r hr
  rw [Step.ends_consult (h _ hr.database)]
  exact ⟨p, hr, .refl, rfl, rfl⟩

theorem leads_consult_error {access : Access β} {e : StoreError} {f : β → Step σ α}
    {post : α → Progress → Prop} (h : ∀ db : Database, db.Shows p → access db = .error e db)
    (hfault : pl.Fault fs l p (.store e)) : pl.Leads fs l p (consult access >>= f) post := by
  intro r hr
  rw [Step.ends_bind, Step.ends_consult_error (h _ hr.database)]
  exact ⟨p, hr, .refl, hfault⟩

/-- A write that brings about a move, or is refused. -/
theorem leads_write {x : Step σ α} {w : LedgerWrite} {p' : Progress} (hmove : pl.Move fs p p')
    (hx : ∀ {r : Run σ} {Q : α → Run σ → Prop} {E : RunError → Run σ → Prop}, r.Shows l p →
      (∀ a r', r'.Shows l p' → r'.calls = r.calls → Q a r') → (∀ e, l.Refuses w e → E e r) →
      Step.Ends x r Q E) :
    pl.Leads fs l p x fun _ q => q = p' := by
  intro r hr
  apply hx hr
  · intro _ r' hr' _
    exact ⟨p', hr', .single hmove, rfl⟩
  · intro e he
    exact ⟨p, hr, .refl, .refused he⟩

theorem leads_setStage {s : Stage} {done : Bool} (h : pl.Move fs p (p.setFlag s done)) :
    pl.Leads fs l p (commit (setStage s done)) fun _ p' => p' = p.setFlag s done :=
  leads_write h fun hr hQ hE => hr.ends_setStage (hQ ()) hE

theorem leads_unlessDone {s : Stage} {work : Step σ α} {post : Progress → Prop}
    (hdone : p.flag s = some true → post p)
    (hwork : p.flag s ≠ some true → pl.Leads fs l p work fun _ p' => post p') :
    pl.Leads fs l p (unlessDone s work) fun _ p' => post p' := by
  unfold unlessDone
  refine leads_bind (leads_consult fun _ hdb => hdb.stageDone s) ?_
  rintro _ _ ⟨rfl, rfl⟩
  split
  · next h => exact leads_pure (hdone (of_decide_eq_true h))
  · next h =>
    refine leads_bind (hwork fun hs => h (decide_eq_true hs)) ?_
    intro _ _ hpost
    exact leads_pure hpost

theorem leads_ifAsked {asked : Bool} {work : Step σ (Option α)} {post : Progress → Prop}
    (hwork : asked = true → pl.Leads fs l p work fun _ p' => post p')
    (hnot : asked ≠ true → post p) :
    pl.Leads fs l p (ifAsked asked work) fun _ p' => post p' := by
  unfold ifAsked
  split
  · next h => exact hwork h
  · next h => exact leads_pure (hnot h)

/-! ### Recording files -/

theorem leads_recordOne {name : String} {content : Option String}
    (next : fs[p.files.length]? = some (name, content)) :
    pl.Leads fs l p (pl.recordOne (p.files.length + 1) name content) fun _ p' =>
      p'.files.length = p.files.length + 1 := by
  have hleft : p.files.length < fs.length := (List.getElem?_eq_some_iff.mp next).1
  unfold recordOne
  refine leads_bind (leads_setStage (.reopen hleft)) ?_
  rintro _ _ rfl
  cases hd : pl.extractor.extractFile content with
  | error e => exact leads_throw (.extracting next hd)
  | ok ds =>
    have hopened : (p.setFlag .textAndMetadata false).flag .textAndMetadata = some false :=
      Progress.flag_setFlag_same ..
    refine leads_bind (leads_write (.record next hd hopened)
      fun hr hQ hE => hr.ends_recordFile hQ hE) ?_
    rintro _ _ rfl
    exact leads_pure (by simp)

/-- The induction is on the files that are still to be looked at; all before them are recorded. -/
theorem leads_recordFrom {k : Nat} {gs : List (String × Option String)} (hgs : fs.drop k = gs)
    (hk : k ≤ p.files.length) :
    pl.Leads fs l p (pl.recordFrom (k + 1) gs) fun _ p' => fs.length ≤ p'.files.length := by
  induction gs generalizing k p with
  | nil =>
    have hlen : fs.length ≤ k := List.drop_eq_nil_iff.mp hgs
    exact leads_pure (by omega)
  | cons g gs ih =>
    obtain ⟨name, content⟩ := g
    have hget : fs[k]? = some (name, content) := by
      rw [← List.head?_drop, hgs]
      rfl
    have htail : fs.drop (k + 1) = gs := by
      rw [← List.tail_drop, hgs]
      rfl
    unfold recordFrom
    refine leads_bind (leads_consult fun _ hdb => hdb.fileRecorded (Nat.succ_pos k)) ?_
    rintro _ _ ⟨rfl, rfl⟩
    split
    · next h => exact ih htail (of_decide_eq_true h)
    · next h =>
      -- A file without a mark is the first that is not recorded.
      have hle : ¬ k + 1 ≤ p.files.length := fun hle => h (decide_eq_true hle)
      obtain rfl : k = p.files.length := by omega
      refine leads_bind (leads_recordOne hget) ?_
      intro _ p' hp'
      refine leads_bind (ih htail (by omega)) ?_
      intro _ _ hall
      exact leads_pure hall

theorem leads_extractRecord (hfs : pl.collection.files pl.config = some fs) :
    pl.Leads fs l p pl.extractRecord fun _ p' => p'.flag .textAndMetadata = some true := by
  unfold extractRecord
  rw [hfs]
  refine leads_bind (leads_recordFrom (k := 0) rfl (Nat.zero_le _)) ?_
  intro _ p' hall
  refine leads_bind (leads_setStage (.recorded hall)) ?_
  rintro _ _ rfl
  exact leads_pure (Progress.flag_setFlag_same ..)

/-! ### Parsing documents -/

theorem leads_callParser {d : StoredDocument} :
    pl.Leads fs l p (callParser pl.parser d) fun v p' =>
      p = p' ∧ ∃ s, v = (pl.parser d s).1 := by
  intro r hr
  rw [Step.ends_callParser]
  exact ⟨p, ⟨hr.database, hr.rejected, hr.cut⟩, .refl, rfl, r.parser, rfl⟩

theorem leads_parseWithin (asked : pl.config.needsParsing = true) {d : StoredDocument}
    (retries : Nat) :
    pl.Leads fs l p (parseWithin pl.parser d retries) fun _ p' => p = p' := by
  induction retries with
  | zero =>
    refine leads_bind leads_callParser ?_
    rintro v _ ⟨rfl, s, hv⟩
    cases v with
    | ok _ => exact leads_pure rfl
    | error reason => exact leads_throw (.parsing asked hv.symm)
  | succ retries ih =>
    refine leads_bind leads_callParser ?_
    rintro v _ ⟨rfl, s, hv⟩
    cases v with
    | ok _ => exact leads_pure rfl
    | error reason => exact ih

theorem leads_parseOne (asked : pl.config.needsParsing = true)
    (text : p.flag .textAndMetadata = some true)
    (opened : p.flag .grammaticalProcessing = some false)
    (left : p.parsedCount < p.documents.length) :
    pl.Leads fs l p (pl.parseOne (p.parsedCount + 1)) fun _ p' =>
      p' = p.setParsed (p.parsedCount + 1) := by
  obtain ⟨⟨name, d⟩, hd⟩ : ∃ e, p.documents[p.parsedCount]? = some e :=
    ⟨_, List.getElem?_eq_getElem left⟩
  unfold parseOne
  cases hs : (Row.ofDocument name (p.parsedCount + 1) d).document? with
  | none =>
    have hunread : Document.read? d.write = none := by
      simpa [Row.document?, Row.ofDocument] using hs
    refine leads_consult_error ?_ (.corrupt asked hd hunread)
    intro db hdb
    rw [hdb.document? hd, hs]
  | some s =>
    have hread : Document.read? d.write ≠ none := by
      intro h
      simp [Row.document?, Row.ofDocument, h] at hs
    refine leads_bind (leads_consult (a := some s) ?_) ?_
    · intro db hdb
      rw [hdb.document? hd, hs]
    · rintro _ _ ⟨rfl, rfl⟩
      refine leads_bind (leads_parseWithin asked _) ?_
      rintro _ _ rfl
      exact leads_write (.parse asked text opened hd hread)
        fun hr hQ hE => hr.ends_setLatestParsed (hQ ()) hE

/-- The induction is on the number of documents that are left, which are those behind the mark. -/
theorem leads_parseEach (asked : pl.config.needsParsing = true)
    (text : p.flag .textAndMetadata = some true)
    (opened : p.flag .grammaticalProcessing = some false) {n : Nat}
    (hn : p.parsedCount + n = p.documents.length) :
    pl.Leads fs l p (pl.parseEach (List.range' (p.parsedCount + 1) n)) fun _ p' =>
      p'.flag .textAndMetadata = some true ∧ p'.documents.length ≤ p'.parsedCount := by
  induction n generalizing p with
  | zero => exact leads_pure ⟨text, by omega⟩
  | succ n ih =>
    rw [List.range'_succ]
    unfold parseEach
    refine leads_bind (leads_parseOne asked text opened (by omega)) ?_
    rintro _ _ rfl
    refine ih (p := p.setParsed (p.parsedCount + 1)) text opened ?_
    show p.parsedCount + 1 + n = p.documents.length
    omega

theorem leads_parseDocuments (asked : pl.config.needsParsing = true)
    (text : p.flag .textAndMetadata = some true) :
    pl.Leads fs l p pl.parseDocuments fun _ p' =>
      p'.flag .textAndMetadata = some true ∧ p'.documents.length ≤ p'.parsedCount := by
  unfold parseDocuments
  by_cases hfits : p.parsedCount < 2 ^ 63
  · refine leads_bind (leads_consult fun _ hdb => by rw [hdb.pending, if_pos hfits]) ?_
    rintro _ _ ⟨rfl, rfl⟩
    split
    · next h =>
      have hnone : p.documents.length - p.parsedCount = 0 := by simpa using h
      exact leads_pure ⟨text, by omega⟩
    · next h =>
      have hsome : p.documents.length - p.parsedCount ≠ 0 := by simpa using h
      refine leads_bind (leads_setStage (.reparse asked text (by omega))) ?_
      rintro _ _ rfl
      have htext : (p.setFlag .grammaticalProcessing false).flag .textAndMetadata = some true := by
        rw [Progress.flag_setFlag_other (by decide), text]
      refine leads_bind (leads_parseEach asked htext (Progress.flag_setFlag_same ..) ?_) ?_
      · show p.parsedCount + (p.documents.length - p.parsedCount) = p.documents.length
        omega
      · intro _ _ hp'
        exact leads_pure hp'
  · exact leads_consult_error (fun _ hdb => by rw [hdb.pending, if_neg hfits])
      (.badMark asked hfits)

theorem leads_finishParsing (asked : pl.config.needsParsing = true)
    (text : p.flag .textAndMetadata = some true) (all : p.documents.length ≤ p.parsedCount) :
    pl.Leads fs l p finishParsing fun _ p' =>
      p'.flag .textAndMetadata = some true ∧ p'.flag .grammaticalProcessing = some true := by
  unfold finishParsing
  by_cases hfits : p.parsedCount < 2 ^ 63
  · refine leads_bind (leads_consult fun _ hdb => by rw [hdb.pending, if_pos hfits]) ?_
    rintro _ _ ⟨rfl, rfl⟩
    -- No document is left behind the mark, so the flag is set to done.
    have hempty : (List.range' (p.parsedCount + 1)
        (p.documents.length - p.parsedCount)).isEmpty = true := by
      simp only [List.isEmpty_iff, List.range'_eq_nil_iff]
      omega
    rw [if_pos hempty]
    refine (leads_setStage (.parsed asked text all hfits)).mono ?_
    rintro _ _ rfl
    refine ⟨?_, Progress.flag_setFlag_same ..⟩
    rw [Progress.flag_setFlag_other (by decide), text]
  · exact leads_consult_error (fun _ hdb => by rw [hdb.pending, if_neg hfits])
      (.badMark asked hfits)

/-! ### All stages -/

/-- The flags that are set stay set, and that of the stage is among them afterwards. -/
theorem leads_flagOnly {s : Stage} (text : p.flag .textAndMetadata = some true)
    (parsed : pl.config.needsParsing = true → p.flag .grammaticalProcessing = some true)
    (stage : s = .wordCounts ∨ s = .tfidf ∨
      s = .wordSimilarity ∧ pl.config.wordToWordSimilarity = true) :
    pl.Leads fs l p (flagOnly s) fun _ p' =>
      p'.flag s = some true ∧ ∀ s', p.flag s' = some true → p'.flag s' = some true := by
  refine leads_unlessDone (fun h => ⟨h, fun _ h' => h'⟩) ?_
  intro _
  refine (leads_setStage (.flagged text parsed stage)).mono ?_
  rintro _ _ rfl
  refine ⟨Progress.flag_setFlag_same .., ?_⟩
  intro s' hs'
  by_cases heq : s' = s
  · rw [heq, Progress.flag_setFlag_same]
  · rw [Progress.flag_setFlag_other heq, hs']

/-- The parsing stage, where it is asked for, leaves both stages done. -/
theorem leads_parsing (text : p.flag .textAndMetadata = some true) :
    pl.Leads fs l p
      (ifAsked pl.config.needsParsing (unlessDone .grammaticalProcessing do
        let count ← pl.parseDocuments
        finishParsing
        return count))
      fun _ p' => p'.flag .textAndMetadata = some true ∧
        (pl.config.needsParsing = true → p'.flag .grammaticalProcessing = some true) := by
  refine leads_ifAsked ?_ (fun hnot => ⟨text, fun asked => absurd asked hnot⟩)
  intro asked
  refine leads_unlessDone (fun h => ⟨text, fun _ => h⟩) ?_
  intro _
  refine leads_bind (leads_parseDocuments asked text) ?_
  rintro _ _ ⟨htext, hall⟩
  refine leads_bind (leads_finishParsing asked htext hall) ?_
  rintro _ _ ⟨htext, hparsed⟩
  exact leads_pure ⟨htext, fun _ => hparsed⟩

/-- A run makes moves.  If it ends, every stage that is asked for is done; if it stops, there is a
fault. -/
theorem leads_process (hfs : pl.collection.files pl.config = some fs) :
    pl.Leads fs l p (pl.process false) fun _ p' => pl.Complete p' := by
  unfold process
  refine leads_bind (m := fun _ p' => p'.flag .textAndMetadata = some true)
    (leads_unlessDone (fun h => h) fun _ => leads_extractRecord hfs) ?_
  intro _ p₁ htext
  refine leads_bind (leads_parsing htext) ?_
  rintro _ p₂ ⟨htext, hparsed⟩
  refine leads_bind (leads_flagOnly htext hparsed (.inl rfl)) ?_
  -- From here on flags are only added, so what is done stays done.
  rintro _ p₃ ⟨hcounts, hkeep⟩
  have htext₃ := hkeep _ htext
  have hparsed₃ := fun asked => hkeep _ (hparsed asked)
  refine leads_bind (leads_flagOnly htext₃ hparsed₃ (.inr (.inl rfl))) ?_
  rintro _ p₄ ⟨htfidf, hkeep⟩
  have hdone : pl.config.wordToWordSimilarity ≠ true → pl.Complete p₄ := fun hnot =>
    ⟨hkeep _ htext₃, fun asked => hkeep _ (hparsed₃ asked), hkeep _ hcounts, htfidf,
      fun asked => absurd asked hnot⟩
  refine leads_bind (leads_ifAsked ?_ hdone) (fun _ _ h => leads_pure h)
  intro asked
  refine (leads_flagOnly (hkeep _ htext₃) (fun asked => hkeep _ (hparsed₃ asked))
    (.inr (.inr ⟨rfl, asked⟩))).mono ?_
  rintro _ p₅ ⟨hsimilarity, hkeep'⟩
  exact ⟨hkeep' _ (hkeep _ htext₃), fun asked => hkeep' _ (hkeep _ (hparsed₃ asked)),
    hkeep' _ (hkeep _ hcounts), hkeep' _ htfidf, fun _ => hsimilarity⟩

end Pipeline

end XmlHarvest
